import SmallScheme.Program
import SmallScheme.Proofs.Correspondence

/-!
Evaluation keeps every correspondence: from machines, expressions and frames that belong together, two
evaluations end with machines and results that belong together. So do calls, primitive procedures
and the running of program text.
-/

set_option autoImplicit false
set_option relaxedAutoImplicit false

namespace SmallScheme.Correspondence

variable {C : Correspondence} {w : C.World} {room room' : Nat}

theorem write_settles (style : Style) {v v' : Value} (h : C.values w v v')
    (hr : C.Fits room room') : C.Settles Eq (v.write style room) (v'.write style room') := by
  induction room generalizing room' v v' with
  | zero =>
    refine .noRoom (hr.exact.imp_left Eq.symm) ?_
    rintro rfl
    rfl
  | succ room ih =>
    cases room' with
    | zero => exact absurd hr.le (Nat.not_succ_le_zero room)
    | succ room' =>
      cases C.alike h with
      | list hitems =>
        simp only [Value.write]
        have parts := Settles.mapM (R := Eq) hitems fun a b hab => ih hab hr.pred
        refine parts.bind fun xs ys hxy => .ok ?_
        obtain rfl : xs = ys := by simpa using hxy
        rfl
      | _ => exact .of_eq rfl

private theorem complain_settles {α β : Type} {Q : α → β → Prop} (e : String → Error) {v v' : Value}
    (h : C.values w v v') (hr : C.Fits room room') :
    C.Settles Q (Primitive.complain room e v) (Primitive.complain room' e v') := by
  refine (write_settles .literal h hr).bind fun text text' ht => ?_
  rw [ht]
  exact .error _

private theorem number_settles (callee : String) {v v' : Value} (h : C.values w v v')
    (hr : C.Fits room room') :
    C.Settles Eq (Primitive.number room callee v) (Primitive.number room' callee v') := by
  cases C.alike h with
  | number n => exact .ok rfl
  | _ => exact complain_settles (Error.notNumber callee) h hr

private theorem numbers_settles (callee : String) {args args' : List Value}
    (h : List.Forall₂ (C.values w) args args') (hr : C.Fits room room') :
    C.Settles Eq (Primitive.numbers room callee args) (Primitive.numbers room' callee args') :=
  (Settles.mapM h fun _ _ hab => number_settles callee hab hr).imp fun _ _ hn => by simpa using hn

theorem items_settles (callee : String) {v v' : Value} (h : C.values w v v')
    (hr : C.Fits room room') :
    C.Settles (List.Forall₂ (C.values w)) (Primitive.items room callee v)
      (Primitive.items room' callee v') := by
  cases C.alike h with
  | list hitems => exact .ok hitems
  | _ => exact complain_settles (Error.notList callee) h hr

private theorem isProcedure_eq {v v' : Value} (h : C.values w v v') :
    v.isProcedure = v'.isProcedure := by
  cases C.alike h <;> rfl

private theorem procedure_settles (callee : String) {v v' : Value} (h : C.values w v v')
    (hr : C.Fits room room') :
    C.Settles Eq (Primitive.procedure room callee v) (Primitive.procedure room' callee v') := by
  simp only [Primitive.procedure, isProcedure_eq h]
  split
  · exact .ok rfl
  · exact complain_settles (Error.notProcedure callee) h hr

private theorem equal_of_not_list (room : Nat) {a b : Value}
    (h : a.isList = false ∨ b.isList = false) : a.equal (room + 1) b = .ok (a.same b) := by
  cases a <;> cases b <;> simp_all [Value.equal, Value.isList]

private theorem isList_eq {v v' : Value} (h : C.values w v v') : v.isList = v'.isList := by
  cases C.alike h <;> rfl

private theorem allM_zip_settles {related related' : Value → Value → Except Failure Bool}
    (k : ∀ {a a' b b'}, C.values w a a' → C.values w b b' →
      C.Settles Eq (related a b) (related' a' b'))
    {xs xs' ys ys' : List Value} (hx : List.Forall₂ (C.values w) xs xs')
    (hy : List.Forall₂ (C.values w) ys ys') :
    C.Settles Eq ((xs.zip ys).allM fun pair => related pair.1 pair.2)
      ((xs'.zip ys').allM fun pair => related' pair.1 pair.2) := by
  induction hx generalizing ys ys' with
  | nil => exact .ok rfl
  | cons ha _ ih =>
    cases hy with
    | nil => exact .ok rfl
    | cons hb hy =>
      simp only [List.zip_cons_cons, List.allM_cons]
      refine (k ha hb).bind fun r r' hr => ?_
      subst hr
      cases r with
      | true => exact ih hy
      | false => exact .ok rfl

private theorem equal_settles {a a' b b' : Value} (ha : C.values w a a') (hb : C.values w b b')
    (hr : C.Fits room room') : C.Settles Eq (a.equal room b) (a'.equal room' b') := by
  induction room generalizing room' a a' b b' with
  | zero =>
    refine .noRoom (hr.exact.imp_left Eq.symm) ?_
    rintro rfl
    rfl
  | succ room ih =>
    cases room' with
    | zero => exact absurd hr.le (Nat.not_succ_le_zero room)
    | succ room' =>
      by_cases one : a.isList = false ∨ b.isList = false
      · have other : a'.isList = false ∨ b'.isList = false := by
          rwa [← isList_eq ha, ← isList_eq hb]
        rw [equal_of_not_list room one, equal_of_not_list room' other, C.same ha hb]
        exact .ok rfl
      · cases C.alike ha with
        | list hx =>
          cases C.alike hb with
          | list hy =>
            simp only [Value.equal, hx.length_eq, hy.length_eq]
            split
            · exact allM_zip_settles (fun h h' => ih h h' hr.pred) hx hy
            · exact .ok rfl
          | _ => simp [Value.isList] at one
        | _ => simp [Value.isList] at one

def CallsAgree (C : Correspondence) (call call' : Value → List Value → Action Value) : Prop :=
  ∀ {w m m' f f' args args'}, C.machines w m m' → C.values w f f' →
    List.Forall₂ (C.values w) args args' → C.Agrees w C.values (call f args m) (call' f' args' m')

def EvalsAgree (C : Correspondence) (eval eval' : Value → FrameId → Action Value) : Prop :=
  ∀ {w m m' e e' f f'}, C.machines w m m' → C.values w e e' → C.frames w f f' →
    C.Agrees w C.values (eval e f m) (eval' e' f' m')

section Primitives

variable {m m' : Machine} {call call' : Value → List Value → Action Value} {name : String}
  {args args' : List Value}

private theorem lift_number_agrees {p : Primitive} {x y : Except Failure Value}
    (hop : p.operation.isArithmetic = true) (hm : C.machines w m m')
    (hargs : List.Forall₂ (C.values w) args args') (ran : p.run room call args = .lift x)
    (given : ∀ v, x = .ok v → ∃ n, v = .number n) (hs : C.Settles Eq x y) :
    C.Agrees w C.values (p.run room call args m) (Action.lift y m') := by
  rw [ran]
  cases hs with
  | @ok v v' same =>
    obtain ⟨n, rfl⟩ := given v rfl
    subst same
    have computed : (p.run room call args m).1 = .ok (.number n) := by
      rw [ran]
      rfl
    exact .ok (C.later_refl w) hm (C.number hop hargs computed)
  | error failure => exact .error (C.later_refl w) hm
  | excused he => exact .excused he

private theorem exists_number_of_numeric {callee : String} {r : Except NumericFault Number} {v : Value}
    (h : Primitive.numeric callee r = .ok v) : ∃ n, v = .number n := by
  cases r with
  | error fault => cases h
  | ok n =>
    cases h
    exact ⟨n, rfl⟩

private theorem test_eq {test : Value → Bool} {a a' : Value} (h : test ∈ [fun a => !a.isTrue,
      Value.isList, Value.isNull, Value.isSymbol, Value.isNumber, Value.isProcedure])
    (ha : C.values w a a') : test a = test a' := by
  have alike := C.alike ha
  simp only [List.mem_cons, List.not_mem_nil, or_false] at h
  rcases h with rfl | rfl | rfl | rfl | rfl | rfl <;> cases alike with
  | list hitems => cases hitems <;> rfl
  | _ => rfl

private theorem columns_forall₂ {α β : Type} {R : α → β → Prop} {first : List α} {first' : List β}
    {others : List (List α)} {others' : List (List β)} (hf : List.Forall₂ R first first')
    (ho : List.Forall₂ (List.Forall₂ R) others others') :
    List.Forall₂ (List.Forall₂ R) (Primitive.columns first others)
      (Primitive.columns first' others') := by
  have heads : ∀ {xs : List α} {ys : List β}, List.Forall₂ R xs ys →
      Option.Rel R xs.head? ys.head? := by
    intro xs ys h
    cases h with
    | nil => exact .none
    | cons hx _ => exact .some hx
  have tails : ∀ {xs : List α} {ys : List β}, List.Forall₂ R xs ys →
      List.Forall₂ R xs.tail ys.tail := by
    intro xs ys h
    cases h with
    | nil => exact .nil
    | cons _ hrest => exact hrest
  induction hf generalizing others others' with
  | nil => exact .nil
  | cons hx _ ih =>
    exact .cons (.cons hx (List.rel_filterMap (fun _ _ h => heads h) ho))
      (ih (List.rel_map (fun _ _ h => tails h) ho))

private theorem all_length_eq {α β : Type} {R : α → β → Prop} {first : List α} {first' : List β}
    {others : List (List α)} {others' : List (List β)} (hf : List.Forall₂ R first first')
    (ho : List.Forall₂ (List.Forall₂ R) others others') :
    others.all (fun row => decide (row.length = first.length)) =
      others'.all fun row => decide (row.length = first'.length) := by
  induction ho with
  | nil => rfl
  | cons hrow _ ih => rw [List.all_cons, List.all_cons, ih, hrow.length_eq, hf.length_eq]

private theorem mapped_agrees {f f' : Value} {rows rows' : List Value} (hm : C.machines w m m')
    (hr : C.Fits room room') (hcall : C.CallsAgree call call') (hf : C.values w f f')
    (hrows : List.Forall₂ (C.values w) rows rows') :
    C.Agrees w C.values (Primitive.mapped room name call f rows m)
      (Primitive.mapped room' name call' f' rows' m') := by
  refine (Agrees.lift (Q := fun _ => Eq) hm (procedure_settles name hf hr)).bind
    fun u _ _ n n' hu hn _ => ?_
  have hf := C.values_later hu hf
  have hrows := hrows.imp fun _ _ => C.values_later hu
  have lists := Settles.mapM hrows fun _ _ h => items_settles name h hr
  refine (Agrees.lift (Q := fun v => List.Forall₂ (List.Forall₂ (C.values v))) hn lists).bind
    fun v xs ys o o' hv ho hxy => ?_
  have hf := C.values_later hv hf
  cases hxy with
  | nil => exact .newList ho .nil
  | cons hfirst hothers =>
    simp only [all_length_eq hfirst hothers]
    split
    · refine (Agrees.mapM (P := fun u => List.Forall₂ (C.values u)) (R := C.values)
        (fun hu h => h.imp fun _ _ => C.values_later hu) C.values_later ho
        (columns_forall₂ hfirst hothers) fun u a b n n' hu hn hab =>
          hcall hn (C.values_later hu hf) hab).bind fun u cs ds n n' _ hn hcs => ?_
      exact .newList hn hcs
    · exact .fail _ ho

/-- Primitive procedures keep the correspondence if the caller that they are given does. -/
theorem run_agrees (p : Primitive) (hm : C.machines w m m') (hr : C.Fits room room')
    (hcall : C.CallsAgree call call') (hargs : List.Forall₂ (C.values w) args args') :
    C.Agrees w C.values (p.run room call args m) (p.run room' call' args' m') := by
  have truth (b : Bool) : C.Agrees w C.values ((pure (.bool b) : Action Value) m)
      ((pure (.bool b) : Action Value) m') := .pure hm (C.bool w b)
  have listed {a a' : Value} (ha : C.values w a a') :=
    Agrees.lift (Q := fun u => List.Forall₂ (C.values u)) hm (items_settles p.name ha hr)
  have numbers := numbers_settles p.name hargs hr
  obtain ⟨n, count⟩ : ∃ n, args.length = n := ⟨_, rfl⟩
  have count' : args'.length = n := hargs.length_eq.symm.trans count
  cases p.course n with
  | misapplied _ ran =>
    rw [ran room call args count, ran room' call' args' count', hargs.length_eq]
    exact .fail _ hm
  | calculates hop ran =>
    rw [ran room' call' args' count']
    refine lift_number_agrees hop hm hargs (ran room call args count) (fun v computed => ?_)
      (numbers.bind fun _ _ same => .of_eq (same ▸ rfl))
    obtain ⟨xs, -, computed⟩ := Except.exists_of_bind computed
    exact exists_number_of_numeric computed
  | compares _ ran =>
    rw [ran room call args count, ran room' call' args' count']
    refine .lift hm (numbers.bind fun xs ys same => ?_)
    subst same
    exact .ok (C.bool w _)
  | equal _ ran =>
    obtain _ | ⟨ha, _ | ⟨hb, _ | _⟩⟩ := hargs <;> cases count
    rw [ran, ran]
    refine .lift hm ((equal_settles ha hb hr).bind fun b b' same => ?_)
    subst same
    exact .ok (C.bool w b)
  | same _ ran =>
    obtain _ | ⟨ha, _ | ⟨hb, _ | _⟩⟩ := hargs <;> cases count
    rw [ran, ran, C.same ha hb]
    exact truth _
  | tests _ ht ran =>
    obtain _ | ⟨ha, _ | _⟩ := hargs <;> cases count
    rw [ran, ran, test_eq ht ha]
    exact truth _
  | cons _ ran =>
    obtain _ | ⟨ha, _ | ⟨hb, _ | _⟩⟩ := hargs <;> cases count
    rw [ran, ran]
    refine (listed hb).bind fun u xs ys n n' hu hn hxs => ?_
    exact .newList hn (.cons (C.values_later hu ha) hxs)
  | car _ ran =>
    obtain _ | ⟨ha, _ | _⟩ := hargs <;> cases count
    rw [ran, ran]
    refine (listed ha).bind fun u xs ys n n' hu hn hxs => ?_
    cases hxs with
    | nil => exact .fail _ hn
    | cons hx _ => exact .pure hn hx
  | cdr _ ran =>
    obtain _ | ⟨ha, _ | _⟩ := hargs <;> cases count
    rw [ran, ran]
    refine (listed ha).bind fun u xs ys n n' hu hn hxs => ?_
    cases hxs with
    | nil => exact .fail _ hn
    | cons _ hrest => exact .newList hn hrest
  | append _ ran =>
    rw [ran, ran]
    have tables := Settles.mapM hargs fun _ _ h => items_settles p.name h hr
    refine (Agrees.lift (Q := fun u => List.Forall₂ (List.Forall₂ (C.values u))) hm tables).bind
      fun u xs ys n n' hu hn hxs => ?_
    exact .newList hn (List.rel_flatten hxs)
  | list _ ran =>
    rw [ran, ran]
    exact .newList hm hargs
  | length hop ran =>
    obtain _ | ⟨ha, _ | _⟩ := hargs <;> cases count
    rw [ran room' call']
    refine lift_number_agrees (hop ▸ rfl) hm (.cons ha .nil) (ran room call _) (fun v computed => ?_)
      ((items_settles p.name ha hr).bind fun _ _ each => .of_eq (by rw [each.length_eq]))
    obtain ⟨items, -, computed⟩ := Except.exists_of_bind computed
    cases computed
    exact ⟨_, rfl⟩
  | apply _ ran =>
    obtain _ | ⟨ha, _ | ⟨hb, _ | _⟩⟩ := hargs <;> cases count
    rw [ran, ran]
    refine (Agrees.lift (Q := fun _ => Eq) hm (procedure_settles p.name ha hr)).bind
      fun u _ _ n n' hu hn _ => ?_
    refine (Agrees.lift (Q := fun u => List.Forall₂ (C.values u)) hn
      (items_settles p.name (C.values_later hu hb) hr)).bind fun v xs ys o o' hv ho hxs => ?_
    exact hcall ho (C.values_later (C.later_trans hu hv) ha) hxs
  | map _ ran =>
    obtain _ | ⟨ha, _ | ⟨hb, hrest⟩⟩ := hargs
    · cases count
    · cases count
    · rw [ran, ran]
      exact mapped_agrees hm hr hcall ha (.cons hb hrest)
  | interrupt _ ran =>
    rw [ran, ran]
    exact .fail _ hm

end Primitives

inductive FormsAgree (C : Correspondence) (w : C.World) : Form → Form → Prop
  | quote {d d' : Value} : C.values w d d' → FormsAgree C w (.quote d) (.quote d')
  | conditional {a a' b b' c c' : Value} : C.values w a a' → C.values w b b' → C.values w c c' →
      FormsAgree C w (.conditional a b c) (.conditional a' b' c')
  | assignment {name : String} {e e' : Value} : C.values w (.symbol name) (.symbol name) →
      C.values w e e' → FormsAgree C w (.assignment name e) (.assignment name e')
  | definition {name : String} {e e' : Value} : C.values w (.symbol name) (.symbol name) →
      C.values w e e' → FormsAgree C w (.definition name e) (.definition name e')
  | abstraction {params : List String} {body body' : Value} :
      (∀ name ∈ params, C.values w (.symbol name) (.symbol name)) → C.values w body body' →
      FormsAgree C w (.abstraction params body) (.abstraction params body')
  | sequence {es es' : List Value} : List.Forall₂ (C.values w) es es' →
      FormsAgree C w (.sequence es) (.sequence es')
  | application {f f' : Value} {es es' : List Value} : C.values w f f' →
      List.Forall₂ (C.values w) es es' → FormsAgree C w (.application f es) (.application f' es')
  | misshapen (form : SpecialForm) : FormsAgree C w (.misshapen form) (.misshapen form)
  | unnamed (form : SpecialForm) {got got' : Value} : C.values w got got' →
      FormsAgree C w (.unnamed form got) (.unnamed form got')
  | unparametrised : FormsAgree C w .unparametrised .unparametrised

section Forms

variable {m m' : Machine} {eval eval' : Value → FrameId → Action Value}
  {call call' : Value → List Value → Action Value}

private theorem symbol?_eq {v v' : Value} (h : C.values w v v') : v.symbol? = v'.symbol? := by
  cases C.alike h <;> rfl

private theorem symbols_agree {items items' : List Value}
    (h : List.Forall₂ (C.values w) items items') :
    items.mapM Value.symbol? = items'.mapM Value.symbol? ∧
      ∀ params, items.mapM Value.symbol? = some params →
        ∀ name ∈ params, C.values w (.symbol name) (.symbol name) := by
  induction h with
  | nil => exact ⟨rfl, by simp⟩
  | @cons v v' items items' hv _ ih =>
    simp only [List.mapM_cons, symbol?_eq hv, ih.1, true_and]
    intro params hp name hn
    cases hs : v.symbol? with
    | none => simp [← symbol?_eq hv, hs] at hp
    | some first =>
      obtain ⟨rest, hrest, rfl⟩ : ∃ rest, items'.mapM Value.symbol? = some rest ∧
          first :: rest = params := by
        simpa [← symbol?_eq hv, hs, Option.bind_eq_some_iff] using hp
      rcases List.mem_cons.mp hn with rfl | hn
      · have alike := C.alike hv
        cases alike with
        | symbol _ =>
          obtain rfl : _ = name := by simpa [Value.symbol?] using hs
          exact hv
        | _ => simp [Value.symbol?] at hs
      · exact ih.2 rest (ih.1.trans hrest) name hn

private theorem special_agrees (form : SpecialForm) {rest rest' : List Value}
    (h : List.Forall₂ (C.values w) rest rest') :
    C.FormsAgree w (Form.special form rest) (Form.special form rest') := by
  cases form with
  | quote =>
    obtain _ | ⟨ha, _ | ⟨hb, _⟩⟩ := h
    · exact .misshapen _
    · exact .quote ha
    · exact .misshapen _
  | conditional =>
    obtain _ | ⟨ha, _ | ⟨hb, _ | ⟨hc, _ | ⟨hd, _⟩⟩⟩⟩ := h
    · exact .misshapen _
    · exact .misshapen _
    · exact .misshapen _
    · exact .conditional ha hb hc
    · exact .misshapen _
  | assignment =>
    obtain _ | ⟨ha, hrest⟩ := h
    · exact .misshapen _
    have alike := C.alike ha
    obtain _ | ⟨hb, _ | ⟨hc, _⟩⟩ := hrest
    · cases alike <;> exact .misshapen _
    · cases alike with
      | symbol name => exact .assignment ha hb
      | _ => exact .unnamed _ ha
    · cases alike <;> exact .misshapen _
  | definition =>
    obtain _ | ⟨ha, hrest⟩ := h
    · exact .misshapen _
    have alike := C.alike ha
    obtain _ | ⟨hb, _ | ⟨hc, _⟩⟩ := hrest
    · cases alike <;> exact .misshapen _
    · cases alike with
      | symbol name => exact .definition ha hb
      | _ => exact .unnamed _ ha
    · cases alike <;> exact .misshapen _
  | abstraction =>
    obtain _ | ⟨ha, _ | ⟨hb, _ | ⟨hc, _⟩⟩⟩ := h
    · exact .misshapen _
    · exact .misshapen _
    · have alike := C.alike ha
      cases alike with
      | list hitems =>
        obtain ⟨equal, known⟩ := symbols_agree hitems
        simp only [Form.special, Form.params?, ← equal]
        split
        · exact .abstraction (known _ ‹_›) hb
        · exact .unparametrised
      | _ => exact .unparametrised
    · exact .misshapen _
  | sequence => exact .sequence h

theorem ofList_agrees {head head' : Value} {rest rest' : List Value} (hh : C.values w head head')
    (hrest : List.Forall₂ (C.values w) rest rest') :
    C.FormsAgree w (Form.ofList head rest) (Form.ofList head' rest') := by
  unfold Form.ofList
  rw [symbol?_eq hh]
  cases head'.symbol?.bind SpecialForm.ofKeyword? with
  | some form => exact special_agrees form hrest
  | none => exact .application hh hrest

private theorem isTrue_eq {v v' : Value} (h : C.values w v v') : v.isTrue = v'.isTrue := by
  cases C.alike h <;> rfl

private theorem inOrder_agrees {f f' : FrameId} {es es' : List Value}
    (heval : C.EvalsAgree eval eval')
    (hm : C.machines w m m') (hf : C.frames w f f') (hes : List.Forall₂ (C.values w) es es') :
    C.Agrees w C.values (Eval.inOrder eval es f m) (Eval.inOrder eval' es' f' m') :=
  Agrees.foldlM (P := C.values) C.values_later hm hes (C.unit w) fun _ _ _ _ _ _ _ hu hn he _ =>
    heval hn he (C.frames_later hu hf)

private theorem literal_agrees {v v' : Value} (hm : C.machines w m m') (hr : C.Fits room room')
    (hv : C.values w v v') :
    C.Agrees w (fun _ => Eq) (Action.lift (v.literal room) m) (Action.lift (v'.literal room') m') :=
  .lift hm (write_settles .literal hv hr)

private theorem describe_agrees {f f' : FrameId} (hm : C.machines w m m') (hf : C.frames w f f') :
    C.Agrees w (fun _ => Eq) (Action.view (·.describe f) m) (Action.view (·.describe f') m') :=
  .ok (C.later_refl w) hm (C.describe hm hf)

private theorem make_agrees {params : List String} {body body' : Value} {f f' : FrameId}
    (hm : C.machines w m m') (hb : C.values w body body') (hf : C.frames w f f')
    (hp : ∀ name ∈ params, C.values w (.symbol name) (.symbol name)) :
    C.Agrees w (fun u i j => C.values u (.procedure i params body f) (.procedure j params body' f'))
      (Action.change Store.make m) (Action.change Store.make m') := by
  obtain ⟨u, hu, hn, hv⟩ := C.newProcedure hm hb hf hp
  exact .ok hu hn hv

theorem form_agrees {f f' : FrameId} {form form' : Form} (heval : C.EvalsAgree eval eval')
    (hcall : C.CallsAgree call call') (hr : C.Fits room room') (hm : C.machines w m m')
    (hf : C.frames w f f') (h : C.FormsAgree w form form') :
    C.Agrees w C.values (Eval.form room eval call f form m)
      (Eval.form room' eval' call' f' form' m') := by
  cases h with
  | quote hd => exact .pure hm hd
  | conditional ha hb hc =>
    refine (heval hm ha hf).bind fun u v v' n n' hu hn hv => ?_
    rw [isTrue_eq hv]
    split
    · exact heval hn (C.values_later hu hb) (C.frames_later hu hf)
    · exact heval hn (C.values_later hu hc) (C.frames_later hu hf)
  | @assignment name e e' hname he =>
    refine (heval hm he hf).bind fun u v v' n n' hu hn hv => ?_
    refine (Agrees.assign hn (C.frames_later hu hf) hv (C.values_later hu hname)).bind
      fun x _ _ o o' hx ho _ => ?_
    refine (literal_agrees ho hr (C.values_later hx hv)).bind fun y text text' q q' _ hq ht => ?_
    subst ht
    refine (Agrees.report .debug _ hq).bind fun z _ _ r r' _ hr _ => ?_
    exact .pure hr (C.unit z)
  | @definition name e e' hname he =>
    refine (heval hm he hf).bind fun u v v' n n' hu hn hv => ?_
    have hf := C.frames_later hu hf
    refine (Agrees.define hn hf hv (C.values_later hu hname)).bind fun x _ _ o o' hx ho _ => ?_
    refine (literal_agrees ho hr (C.values_later hx hv)).bind fun y text text' q q' hy hq ht => ?_
    have hf := C.frames_later (C.later_trans hx hy) hf
    refine (describe_agrees hq hf).bind fun z place place' r r' _ hr hp => ?_
    subst ht hp
    refine (Agrees.report .debug _ hr).bind fun a _ _ s s' _ hs _ => ?_
    exact .pure hs (C.unit a)
  | @abstraction params body body' hp hb =>
    refine (make_agrees hm hb hf hp).bind fun u i j n n' hu hn hv => ?_
    refine (literal_agrees hn hr hv).bind fun x text text' o o' hx ho ht => ?_
    have hf := C.frames_later (C.later_trans hu hx) hf
    refine (describe_agrees ho hf).bind fun y place place' q q' hy hq hp => ?_
    subst ht hp
    refine (Agrees.report .debug _ hq).bind fun z _ _ r r' hz hr _ => ?_
    exact .pure hr (C.values_later (C.later_trans hx (C.later_trans hy hz)) hv)
  | sequence hes => exact inOrder_agrees heval hm hf hes
  | application hg hes =>
    refine (heval hm hg hf).bind fun u v v' n n' hu hn hv => ?_
    refine (Agrees.mapM (P := C.values) (R := C.values) C.values_later C.values_later hn
      (hes.imp fun _ _ => C.values_later hu) fun x e e' o o' hx ho he =>
        heval ho he (C.frames_later (C.later_trans hu hx) hf)).bind
      fun x vs vs' o o' hx ho hvs => ?_
    exact hcall ho (C.values_later hx hv) hvs
  | misshapen form => exact .fail _ hm
  | unnamed form hg => exact .lift hm (complain_settles _ hg hr)
  | unparametrised => exact .fail _ hm

theorem expression_agrees {e e' : Value} {f f' : FrameId} (heval : C.EvalsAgree eval eval')
    (hcall : C.CallsAgree call call') (hr : C.Fits room room') (hm : C.machines w m m')
    (he : C.values w e e') (hf : C.frames w f f') :
    C.Agrees w C.values (Eval.expression room eval call e f m)
      (Eval.expression room' eval' call' e' f' m') := by
  have alike := C.alike he
  cases alike with
  | symbol name => exact .lookup hm hf he
  | list hitems =>
    cases hitems with
    | nil => exact .fail _ hm
    | cons hh hrest => exact form_agrees heval hcall hr hm hf (ofList_agrees hh hrest)
  | _ => exact .pure hm he

private theorem shown_settles {v v' : Value} (hv : C.values w v v') (hr : C.Fits room room') :
    C.Settles Eq (v.shown room) (v'.shown room') := by
  have alike := C.alike hv
  cases alike with
  | symbol name => exact .ok rfl
  | _ => exact write_settles .literal hv hr

theorem application_agrees {f f' : Value} {args args' : List Value} (heval : C.EvalsAgree eval eval')
    (hcall : C.CallsAgree call call') (hr : C.Fits room room') (hm : C.machines w m m')
    (hf : C.values w f f') (hargs : List.Forall₂ (C.values w) args args') :
    C.Agrees w C.values (Eval.application room eval call f args m)
      (Eval.application room' eval' call' f' args' m') := by
  have refused : C.Agrees w C.values
      ((do
        let text ← Action.lift (f.shown room)
        let literal ← Action.lift (f.literal room)
        Action.raise (.notApplicable text literal) : Action Value) m)
      ((do
        let text ← Action.lift (f'.shown room')
        let literal ← Action.lift (f'.literal room')
        Action.raise (.notApplicable text literal) : Action Value) m') := by
    refine (Agrees.lift (Q := fun _ => Eq) hm (shown_settles hf hr)).bind
      fun u text text' n n' hu hn ht => ?_
    refine (literal_agrees hn hr (C.values_later hu hf)).bind fun x lit lit' o o' _ ho hl => ?_
    subst ht hl
    exact .fail _ ho
  have alike := C.alike hf
  cases alike with
  | procedure hbody _ =>
    refine (Agrees.enter hm hf hargs).bind fun u inner inner' n n' hu hn hi => ?_
    exact heval hn (C.values_later hu hbody) hi
  | @primitive _ _ p =>
    simp only [Eval.application, hargs.length_eq]
    split
    · exact run_agrees p hm hr hcall hargs
    · exact .fail _ hm
  | _ => exact refused

end Forms

/-- Evaluation and calls keep the correspondence; the first run may have less room if running out of it
is excused. -/
theorem eval_call_agree {depth depth' : Nat} (hd : C.Fits depth depth') :
    C.EvalsAgree (eval depth) (eval depth') ∧ C.CallsAgree (call depth) (call depth') := by
  induction depth generalizing depth' with
  | zero =>
    rcases hd.exact with rfl | he
    · exact ⟨fun hm _ _ => .fail _ hm, fun hm _ _ => .fail _ hm⟩
    · exact ⟨fun _ _ _ => .excused he, fun _ _ _ => .excused he⟩
  | succ depth ih =>
    cases depth' with
    | zero => exact absurd hd.le (Nat.not_succ_le_zero depth)
    | succ depth' =>
      obtain ⟨heval, hcall⟩ := ih hd.pred
      exact ⟨fun hm he hf => expression_agrees heval hcall hd.pred hm he hf,
        fun hm hf hargs => application_agrees heval hcall hd.pred hm hf hargs⟩

theorem eval_agrees {depth depth' : Nat} (hd : C.Fits depth depth') :
    C.EvalsAgree (eval depth) (eval depth') :=
  (eval_call_agree hd).1

theorem call_agrees {depth depth' : Nat} (hd : C.Fits depth depth') :
    C.CallsAgree (call depth) (call depth') :=
  (eval_call_agree hd).2

section Programs

variable {m m' : Machine} {f f' : FrameId} {depth depth' : Nat}

theorem evalDatum_agrees {d : Datum} (hd : C.Fits depth depth') (hm : C.machines w m m')
    (hf : C.frames w f f') (known : C.data d) :
    C.Agrees w C.values (Program.evalDatum depth f d m) (Program.evalDatum depth' f' d m') := by
  refine (Agrees.load hm known).bind fun u e e' n n' hu hn he => ?_
  exact eval_agrees hd hn he (C.frames_later hu hf)

theorem program_agrees {source : String}
    (known : ∀ data, Datum.parseMany depth source = .ok data → ∀ d ∈ data, C.data d)
    (hm : C.machines w m m') (hf : C.frames w f f') :
    C.Agrees w C.values (Program.run depth f source m) (Program.run depth f' source m') := by
  simp only [Program.run, Action.bind_apply, Action.lift]
  cases hp : Datum.parseMany depth source with
  | error failure => exact .error (C.later_refl w) hm
  | ok data =>
    have hdata : List.Forall₂ (fun d d' => C.data d ∧ d = d') data data :=
      List.forall₂_same.mpr fun d hd => ⟨known data hp d hd, rfl⟩
    refine Agrees.foldlM (P := fun _ d d' => C.data d ∧ d = d') (fun _ h => h) hm hdata (C.unit w) ?_
    rintro u d _ _ _ n n' hu hn ⟨hd, rfl⟩ _
    exact evalDatum_agrees (.refl depth) hn (C.frames_later hu hf) hd

private theorem print_agrees {v v' : Value} (hd : C.Fits depth depth') (hm : C.machines w m m')
    (hv : C.values w v v') :
    C.Agrees w (fun _ _ _ => True) (Program.print depth v m) (Program.print depth' v' m') := by
  have shown : C.Agrees w (fun _ _ _ => True)
      ((do
        let text ← Action.lift (v.display depth)
        Action.emit (.output (text ++ "\n"))) m)
      ((do
        let text ← Action.lift (v'.display depth')
        Action.emit (.output (text ++ "\n"))) m') := by
    refine (Agrees.lift (Q := fun _ => Eq) hm (write_settles .display hv hd)).bind
      fun u text text' n n' _ hn ht => ?_
    subst ht
    exact .emit _ hn
  have alike := C.alike hv
  cases alike with
  | unit => exact .pure hm trivial
  | _ => exact shown

/-- One read and its evaluation. A fault of the program is reported on both sides, so it may not be
excused. -/
theorem step_agrees {echo : Bool} {failures : Nat} {reading : Except Failure Datum}
    (recoverable : ∀ e, ¬ C.excused (.error e)) (hd : C.Fits depth depth')
    (known : ∀ d, reading = .ok d → C.data d) (hm : C.machines w m m') (hf : C.frames w f f') :
    C.Agrees w (fun _ => Eq) (Program.step depth f echo failures reading m)
      (Program.step depth' f' echo failures reading m') := by
  have evaluated : C.Agrees w C.values
      ((do Program.evalDatum depth f (← Action.lift reading)) m)
      ((do Program.evalDatum depth' f' (← Action.lift reading)) m') := by
    cases reading with
    | error failure => exact .error (C.later_refl w) hm
    | ok d => exact evalDatum_agrees hd hm hf (known d rfl)
  refine evaluated.attempt ?_ ?_ ?_
  · intro u v v' n n' _ hn hv
    cases echo with
    | true => exact (print_agrees hd hn hv).bind fun x _ _ o o' _ ho _ => .pure ho rfl
    | false => exact .pure hn rfl
  · intro u failure n n' _ hn
    cases failure with
    | error e => exact (Agrees.report .error _ hn).bind fun x _ _ o o' _ ho _ => .pure ho rfl
    | _ => exact .fail _ hn
  · intro failure n he
    cases failure with
    | error e => exact absurd he (recoverable e)
    | _ => rfl

theorem steps_agree {echo : Bool} {failures : Nat} {readings : List (Except Failure Datum)}
    (recoverable : ∀ e, ¬ C.excused (.error e)) (hd : C.Fits depth depth')
    (known : ∀ d, .ok d ∈ readings → C.data d) (hm : C.machines w m m') (hf : C.frames w f f') :
    C.Agrees w (fun _ => Eq) (readings.foldlM (Program.step depth f echo) failures m)
      (readings.foldlM (Program.step depth' f' echo) failures m') := by
  have hreadings : List.Forall₂ (fun r r' => (∀ d, r = .ok d → C.data d) ∧ r = r')
      readings readings :=
    List.forall₂_same.mpr fun r hr => ⟨fun d hd => known d (hd ▸ hr), rfl⟩
  refine Agrees.foldlM
    (P := fun _ (r r' : Except Failure Datum) => (∀ d, r = .ok d → C.data d) ∧ r = r')
    (fun _ h => h) hm hreadings rfl ?_
  rintro u r _ k _ n n' hu hn ⟨hr, rfl⟩ rfl
  exact step_agrees recoverable hd hr hn (C.frames_later hu hf)

end Programs

end SmallScheme.Correspondence
