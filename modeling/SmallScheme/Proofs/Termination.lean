import SmallScheme.Proofs.BigStep.Completeness
import SmallScheme.Proofs.NativePrimitive
import SmallScheme.Proofs.ReaderOutcome
import SmallScheme.Proofs.Sequencing

/-!
Programs without abstractions end. Where no procedure can be reached, a call never evaluates an
expression: a primitive may call a primitive, and those it calls may call others, but each call works on
items of the lists that the call before was given. So calls end by the nesting of their arguments, and
evaluation ends by the nesting of the expression.
-/

set_option autoImplicit false
set_option relaxedAutoImplicit false

namespace SmallScheme

variable {α β : Type}

/-- With enough depth the action ends, on a machine and with a result such as is said. -/
def Ends (S : Machine → Prop) (P : α → Prop) (x : Nat → Action α) (m : Machine) : Prop :=
  ∃ out n, Concludes x m out n ∧ S n ∧ ∀ a, out = .ok a → P a

namespace Ends

variable {S : Machine → Prop} {P : α → Prop} {Q : β → Prop} {x : Nat → Action α} {m n : Machine}

private theorem of_ok {y : Action α} {a : α} (h : y m = (.ok a, n)) (hn : S n) (ha : P a) :
    Ends S P (fun _ => y) m :=
  ⟨.ok a, n, .of_eq nofun h, hn, by rintro _ ⟨⟩; exact ha⟩

private theorem of_error {y : Action α} {e : Error} (h : y m = (.error (.error e), n)) (hn : S n) :
    Ends S P (fun _ => y) m :=
  ⟨.error (.error e), n, .of_eq nofun h, hn, nofun⟩

private theorem raise (e : Error) (hm : S m) : Ends S P (fun _ => Action.raise e) m :=
  of_error rfl hm

private theorem succ (h : Ends S P (fun depth => x (depth + 1)) m) : Ends S P x m := by
  obtain ⟨out, n, concludes, rest⟩ := h
  exact ⟨out, n, concludes.succ, rest⟩

theorem mono {S' : Machine → Prop} {P' : α → Prop} (h : Ends S P x m) (hS : ∀ n, S n → S' n)
    (hP : ∀ a, P a → P' a) : Ends S' P' x m := by
  obtain ⟨out, n, concludes, hn, result⟩ := h
  exact ⟨out, n, concludes, hS n hn, fun a ha => hP a (result a ha)⟩

private theorem bind {k : Nat → α → Action β} (hx : Ends S P x m)
    (hk : ∀ a n, S n → P a → Ends S Q (fun depth => k depth a) n) :
    Ends S Q (fun depth => x depth >>= k depth) m := by
  obtain ⟨out, n, concludes, hn, result⟩ := hx
  cases out with
  | error failure => exact ⟨.error failure, n, concludes.bind_error, hn, nofun⟩
  | ok a =>
    obtain ⟨out, o, rest, ho, last⟩ := hk a n hn (result a rfl)
    exact ⟨out, o, concludes.bind rest, ho, last⟩

private theorem lift {x : Nat → Except Failure α} (h : Settled P x) (hm : S m) :
    Ends S P (fun depth => Action.lift (x depth)) m := by
  obtain ⟨out, finished, least, computed⟩ := h.eventually
  refine ⟨out, m, ⟨finished, least, fun depth hd => ?_⟩, hm, fun a ha => ?_⟩
  · exact congrArg (·, m) (computed depth hd)
  · exact h.holds least a ((computed least (Nat.le_refl _)).trans ha)

private theorem mapM {f : Nat → α → Action β} {xs : List α} (hm : S m)
    (hf : ∀ a ∈ xs, ∀ n, S n → Ends S Q (fun depth => f depth a) n) :
    Ends S (fun bs => ∀ b ∈ bs, Q b) (fun depth => xs.mapM (f depth)) m := by
  induction xs generalizing m with
  | nil => exact of_ok rfl hm (by simp)
  | cons a xs ih =>
    obtain ⟨first, others⟩ := List.forall_mem_cons.mp hf
    simp only [List.mapM_cons]
    refine (first m hm).bind fun b n hn hb => (ih hn others).bind fun bs o ho hbs => ?_
    exact of_ok rfl ho (List.forall_mem_cons.mpr ⟨hb, hbs⟩)

private theorem foldlM {f : Nat → β → α → Action β} {xs : List α} {b : β} (hm : S m) (hb : Q b)
    (hf : ∀ b, ∀ a ∈ xs, ∀ n, S n → Ends S Q (fun depth => f depth b a) n) :
    Ends S Q (fun depth => xs.foldlM (f depth) b) m := by
  induction xs generalizing b m with
  | nil => exact of_ok rfl hm hb
  | cons a xs ih =>
    simp only [List.foldlM_cons]
    refine (hf b a List.mem_cons_self m hm).bind fun b n hn hb => ?_
    exact ih hn hb fun b a ha => hf b a (List.mem_cons_of_mem _ ha)

end Ends

/-- No procedure occurs in the value. -/
def Value.ProcedureFree (v : Value) : Prop :=
  v.EachProcedure fun _ _ => False

/-- An expression without a procedure and without the keyword of abstractions. -/
structure Value.LambdaFree (e : Value) : Prop where
  procedureFree : e.ProcedureFree
  unmentioned : ¬ (Value.symbol "lambda").Occurs e

namespace Value

theorem lambdaFree_number (n : Number) : (Value.number n).LambdaFree :=
  ⟨.atom rfl nofun, nofun⟩

theorem lambdaFree_symbol {name : String} (h : name ≠ "lambda") : (Value.symbol name).LambdaFree :=
  ⟨.atom rfl nofun, by rintro ⟨⟩; exact h rfl⟩

theorem lambdaFree_list {i : Identity} {items : List Value} :
    (Value.list i items).LambdaFree ↔ ∀ v ∈ items, v.LambdaFree := by
  constructor
  · intro h v hv
    exact ⟨eachProcedure_list.mp h.procedureFree v hv, fun occurs => h.unmentioned (.item hv occurs)⟩
  · intro h
    refine ⟨eachProcedure_list.mpr fun v hv => (h v hv).procedureFree, fun occurs => ?_⟩
    cases occurs with
    | item hv occurs => exact (h _ hv).unmentioned occurs

end Value

/-- No procedure can be reached from the frame: none occurs in what it or a frame around it binds. -/
def Store.ProcedureFreeFrom (s : Store) (f : FrameId) : Prop :=
  ∀ g ∈ s.chain f, ∀ pair ∈ s.bindings g, pair.2.ProcedureFree

section Calls

variable {m : Machine} {k : Nat}

def SameFrames (m n : Machine) : Prop :=
  n.store.frames = m.store.frames

private theorem Delivers.ends {args : List Value} {x : Nat → Action Value} (h : Delivers args x)
    (hargs : ∀ a ∈ args, a.ProcedureFree) (m : Machine) :
    Ends (SameFrames m) Value.ProcedureFree x m := by
  obtain ⟨y, settled, delivers⟩ := h
  rw [funext delivers]
  have computed := Ends.lift (S := SameFrames m) settled rfl
  refine computed.bind fun product n hn from_args => ?_
  have free : ∀ v ∈ product.values, v.ProcedureFree :=
    fun v hv => (from_args v hv).eachProcedure hargs
  cases product with
  | value v => exact .of_ok rfl hn (free v (List.mem_singleton.mpr rfl))
  | list items => exact .of_ok rfl hn (Value.eachProcedure_list.mpr free)

private theorem Value.nesting_lt_of_mem {v : Value} {i : Identity} {items : List Value}
    (h : v ∈ items) :
    v.nesting < (Value.list i items).nesting := by
  rw [Value.nesting, Nat.lt_succ_iff]
  induction items with
  | nil => cases h
  | cons u items ih =>
    rw [Value.nestings]
    rcases List.mem_cons.mp h with rfl | h
    · exact Nat.le_max_left _ _
    · exact Nat.le_trans (ih h) (Nat.le_max_right _ _)

/-- Arguments without procedures whose lists are not nested so deep. -/
structure Shallow (k : Nat) (args : List Value) : Prop where
  positive : 0 < k
  free : ∀ v ∈ args, v.ProcedureFree
  nested : ∀ v ∈ args, v.nesting < k

private theorem Shallow.items {i : Identity} {items args : List Value} (h : Shallow (k + 1) args)
    (hm : Value.list i items ∈ args) : Shallow k items := by
  have nested := Nat.le_of_lt_succ (h.nested _ hm)
  refine ⟨?_, fun v hv => Value.eachProcedure_list.mp (h.free _ hm) v hv, fun v hv => ?_⟩
  · exact Nat.lt_of_lt_of_le (by simp [Value.nesting]) nested
  · exact Nat.lt_of_lt_of_le (Value.nesting_lt_of_mem hv) nested

variable {call : Nat → Value → List Value → Action Value} {p : Primitive} {args : List Value}

def CallsEnd (call : Nat → Value → List Value → Action Value) (k : Nat) : Prop :=
  ∀ (m : Machine) (f : Value) (args : List Value), f.ProcedureFree → Shallow k args →
    Ends (SameFrames m) Value.ProcedureFree (fun depth => call depth f args) m

private theorem mapped_ends (calls : CallsEnd call k) {f : Value} {rows : List Value}
    {callee : String} (h : Shallow (k + 1) (f :: rows)) :
    Ends (SameFrames m) Value.ProcedureFree
      (fun depth => Primitive.mapped depth callee (call depth) f rows) m := by
  have hf := h.free f List.mem_cons_self
  have checked := Ends.lift (S := SameFrames m) (Settled.procedure callee f) rfl
  have items : ∀ row ∈ rows, Settled (Shallow k) fun room => Primitive.items room callee row :=
    fun row hrow => (Settled.items callee row).mono fun table hi => by
      obtain ⟨i, rfl⟩ := hi
      exact h.items (List.mem_cons_of_mem f hrow)
  refine checked.bind fun _ n hn _ => (Ends.lift (.mapM items) hn).bind fun tables n hn htables => ?_
  cases tables with
  | nil => exact .of_ok rfl hn (Value.eachProcedure_list.mpr (by simp))
  | cons first others =>
    simp only
    split
    · have called : Ends (SameFrames m) (fun vs => ∀ v ∈ vs, v.ProcedureFree)
          (fun depth => (Primitive.columns first others).mapM (call depth f)) n := by
        refine .mapM hn fun column hc o ho => ?_
        have inside {v : Value} (hv : v ∈ column) : ∃ table, Shallow k table ∧ v ∈ table := by
          obtain ⟨table, ht, hv⟩ := BigStep.mem_columns hc hv
          exact ⟨table, htables table ht, hv⟩
        have shallow : Shallow k column := by
          refine ⟨(htables first List.mem_cons_self).positive, fun v hv => ?_, fun v hv => ?_⟩
          · obtain ⟨table, ht, hv⟩ := inside hv
            exact ht.free v hv
          · obtain ⟨table, ht, hv⟩ := inside hv
            exact ht.nested v hv
        exact (calls o f column hf shallow).mono (fun _ h => h.trans ho) fun _ => id
      exact called.bind fun vs o ho hvs => .of_ok rfl ho (Value.eachProcedure_list.mpr hvs)
    · exact .raise _ hn

private theorem primitive_ends (calls : CallsEnd call k) (h : Shallow (k + 1) args) :
    Ends (SameFrames m) Value.ProcedureFree (fun depth => p.run depth (call depth) args) m := by
  rcases p.run_cases args call with delivers | ⟨g, a, rfl, run⟩ | ⟨g, rows, rfl, run⟩
  · exact delivers.ends h.free m
  · simp only [run]
    have checked := Ends.lift (S := SameFrames m) (Settled.procedure p.name g) rfl
    refine checked.bind fun _ n hn _ => (Ends.lift (Settled.items p.name a) hn).bind ?_
    rintro items n hn ⟨i, rfl⟩
    have called := calls n g items (h.free g (by simp)) (h.items (i := i) (by simp))
    exact called.mono (fun _ h => h.trans hn) fun _ => id
  · simp only [run]
    exact mapped_ends calls h

private theorem call_ends (calls : CallsEnd SmallScheme.call k) :
    CallsEnd SmallScheme.call (k + 1) := by
  intro m f args hf hargs
  cases f with
  | procedure i params body frame => exact (hf _ _ _ _ (.self _)).elim
  | primitive i p =>
    refine .succ ?_
    simp only [SmallScheme.call, Eval.application]
    split
    · exact primitive_ends calls hargs
    · exact .raise _ rfl
  | _ =>
    refine ⟨_, m, BigStep.refusal_concludes rfl args m, rfl, ?_⟩
    rintro v ⟨⟩

/-- Calls end by the nesting of their arguments. -/
theorem calls_end (k : Nat) : CallsEnd SmallScheme.call k := by
  induction k with
  | zero => exact fun _ _ _ _ hargs => absurd hargs.positive (Nat.lt_irrefl 0)
  | succ k ih => exact call_ends ih

theorem call_ends_of_free {f : Value} {args : List Value} (hf : f.ProcedureFree)
    (hargs : ∀ v ∈ args, v.ProcedureFree) (m : Machine) :
    Ends (SameFrames m) Value.ProcedureFree (fun depth => SmallScheme.call depth f args) m := by
  have shallow : Shallow (Value.nestings args + 1) args :=
    ⟨Nat.succ_pos _, hargs, fun _ hv => Value.nesting_lt_of_mem (i := .made 0) hv⟩
  exact calls_end _ m f args hf shallow

end Calls

namespace Store.ProcedureFreeFrom

variable {s t : Store} {f : FrameId}

private theorem of_frames (h : s.ProcedureFreeFrom f) (same : t.frames = s.frames) :
    t.ProcedureFreeFrom f := by
  have chain : t.chain f = s.chain f := chain_congr (fun g => by simp [outer?, same]) f
  have bindings (g : FrameId) : t.bindings g = s.bindings g := by simp [Store.bindings, same]
  intro g hg pair hp
  rw [chain] at hg
  rw [bindings] at hp
  exact h g hg pair hp

private theorem define (h : s.ProcedureFreeFrom f) {v : Value} (hv : v.ProcedureFree) (g : FrameId)
    (name : String) : (s.define g name v).ProcedureFreeFrom f := by
  intro o ho pair hp
  rw [chain_congr (fun o => s.outer?_define g o name v)] at ho
  rcases mem_bindings_define hp with hp | rfl
  · exact h o ho pair hp
  · exact hv

theorem addFrame {bindings : Bindings} (h : ∀ pair ∈ bindings, pair.2.ProcedureFree) :
    (s.addFrame bindings none).2.ProcedureFreeFrom s.frames.size := by
  have new := frames_addFrame_new s bindings none
  intro g hg pair hp
  rw [chain_of_outermost (by rw [outer?_of_frames new]), List.mem_singleton] at hg
  subst hg
  rw [bindings_of_frames new] at hp
  exact h pair hp

end Store.ProcedureFreeFrom

section Evaluation

variable {f : FrameId} {m : Machine}

/-- Evaluation in the frame ends and reaches no procedure, whether or not it gives a result. -/
def EvalEnds (f : FrameId) (e : Value) : Prop :=
  ∀ m : Machine, m.store.ProcedureFreeFrom f →
    Ends (·.store.ProcedureFreeFrom f) Value.ProcedureFree (fun depth => eval depth e f) m

private theorem report_ends {result : Value} (hm : m.store.ProcedureFreeFrom f)
    (hr : result.ProcedureFree) (v : Value) {k : String → Action Value}
    (hk : ∀ text n, ∃ journal, k text n = (.ok result, { n with journal })) :
    Ends (·.store.ProcedureFreeFrom f) Value.ProcedureFree
      (fun depth => Action.lift (v.literal depth) >>= k) m := by
  have written := Ends.lift (S := fun n => n.store = m.store) (Settled.literal v) rfl
  have reported : Ends (fun n => n.store = m.store) Value.ProcedureFree
      (fun depth => Action.lift (v.literal depth) >>= k) m := by
    refine written.bind fun text n hn _ => ?_
    obtain ⟨journal, ended⟩ := hk text n
    exact .of_ok ended hn hr
  exact reported.mono (fun n hn => by rwa [hn]) fun _ => id

private theorem form_ends {form : Form} (plain : ∀ params body, form ≠ .abstraction params body)
    (free : ∀ part ∈ form.parts, part.ProcedureFree) (parts : ∀ part ∈ form.parts, EvalEnds f part)
    (hm : m.store.ProcedureFreeFrom f) :
    Ends (·.store.ProcedureFreeFrom f) Value.ProcedureFree
      (fun depth => Eval.form depth (eval depth) (call depth) f form) m := by
  have unit : Value.ProcedureFree .unit := .atom rfl nofun
  cases form with
  | quote d => exact .of_ok rfl hm (free d (by simp [Form.parts]))
  | conditional test consequent alternative =>
    refine (parts test (by simp [Form.parts]) m hm).bind fun v n hn _ => ?_
    cases v.isTrue with
    | true => exact parts consequent (by simp [Form.parts]) n hn
    | false => exact parts alternative (by simp [Form.parts]) n hn
  | assignment name e =>
    refine (parts e (by simp [Form.parts]) m hm).bind fun v n hn hv => ?_
    have assigned : Ends (·.store.ProcedureFreeFrom f) (fun _ => True)
        (fun _ => Action.assign f name v) n := by
      cases found : n.store.owner? f name with
      | none =>
        exact .of_error (BigStep.assign_of_none found v) hn
      | some owner =>
        exact .of_ok (BigStep.assign_of_some found v) (hn.define hv owner name) trivial
    exact assigned.bind fun _ o ho _ => report_ends ho unit v fun _ _ => ⟨_, rfl⟩
  | definition name e =>
    refine (parts e (by simp [Form.parts]) m hm).bind fun v n hn hv => ?_
    have defined : Ends (·.store.ProcedureFreeFrom f) (fun _ => True)
        (fun _ => Action.define f name v) n := .of_ok rfl (hn.define hv f name) trivial
    exact defined.bind fun _ o ho _ => report_ends ho unit v fun _ _ => ⟨_, rfl⟩
  | abstraction params body => exact absurd rfl (plain params body)
  | sequence es =>
    exact .foldlM hm unit fun _ e he n hn => parts e he n hn
  | application operator operands =>
    refine (parts operator List.mem_cons_self m hm).bind fun g n hn hg => ?_
    have each := Ends.mapM hn fun e he n hn => parts e (List.mem_cons_of_mem operator he) n hn
    refine each.bind fun args o ho hargs => ?_
    exact (call_ends_of_free hg hargs o).mono (fun _ same => ho.of_frames same) fun _ => id
  | misshapen form => exact .raise _ hm
  | unnamed form got => exact .lift (.complain _ got) hm
  | unparametrised => exact .raise _ hm

/-- Evaluation without abstractions ends by the nesting of the expression. -/
theorem eval_ends_of_lambdaFree {e : Value} (h : e.LambdaFree) : EvalEnds f e := by
  -- By the nesting of the expression: without abstractions no call evaluates anything.
  induction hk : e.nesting using Nat.strongRecOn generalizing e with
  | _ k ih =>
    intro m hm
    refine .succ ?_
    cases e with
    | symbol name =>
      cases found : m.store.lookup? f name with
      | none =>
        exact .of_error (BigStep.lookup_of_none found) hm
      | some v =>
        obtain ⟨owner, chained, bound⟩ := Store.mem_of_lookup? found
        exact .of_ok (BigStep.lookup_of_some found) hm (hm owner chained _ bound)
    | list i items =>
      cases items with
      | nil => exact .raise _ hm
      | cons head rest =>
        have inside {part : Value} (hp : part ∈ head :: rest) :
            part.ProcedureFree ∧ EvalEnds f part := by
          have plain := Value.lambdaFree_list.mp h part hp
          exact ⟨plain.procedureFree, ih _ (hk ▸ Value.nesting_lt_of_mem hp) plain rfl⟩
        show Ends _ _ (fun depth => Eval.form depth (eval depth) (call depth) f (Form.ofList head rest)) m
        rcases Form.ofList_cases head rest with ⟨special, rfl, same⟩ | ⟨-, same⟩
        · rw [same]
          have later {part : Value} (hp : part ∈ (Form.special special rest).parts) :=
            inside (List.mem_cons_of_mem _ (Form.mem_of_mem_special special hp))
          refine form_ends (fun params body abstracts => ?_) (fun _ hp => (later hp).1)
            (fun _ hp => (later hp).2) hm
          obtain rfl := Form.eq_of_special_eq_abstraction abstracts
          exact h.unmentioned (.item List.mem_cons_self (.self _))
        · rw [same]
          exact form_ends nofun (fun _ hp => (inside hp).1) (fun _ hp => (inside hp).2) hm
    | procedure i params body frame => exact (h.procedureFree _ _ _ _ (.self _)).elim
    | _ => exact .of_ok rfl hm (.atom rfl nofun)

end Evaluation

namespace Datum

mutual

private theorem mem_of_symbol_occurs {tokens : List Token} {d : Datum} (h : Spells tokens d)
    (name : String) :
    ∀ next, (Value.symbol name).Occurs (Value.ofDatum next d).1 → .word name ∈ tokens := by
  intro next occurs
  match h with
  | .atom word =>
    rcases ofWord_cases word with ⟨n, rfl⟩ | rfl
    · cases occurs
    · cases occurs
      exact List.mem_singleton.mpr rfl
  | .list each =>
    have inside := mem_of_symbol_occursEach each name
    cases occurs with
    | item hv occurs =>
      obtain ⟨part, hd, n, rfl⟩ := Value.mem_ofData hv
      exact List.mem_cons_of_mem _ (List.mem_append_left _ (inside part hd n occurs))

private theorem mem_of_symbol_occursEach {tokens : List Token} {data : List Datum}
    (h : SpellsEach tokens data)
    (name : String) : ∀ d ∈ data, ∀ next, (Value.symbol name).Occurs (Value.ofDatum next d).1 →
      .word name ∈ tokens := by
  match h with
  | .nil => exact fun _ hd => nomatch hd
  | .cons first others =>
    refine List.forall_mem_cons.mpr ⟨fun next occurs => ?_, fun d hd next occurs => ?_⟩
    · exact List.mem_append_left _ (mem_of_symbol_occurs first name next occurs)
    · exact List.mem_append_right _ (mem_of_symbol_occursEach others name d hd next occurs)

end

private theorem mem_of_mapM_id {outcomes : List (Except Failure Datum)} {failure : Failure}
    (h : outcomes.mapM id = .error failure) : .error failure ∈ outcomes := by
  induction outcomes with
  | nil => cases h
  | cons outcome outcomes ih =>
    cases outcome with
    | error other =>
      cases h
      exact List.mem_cons_self
    | ok d =>
      refine List.mem_cons_of_mem _ (ih ?_)
      cases rest : outcomes.mapM id with
      | error other =>
        rw [List.mapM_cons, rest] at h
        exact h
      | ok data =>
        rw [List.mapM_cons, rest] at h
        cases h

private theorem parseMany_settled (source : String) :
    Settled (fun data => SpellsEach (Token.tokenize source) data)
      fun depth => parseMany depth source where
  eventually := by
    let tokens := Token.tokenize source
    refine ⟨parseMany tokens.length source, fun exhausted => ?_, tokens.length, fun depth fits => ?_⟩
    · exact (readings_of_length_le (Nat.le_refl _)).2 (mem_of_mapM_id exhausted)
    · exact congrArg (·.mapM id) (readings_of_length_le fits).1
  holds depth data read := (spellsEach_of_readings read).1
end Datum

theorem run_ends {source : String} (plain : .word "lambda" ∉ Token.tokenize source) {f : FrameId}
    {m : Machine} (hm : m.store.ProcedureFreeFrom f) :
    Ends (·.store.ProcedureFreeFrom f) Value.ProcedureFree
      (fun depth => Program.run depth f source) m := by
  refine (Ends.lift (Datum.parseMany_settled source) hm).bind fun data n hn each => ?_
  refine .foldlM hn (.atom rfl nofun) fun _ d hd o ho => ?_
  let e := (Value.ofDatum o.store.written d).1
  have free : e.LambdaFree := ⟨Value.eachProcedure_ofDatum _ d,
    fun occurs => plain (Datum.mem_of_symbol_occursEach each _ d hd _ occurs)⟩
  have loaded : Ends (·.store.ProcedureFreeFrom f) (· = e) (fun _ => Action.load d) o :=
    .of_ok rfl (ho.of_frames rfl) rfl
  refine loaded.bind fun v o ho hv => ?_
  subst hv
  exact eval_ends_of_lambdaFree free o ho

/-- Programs without abstractions end. Where no procedure can be reached, an expression without
abstractions is evaluated to a value or an error with enough depth, and no procedure can be reached
afterwards; so is a text without the keyword of abstractions. A call of a primitive, with any arguments
without procedures, ends on any machine and leaves its frames as they are, however primitives call each
other through lists of primitives. In a new global frame no procedure can be reached. -/
theorem lambdaFree_ends :
    (∀ (e : Value) (f : FrameId) (m : Machine), e.LambdaFree → m.store.ProcedureFreeFrom f →
      ∃ out n, Concludes (fun depth => eval depth e f) m out n ∧ n.store.ProcedureFreeFrom f ∧
        ∀ v, out = .ok v → v.ProcedureFree) ∧
      (∀ (source : String) (f : FrameId) (m : Machine), .word "lambda" ∉ Token.tokenize source →
        m.store.ProcedureFreeFrom f →
        ∃ out n, Concludes (fun depth => Program.run depth f source) m out n ∧
          n.store.ProcedureFreeFrom f ∧ ∀ v, out = .ok v → v.ProcedureFree) ∧
      (∀ (g : Value) (args : List Value) (m : Machine), g.ProcedureFree →
        (∀ v ∈ args, v.ProcedureFree) →
        ∃ out n, Concludes (fun depth => call depth g args) m out n ∧
          n.store.frames = m.store.frames ∧ ∀ v, out = .ok v → v.ProcedureFree) ∧
      ∀ m : Machine, ∃ f n, Action.newGlobals m = (.ok f, n) ∧ n.store.ProcedureFreeFrom f := by
  refine ⟨fun e f m he hm => eval_ends_of_lambdaFree he m hm,
    fun source f m plain hm => run_ends plain hm,
    fun g args m hg hargs => call_ends_of_free hg hargs m, fun m => ⟨_, _, rfl, ?_⟩⟩
  exact Store.ProcedureFreeFrom.addFrame
    (s := { m.store with made := m.store.made + Primitive.standard.length })
    (Value.eachProcedure_globals m.store.made)

/-- A text in which primitives call primitives: apply is applied to apply, which then applies map. -/
theorem lambdaFree_ends_apply_map :
    let m := (Action.newGlobals (Machine.start 30)).2
    let source := "(apply apply (list map (list list (quote (1 2)))))"
    let numbers := Datum.list [.number (.int 1), .number (.int 2)]
    let d := Datum.list [.symbol "apply", .symbol "apply", .list [.symbol "list", .symbol "map",
      .list [.symbol "list", .symbol "list", .list [.symbol "quote", numbers]]]]
    let e := (Value.ofDatum 0 d).1
    let primitive (p : Primitive) : Value := .primitive (.made 0) p
    let list (items : List Value) : Value := .list (.made 0) items
    let map := primitive ⟨"map", .map, .atLeast 2⟩
    let args := [map, list [map, list [primitive ⟨"list", .list, .atLeast 0⟩, list []]]]
    .word "lambda" ∉ Token.tokenize source ∧ e.LambdaFree ∧ m.store.ProcedureFreeFrom 0 ∧
      (∀ v ∈ args, v.ProcedureFree) ∧
      (∃ out n, Concludes (fun depth => Program.run depth 0 source) m out n ∧
        out.toOption.bind (fun v => (v.display 20).toOption) = some "((1) (2))") ∧
      (∃ out n, Concludes (fun depth => eval depth e 0) m out n) ∧
      ∃ out n, Concludes (fun depth => call depth (primitive ⟨"apply", .apply, .exactly 2⟩) args) m
        out n := by
  intro m source numbers d e primitive list map args
  have unmentioned : .word "lambda" ∉ Token.tokenize source := by decide +kernel
  obtain ⟨evals, runs, calls, fresh⟩ := lambdaFree_ends
  have free : m.store.ProcedureFreeFrom 0 := by
    obtain ⟨f, n, made, free⟩ := fresh (Machine.start 30)
    cases made
    exact free
  have plain : e.LambdaFree := by
    simp [e, d, numbers, Value.ofDatum, Value.ofData, Value.lambdaFree_list, Value.lambdaFree_number,
      Value.lambdaFree_symbol]
  have atom (p : Primitive) : (primitive p).ProcedureFree := .atom rfl nofun
  have given : ∀ v ∈ args, v.ProcedureFree := by
    simp only [args, list, map, Value.ProcedureFree, List.forall_mem_cons, Value.eachProcedure_list]
    exact ⟨atom _, ⟨atom _, ⟨atom _, by simp, by simp⟩, by simp⟩, by simp⟩
  refine ⟨unmentioned, plain, free, given, ?_, ?_, ?_⟩
  · obtain ⟨out, n, concludes, -⟩ := runs source 0 m unmentioned free
    have shown : (Program.run 20 0 source m).1.toOption.bind
        (fun v => (v.display 20).toOption) = some "((1) (2))" := by decide +kernel
    refine ⟨out, n, concludes, ?_⟩
    obtain ⟨-, least, ended⟩ := concludes
    rcases Program.run_eq_of_le (Nat.le_max_left 20 least) 0 source m with exhausted | same
    · rw [exhausted] at shown
      cases shown
    · rwa [same, ended _ (Nat.le_max_right _ _)] at shown
  · obtain ⟨out, n, concludes, -⟩ := evals e 0 m plain free
    exact ⟨out, n, concludes⟩
  · obtain ⟨out, n, concludes, -⟩ := calls _ args m (atom _) given
    exact ⟨out, n, concludes⟩

end SmallScheme
