import SmallScheme.Proofs.BigStep.Completeness

/-!
The evaluator and the rules of evaluation. What the evaluator gives without running out of depth is
derived by the rules, by induction on the depth; with the other direction, the two agree. So the rules
derive at most one outcome, and no outcome depends on the depth allowed.
-/

set_option autoImplicit false
set_option relaxedAutoImplicit false

namespace SmallScheme.BigStep

/-- An action that goes on from another either fails with it or goes on from its result. -/
theorem bind_cases {α β : Type} {x : Action α} {g : α → Action β} {m m' : Machine}
    {out : Except Failure β} (h : (x >>= g) m = (out, m')) :
    (∃ failure, x m = (.error failure, m') ∧ out = .error failure) ∨
      ∃ a n, x m = (.ok a, n) ∧ g a n = (out, m') := by
  rw [Action.bind_apply] at h
  rcases hx : x m with ⟨_ | a, n⟩
  · rw [hx] at h
    cases h
    exact .inl ⟨_, rfl, rfl⟩
  · rw [hx] at h
    exact .inr ⟨a, n, rfl, h⟩

/-- The evaluator of the given depth gives what the rules derive, if it does not run out. -/
def EvalSound (depth : Nat) : Prop :=
  ∀ {m m' : Machine} {f : FrameId} {e : Value} {out : Except Failure Value},
    m.store.WellFormed → e.Within m.store.frames.size → f < m.store.frames.size →
    eval depth e f m = (out, m') → out ≠ .error .depthExhausted → Evaluates m f e out m'

def CallSound (depth : Nat) : Prop :=
  ∀ {m m' : Machine} {g : Value} {args : List Value} {out : Except Failure Value},
    m.store.WellFormed → g.Within m.store.frames.size → EachWithin m.store.frames.size args →
    call depth g args m = (out, m') → out ≠ .error .depthExhausted → Calls m g args out m'

section Texts

variable {depth : Nat} {m m' : Machine} {v : Value}

private theorem complain_of_finished {α : Type} {e : String → Error} {out : Except Failure α}
    (h : Action.lift (Primitive.complain depth e v) m = (out, m'))
    (finished : out ≠ .error .depthExhausted) : out = .error (complaint e v) ∧ m' = m := by
  obtain ⟨rfl, rfl⟩ := Prod.mk.inj h
  refine ⟨?_, rfl⟩
  by_cases hw : v.literal depth = .error .depthExhausted
  · exact absurd (by simp only [Primitive.complain, hw]; rfl) finished
  · have written : v.literal depth = v.spelling .literal := Value.write_eq_spelling_of_finished hw
    simp only [Primitive.complain, written, complaint]
    cases v.spelling .literal <;> rfl

/-- What comes after a complaint is not carried out. -/
theorem complain_bind_of_finished {α β : Type} {e : String → Error} {k : α → Action β}
    {out : Except Failure β}
    (h : (Action.lift (Primitive.complain depth e v) >>= k) m = (out, m'))
    (finished : out ≠ .error .depthExhausted) : out = .error (complaint e v) ∧ m' = m := by
  rcases bind_cases h with ⟨failure, hx, rfl⟩ | ⟨a, n, hx, -⟩
  · obtain ⟨equal, same⟩ := complain_of_finished hx (by simpa using finished)
    exact ⟨congrArg Except.error (Except.error.inj equal), same⟩
  · exact absurd (complain_of_finished hx (by simp)).1 (by simp)

private theorem notes_of_finished {result : Value} {message : String → String}
    {out : Except Failure Value} {k : String → Action Value}
    (h : (Action.lift (v.literal depth) >>= k) m = (out, m'))
    (finished : out ≠ .error .depthExhausted)
    (hk : ∀ text, k text m =
      (.ok result, { m with journal := m.journal.add ⟨.debug, message text⟩ })) :
    Notes v message result m out m' := by
  have written (hw : v.literal depth ≠ .error .depthExhausted) :
      v.literal depth = v.spelling .literal := Value.write_eq_spelling_of_finished hw
  rcases bind_cases h with ⟨failure, hx, rfl⟩ | ⟨text, n, hx, hg⟩
  · obtain ⟨hl, rfl⟩ := Prod.mk.inj hx
    exact .unwritten ((written (by rw [hl]; exact fun he => finished (by cases he; rfl))).symm.trans hl)
  · obtain ⟨hl, rfl⟩ := Prod.mk.inj hx
    rw [hk text] at hg
    obtain ⟨rfl, rfl⟩ := Prod.mk.inj hg
    exact .written ((written (by rw [hl]; simp)).symm.trans hl)

end Texts

section Rows

variable {depth : Nat} {m m' : Machine} {f : FrameId}

private theorem evalEach_sound (sound : EvalSound depth) {es : List Value}
    {out : Except Failure (List Value)} (hs : m.store.WellFormed)
    (hes : EachWithin m.store.frames.size es) (hf : f < m.store.frames.size)
    (h : es.mapM (eval depth · f) m = (out, m')) (finished : out ≠ .error .depthExhausted) :
    EvaluatesEach m f es out m' := by
  induction es generalizing m out with
  | nil =>
    cases h
    exact .nil
  | cons e es ih =>
    have he := hes e List.mem_cons_self
    rw [List.mapM_cons] at h
    rcases bind_cases h with ⟨failure, hx, rfl⟩ | ⟨v, n, hx, h⟩
    · exact .fails (sound hs he hf hx (by simpa using finished))
    have first := sound hs he hf hx (by simp)
    have kept := eval_kept hx hs he hf
    have rest (outs : Except Failure (List Value)) := @ih n outs kept.wellFormed
      (fun e' he' => (hes e' (List.mem_cons_of_mem _ he')).mono kept.grows.size)
      (Nat.lt_of_lt_of_le hf kept.grows.size)
    rcases bind_cases h with ⟨failure, hx, rfl⟩ | ⟨vs, o, hx, h⟩
    · exact .failsLater first (rest _ hx (by simpa using finished))
    · cases h
      exact .cons first (rest _ hx (by simp))

private theorem evalLast_sound (sound : EvalSound depth) {last : Value} {es : List Value}
    {out : Except Failure Value} (hs : m.store.WellFormed)
    (hes : EachWithin m.store.frames.size es) (hf : f < m.store.frames.size)
    (h : es.foldlM (fun _ e => eval depth e f) last m = (out, m'))
    (finished : out ≠ .error .depthExhausted) : EvaluatesLast m f last es out m' := by
  induction es generalizing m last with
  | nil =>
    cases h
    exact .nil
  | cons e es ih =>
    have he := hes e List.mem_cons_self
    rw [List.foldlM_cons] at h
    rcases bind_cases h with ⟨failure, hx, rfl⟩ | ⟨v, n, hx, h⟩
    · exact .fails (sound hs he hf hx finished)
    have first := sound hs he hf hx (by simp)
    have kept := eval_kept hx hs he hf
    exact .cons first (ih kept.wellFormed
      (fun e' he' => (hes e' (List.mem_cons_of_mem _ he')).mono kept.grows.size)
      (Nat.lt_of_lt_of_le hf kept.grows.size) h)

private theorem callEach_sound (sound : CallSound depth) {g : Value} {rows : List (List Value)}
    {out : Except Failure (List Value)} (hs : m.store.WellFormed)
    (hg : g.Within m.store.frames.size)
    (hargs : ∀ args ∈ rows, EachWithin m.store.frames.size args)
    (h : rows.mapM (call depth g) m = (out, m')) (finished : out ≠ .error .depthExhausted) :
    CallsEach m g rows out m' := by
  induction rows generalizing m out with
  | nil =>
    cases h
    exact .nil
  | cons args rows ih =>
    have ha := hargs args List.mem_cons_self
    rw [List.mapM_cons] at h
    rcases bind_cases h with ⟨failure, hx, rfl⟩ | ⟨v, n, hx, h⟩
    · exact .fails (sound hs hg ha hx (by simpa using finished))
    have first := sound hs hg ha hx (by simp)
    have kept := call_kept hx hs hg ha
    have rest (outs : Except Failure (List Value)) := @ih n outs kept.wellFormed
      (hg.mono kept.grows.size) fun args' ha' v hv =>
        (hargs args' (List.mem_cons_of_mem _ ha') v hv).mono kept.grows.size
    rcases bind_cases h with ⟨failure, hx, rfl⟩ | ⟨vs, o, hx, h⟩
    · exact .failsLater first (rest _ hx (by simpa using finished))
    · cases h
      exact .cons first (rest _ hx (by simp))

end Rows

section Forms

variable {depth : Nat} {m m' : Machine} {f : FrameId} {out : Except Failure Value}

private theorem symbol_or_not (v : Value) : (∃ name, v = .symbol name) ∨ v.isSymbol = false := by
  cases v with
  | symbol name => exact .inl ⟨name, rfl⟩
  | _ => exact .inr rfl

private theorem assignment_sound (sound : EvalSound depth) {i : Identity} {name : String}
    {e : Value}
    (hs : m.store.WellFormed) (he : e.Within m.store.frames.size) (hf : f < m.store.frames.size)
    (h : Eval.form depth (eval depth) (call depth) f (.assignment name e) m = (out, m'))
    (finished : out ≠ .error .depthExhausted) :
    Evaluates m f (.list i [keyword .assignment, .symbol name, e]) out m' := by
  rcases bind_cases h with ⟨failure, hx, rfl⟩ | ⟨v, n, hx, h⟩
  · exact .valueFails (.inl rfl) (sound hs he hf hx finished)
  have value := sound hs he hf hx (by simp)
  have kept := eval_kept hx hs he hf
  have older := kept.wellFormed.older
  have hf := Nat.lt_of_lt_of_le hf kept.grows.size
  rw [Action.bind_apply] at h
  rcases Store.resolves_or_unresolved older hf name with ⟨owner, old, found⟩ | missing
  · rw [assign_of_resolves older found] at h
    exact .assignment value found (notes_of_finished h finished fun _ => rfl)
  · rw [assign_of_unresolved older missing] at h
    cases h
    exact .assignmentUnbound value missing

private theorem definition_sound (sound : EvalSound depth) {i : Identity} {name : String}
    {e : Value}
    (hs : m.store.WellFormed) (he : e.Within m.store.frames.size) (hf : f < m.store.frames.size)
    (h : Eval.form depth (eval depth) (call depth) f (.definition name e) m = (out, m'))
    (finished : out ≠ .error .depthExhausted) :
    Evaluates m f (.list i [keyword .definition, .symbol name, e]) out m' := by
  rcases bind_cases h with ⟨failure, hx, rfl⟩ | ⟨v, n, hx, h⟩
  · exact .valueFails (.inr rfl) (sound hs he hf hx finished)
  have value := sound hs he hf hx (by simp)
  have kept := eval_kept hx hs he hf
  have defined : (n.store.define f name v).WellFormed := kept.wellFormed.define (kept.result v rfl)
  have exists_frame : f < (n.store.define f name v).frames.size := by
    rw [Store.size_define]
    exact Nat.lt_of_lt_of_le hf kept.grows.size
  have walk := Store.walk_chain defined.older exists_frame
  exact .definition value walk (notes_of_finished h finished fun _ => rfl)

private theorem special_sound (sound : EvalSound depth) (form : SpecialForm) {i : Identity}
    {rest : List Value} (hs : m.store.WellFormed) (hrest : EachWithin m.store.frames.size rest)
    (hf : f < m.store.frames.size)
    (h : Eval.form depth (eval depth) (call depth) f (Form.special form rest) m = (out, m'))
    (finished : out ≠ .error .depthExhausted) :
    Evaluates m f (.list i (keyword form :: rest)) out m' := by
  by_cases shape : ∃ n, parts form = some n ∧ rest.length ≠ n
  · obtain ⟨n, hparts, hl⟩ := shape
    rw [special_misshapen hparts hl] at h
    cases h
    exact .misshapen hparts hl
  cases form with
  | quote =>
    obtain ⟨d, rfl⟩ : ∃ d, rest = [d] := by simpa [parts, List.length_eq_one_iff] using shape
    cases h
    exact .quote
  | conditional =>
    obtain ⟨t, a, b, rfl⟩ : ∃ t a b, rest = [t, a, b] := by
      simpa [parts, List.length_eq_three] using shape
    have ht := hrest t (by simp)
    rcases bind_cases h with ⟨failure, hx, rfl⟩ | ⟨v, n, hx, h⟩
    · exact .testFails (sound hs ht hf hx finished)
    have kept := eval_kept hx hs ht hf
    have hf := Nat.lt_of_lt_of_le hf kept.grows.size
    refine .conditional (sound hs ht ‹_› hx (by simp)) ?_
    cases hv : v.isTrue with
    | true =>
      simp only [hv, if_true] at h ⊢
      exact sound kept.wellFormed ((hrest a (by simp)).mono kept.grows.size) hf h finished
    | false =>
      simp only [hv, Bool.false_eq_true, if_false] at h ⊢
      exact sound kept.wellFormed ((hrest b (by simp)).mono kept.grows.size) hf h finished
  | assignment =>
    obtain ⟨a, e, rfl⟩ : ∃ a e, rest = [a, e] := by simpa [parts, List.length_eq_two] using shape
    rcases symbol_or_not a with ⟨name, rfl⟩ | ha
    · exact assignment_sound sound hs (hrest e (by simp)) hf h finished
    · rw [special_unnamed (.inl rfl) ha] at h
      obtain ⟨rfl, rfl⟩ := complain_of_finished h finished
      exact .unnamed (.inl rfl) ha
  | definition =>
    obtain ⟨a, e, rfl⟩ : ∃ a e, rest = [a, e] := by simpa [parts, List.length_eq_two] using shape
    rcases symbol_or_not a with ⟨name, rfl⟩ | ha
    · exact definition_sound sound hs (hrest e (by simp)) hf h finished
    · rw [special_unnamed (.inr rfl) ha] at h
      obtain ⟨rfl, rfl⟩ := complain_of_finished h finished
      exact .unnamed (.inr rfl) ha
  | abstraction =>
    obtain ⟨params, body, rfl⟩ : ∃ params body, rest = [params, body] := by
      simpa [parts, List.length_eq_two] using shape
    by_cases named : ∃ j names, params = .list j (List.map Value.symbol names)
    · obtain ⟨j, names, rfl⟩ := named
      rw [special_abstraction] at h
      have walk := Store.walk_chain (s := m.store.make.2) hs.older hf
      exact .abstraction walk (notes_of_finished h finished fun _ => rfl)
    · have unnamed : ∀ j names, params ≠ .list j (List.map Value.symbol names) :=
        fun j names equal => named ⟨j, names, equal⟩
      rw [special_unparametrised unnamed] at h
      cases h
      exact .unparametrised unnamed
  | sequence => exact .sequence (evalLast_sound sound hs hrest hf h finished)

private theorem application_sound (sound : EvalSound depth) (calls : CallSound depth) {i : Identity}
    {head : Value} {rest : List Value} (hhead : ∀ form, head ≠ keyword form)
    (hs : m.store.WellFormed) (hh : head.Within m.store.frames.size)
    (hrest : EachWithin m.store.frames.size rest) (hf : f < m.store.frames.size)
    (h : Eval.form depth (eval depth) (call depth) f (.application head rest) m = (out, m'))
    (finished : out ≠ .error .depthExhausted) :
    Evaluates m f (.list i (head :: rest)) out m' := by
  rcases bind_cases h with ⟨failure, hx, rfl⟩ | ⟨v, n, hx, h⟩
  · exact .operatorFails hhead (sound hs hh hf hx finished)
  have operator := sound hs hh hf hx (by simp)
  have kept := eval_kept hx hs hh hf
  have hrest : EachWithin n.store.frames.size rest := fun e he => (hrest e he).mono kept.grows.size
  have hf := Nat.lt_of_lt_of_le hf kept.grows.size
  rcases bind_cases h with ⟨failure, hy, rfl⟩ | ⟨args, o, hy, h⟩
  · exact .operandFails hhead operator
      (evalEach_sound sound kept.wellFormed hrest hf hy (by simpa using finished))
  have operands := evalEach_sound sound kept.wellFormed hrest hf hy (by simp)
  have kept' := evalEach_kept hy kept.wellFormed hrest hf
  exact .application hhead operator operands (calls kept'.wellFormed
    ((kept.result v rfl).mono kept'.grows.size) (kept'.result args rfl) h finished)

private theorem expression_sound (sound : EvalSound depth) (calls : CallSound depth) :
    EvalSound (depth + 1) := by
  intro m m' f e out hs he hf h finished
  cases e with
  | symbol name =>
    rcases Store.resolves_or_unresolved hs.older hf name with ⟨owner, v, found⟩ | missing
    · cases (lookup_of_resolves hs.older found).symm.trans h
      exact .bound found
    · cases (lookup_of_unresolved hs.older missing).symm.trans h
      exact .unbound missing
  | list i items =>
    cases items with
    | nil =>
      cases h
      exact .nothing
    | cons head rest =>
      have within := Value.within_list.mp he
      have hrest : EachWithin m.store.frames.size rest :=
        fun e he => within e (List.mem_cons_of_mem _ he)
      have h : Eval.form depth (eval depth) (call depth) f (Form.ofList head rest) m = (out, m') := h
      by_cases special : ∃ form, head = keyword form
      · obtain ⟨form, rfl⟩ := special
        rw [ofList_keyword] at h
        exact special_sound sound form hs hrest hf h finished
      · have hhead : ∀ form, head ≠ keyword form := fun form equal => special ⟨form, equal⟩
        rw [ofList_application hhead] at h
        exact application_sound sound calls hhead hs (within head List.mem_cons_self) hrest hf h
          finished
  | _ =>
    cases h
    exact .itself rfl rfl

end Forms

section Calls

variable {depth : Nat} {m m' : Machine} {out : Except Failure Value} {i : Identity} {p : Primitive}
  {g : Value}

private theorem procedure_cases {k : Unit → Action Value}
    (h : (Action.lift (Primitive.procedure depth p.name g) >>= k) m = (out, m'))
    (finished : out ≠ .error .depthExhausted) :
    (g.isProcedure = true ∧ k () m = (out, m')) ∨
      (g.isProcedure = false ∧ out = .error (complaint (.notProcedure p.name) g) ∧ m' = m) := by
  cases hp : g.isProcedure with
  | true =>
    rw [procedure_eq_ok depth p.name hp] at h
    exact .inl ⟨rfl, h⟩
  | false =>
    rw [procedure_eq_complain depth p.name hp] at h
    exact .inr ⟨rfl, complain_bind_of_finished h finished⟩

private theorem apply_sound (calls : CallSound depth) {a : Value} (ha : p.operation = .apply)
    (accepts : p.arity.accepts 2 = true) (hs : m.store.WellFormed)
    (hargs : EachWithin m.store.frames.size [g, a])
    (h : p.run depth (call depth) [g, a] m = (out, m')) (finished : out ≠ .error .depthExhausted) :
    Calls m (.primitive i p) [g, a] out m' := by
  rw [run_apply ha] at h
  rcases procedure_cases h finished with ⟨hp, h⟩ | ⟨hp, rfl, rfl⟩
  · by_cases hl : a.isList = false
    · rw [items_eq_complain depth p.name hl] at h
      obtain ⟨rfl, rfl⟩ := complain_bind_of_finished h finished
      exact .applyUnlisted accepts ha hp hl
    · cases a with
      | list j items =>
        exact .apply accepts ha hp (calls hs (hargs g (by simp))
          (Value.within_list.mp (hargs (.list j items) (by simp))) h finished)
      | _ => exact absurd rfl hl
  · exact .applyRefused accepts ha hp

private theorem map_sound (calls : CallSound depth) {rows : List Value} (hm : p.operation = .map)
    (accepts : p.arity.accepts (rows.length + 1) = true) (hr : rows ≠ [])
    (hs : m.store.WellFormed) (hargs : EachWithin m.store.frames.size (g :: rows))
    (h : p.run depth (call depth) (g :: rows) m = (out, m'))
    (finished : out ≠ .error .depthExhausted) : Calls m (.primitive i p) (g :: rows) out m' := by
  rw [run_map hm hr] at h
  rcases procedure_cases h finished with ⟨hp, h⟩ | ⟨hp, rfl, rfl⟩
  · rcases rows_or_unlisted rows with ⟨tables, hrows⟩ | ⟨before, row, after, tables, rfl, hrows, hrow⟩
    · cases tables with
      | nil =>
        cases hrows
        exact absurd rfl hr
      | cons first others =>
        rw [mapM_items_of_rows depth p.name hrows, Action.bind_apply] at h
        have hg := hargs g List.mem_cons_self
        have hcolumns := columns_within hargs hrows
        simp only [Action.lift, columns_eq] at h
        split at h
        · rename_i even
          have even : ∀ row ∈ others, row.length = first.length := by simpa using even
          rcases bind_cases h with ⟨failure, hx, rfl⟩ | ⟨vs, n, hx, h⟩
          · exact .mapFails accepts hm hp hrows even
              (callEach_sound calls hs hg hcolumns hx (by simpa using finished))
          · cases h
            exact .map accepts hm hp hrows even (callEach_sound calls hs hg hcolumns hx (by simp))
        · rename_i uneven
          cases h
          exact .mapUneven accepts hm hp hrows (by simpa using uneven)
    · rw [mapM_items_of_unlisted depth p.name hrows hrow] at h
      obtain ⟨rfl, rfl⟩ := complain_bind_of_finished h finished
      exact .mapUnlisted accepts hm hp hrows hrow
  · exact .mapRefused accepts hm hr hp

private theorem primitive_sound (calls : CallSound depth) {args : List Value}
    (accepts : p.arity.accepts args.length = true) (hs : m.store.WellFormed)
    (hargs : EachWithin m.store.frames.size args)
    (h : p.run depth (call depth) args m = (out, m')) (finished : out ≠ .error .depthExhausted) :
    Calls m (.primitive i p) args out m' := by
  by_cases misapplied : (p.operation = .apply ∧ args.length ≠ 2) ∨
      (p.operation = .map ∧ args.length < 2)
  · rw [run_misapplied misapplied] at h
    cases h
    exact .misapplied accepts misapplied
  by_cases ha : p.operation = .apply
  · obtain ⟨g, a, rfl⟩ : ∃ g a, args = [g, a] := by
      simpa [ha, List.length_eq_two] using misapplied
    exact apply_sound calls ha accepts hs hargs h finished
  by_cases hm : p.operation = .map
  · obtain ⟨g, row, rows, rfl⟩ : ∃ g row rows, args = g :: row :: rows := by
      rcases args with _ | ⟨g, _ | ⟨row, rows⟩⟩
      · simp [hm] at misapplied
      · simp [hm] at misapplied
      · exact ⟨g, row, rows, rfl⟩
    exact map_sound calls hm accepts (List.cons_ne_nil row rows) hs hargs h finished
  · rw [run_of_native ha hm] at h
    exact .primitive accepts ha hm ⟨finished, depth, h⟩

private theorem refusal_of_finished {args : List Value} (hp : g.isProcedure = false)
    (h : call (depth + 1) g args m = (out, m')) (finished : out ≠ .error .depthExhausted) :
    out = .error (refusal g) ∧ m' = m := by
  obtain ⟨-, least, refused⟩ := refusal_concludes hp args m
  have deeper := call_eq_of_le (Nat.le_max_left (depth + 1) least) (by rw [h]; exact finished)
  rw [h, refused _ (Nat.le_max_right _ _)] at deeper
  exact Prod.mk.inj deeper

private theorem call_sound (sound : EvalSound depth) (calls : CallSound depth) :
    CallSound (depth + 1) := by
  intro m m' g args out hs hg hargs h finished
  by_cases hp : g.isProcedure = false
  · obtain ⟨rfl, rfl⟩ := refusal_of_finished hp h finished
    exact .refused hp
  cases g with
  | procedure i params body frame =>
    by_cases hl : params.length = args.length
    · obtain ⟨wellFormed, hbody, hnew⟩ := wellFormed_enter hs hg hargs
      have h : (Action.enter params args (some frame) >>= eval depth body) m = (out, m') := h
      rw [Action.bind_apply, enter_of_length_eq m frame hl] at h
      exact .procedure hl (sound wellFormed hbody hnew h finished)
    · have h : (Action.enter params args (some frame) >>= eval depth body) m = (out, m') := h
      simp only [Action.enter, hl, if_false, Action.bind_apply, Action.raise, Action.fail] at h
      cases h
      exact .procedureArity hl
  | primitive i p =>
    cases accepts : p.arity.accepts args.length with
    | true =>
      simp only [call, Eval.application, accepts, if_true] at h
      exact primitive_sound calls accepts hs hargs h finished
    | false =>
      simp only [call, Eval.application, accepts] at h
      cases h
      exact .primitiveArity accepts
  | _ => exact absurd rfl hp

end Calls

theorem eval_call_sound (depth : Nat) : EvalSound depth ∧ CallSound depth := by
  induction depth with
  | zero =>
    refine ⟨fun _ _ _ h finished => ?_, fun _ _ _ h finished => ?_⟩
    · cases h
      exact absurd rfl finished
    · cases h
      exact absurd rfl finished
  | succ depth ih => exact ⟨expression_sound ih.1 ih.2, call_sound ih.1 ih.2⟩

/-- From some depth on the evaluator gives exactly the outcome that the rules derive; there is at most
one, and the evaluator gives it at every depth that it does not run out of. -/
theorem eval_adequate {m : Machine} {f : FrameId} {e : Value} (hs : m.store.WellFormed)
    (he : e.Within m.store.frames.size) (hf : f < m.store.frames.size) :
    (∀ out m', Concludes (fun depth => eval depth e f) m out m' ↔ Evaluates m f e out m') ∧
      (∀ out m' out' m'', Evaluates m f e out m' → Evaluates m f e out' m'' →
        out = out' ∧ m' = m'') ∧
      ∀ depth out m', eval depth e f m = (out, m') →
        out = .error .depthExhausted ∨ Evaluates m f e out m' := by
  refine ⟨fun out m' => ⟨?_, fun h => h.concludes hs he hf⟩, ?_, ?_⟩
  · rintro ⟨finished, least, h⟩
    exact (eval_call_sound least).1 hs he hf (h least (Nat.le_refl _)) finished
  · intro out m' out' m'' h h'
    exact (h.concludes hs he hf).unique (h'.concludes hs he hf)
  · intro depth out m' h
    by_cases finished : out = .error .depthExhausted
    · exact .inl finished
    · exact .inr ((eval_call_sound depth).1 hs he hf h finished)

/-- A procedure that is made and called in a new global frame. -/
theorem eval_adequate_of_call :
    let m := (Action.newGlobals (Machine.start 30)).2
    let sum := Datum.list [.symbol "+", .symbol "x", .number (.int 1)]
    let d := Datum.list [.list [.symbol "lambda", .list [.symbol "x"], sum], .number (.int 2)]
    let e := (Value.ofDatum 0 d).1
    m.store.WellFormed ∧ e.Within m.store.frames.size ∧ 0 < m.store.frames.size ∧
      ∃ m', Evaluates m 0 e (.ok (.number (.int 3))) m' ∧
        Concludes (fun depth => eval depth e 0) m (.ok (.number (.int 3))) m' := by
  intro m sum d e
  have wellFormed : m.store.WellFormed :=
    (Host.newGlobals_agrees (m := Machine.start 30) Store.wellFormed_empty).wellFormed.1
  have within : e.Within m.store.frames.size := Value.within_ofDatum _ 0 d
  have exists_frame : 0 < m.store.frames.size := by decide +kernel
  obtain ⟨same, -, derived⟩ := eval_adequate wellFormed within exists_frame
  have three : (eval 20 e 0 m).1 = .ok (.number (.int 3)) := by rfl
  rcases hr : eval 20 e 0 m with ⟨out, m'⟩
  obtain rfl : out = .ok (.number (.int 3)) := by rwa [hr] at three
  have evaluates := (derived 20 _ m' hr).resolve_left (by simp)
  exact ⟨wellFormed, within, exists_frame, _, evaluates, (same _ _).mpr evaluates⟩

end SmallScheme.BigStep
