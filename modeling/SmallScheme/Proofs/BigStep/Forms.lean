import SmallScheme.Proofs.BigStep

/-!
What the parts of the evaluator do, in the words of the rules: which form a list expression is, what the
primitives that call procedures ask of their arguments, and what is written in messages when there is
enough room.
-/

set_option autoImplicit false
set_option relaxedAutoImplicit false

namespace SmallScheme

/-- From some depth on, the action has the outcome and leaves the machine. -/
structure Concludes {α : Type} (x : Nat → Action α) (m : Machine) (out : Except Failure α)
    (m' : Machine) : Prop where
  finished : out ≠ .error .depthExhausted
  eventually : ∃ least, ∀ depth, least ≤ depth → x depth m = (out, m')

namespace Concludes

variable {α β : Type} {x : Nat → Action α} {m n m' : Machine} {out : Except Failure α}

theorem of_eq {y : Action α} (finished : out ≠ .error .depthExhausted) (h : y m = (out, m')) :
    Concludes (fun _ => y) m out m' :=
  ⟨finished, 0, fun _ _ => h⟩

theorem succ (h : Concludes (fun depth => x (depth + 1)) m out m') : Concludes x m out m' := by
  obtain ⟨finished, least, h⟩ := h
  refine ⟨finished, least + 1, fun depth hd => ?_⟩
  cases depth with
  | zero => exact absurd hd (Nat.not_succ_le_zero least)
  | succ depth => exact h depth (Nat.le_of_succ_le_succ hd)

theorem bind {g : Nat → α → Action β} {a : α} {result : Except Failure β}
    (h : Concludes x m (.ok a) n) (k : Concludes (fun depth => g depth a) n result m') :
    Concludes (fun depth => x depth >>= g depth) m result m' := by
  obtain ⟨-, least, h⟩ := h
  obtain ⟨finished, least', k⟩ := k
  refine ⟨finished, max least least', fun depth hd => ?_⟩
  rw [Action.bind_apply, h depth (Nat.le_trans (Nat.le_max_left _ _) hd)]
  exact k depth (Nat.le_trans (Nat.le_max_right _ _) hd)

theorem bind_error {g : Nat → α → Action β} {failure : Failure}
    (h : Concludes x m (.error failure) m') :
    Concludes (fun depth => x depth >>= g depth) m (.error failure) m' := by
  obtain ⟨finished, least, h⟩ := h
  refine ⟨fun he => finished (by cases he; rfl), least, fun depth hd => ?_⟩
  rw [Action.bind_apply, h depth hd]

theorem unique {out' : Except Failure α} (h : Concludes x m out n) (h' : Concludes x m out' m') :
    out = out' ∧ n = m' := by
  obtain ⟨-, least, h⟩ := h
  obtain ⟨-, least', h'⟩ := h'
  have same := (h _ (Nat.le_max_left least least')).symm.trans (h' _ (Nat.le_max_right least least'))
  exact Prod.mk.inj same

end Concludes

namespace BigStep

private theorem bind_finished {α β : Type} {x : Except Failure α} {g : α → Except Failure β}
    (hx : x ≠ .error .depthExhausted) (hg : ∀ a, g a ≠ .error .depthExhausted) :
    x >>= g ≠ .error .depthExhausted := by
  cases x with
  | error failure => exact fun h => hx (congrArg Except.error (Except.error.inj h))
  | ok a => exact hg a

mutual

theorem spelling_finished (style : Style) (v : Value) :
    v.spelling style ≠ .error .depthExhausted := by
  cases v with
  | number n =>
    simp only [Value.spelling, Number.text]
    split <;> simp
  | list i items => exact bind_finished (spellings_finished style items) fun _ h => by cases h
  | _ => simp [Value.spelling]

private theorem spellings_finished (style : Style) (items : List Value) :
    Value.spellings style items ≠ .error .depthExhausted := by
  cases items with
  | nil => simp [Value.spellings]
  | cons v rest =>
    refine bind_finished (spelling_finished style v) fun _ => ?_
    exact bind_finished (spellings_finished style rest) fun _ h => by cases h

end

private theorem complaint_finished (e : String → Error) (v : Value) :
    complaint e v ≠ .depthExhausted := by
  intro h
  have finished := spelling_finished .literal v
  unfold complaint at h
  split at h
  · cases h
  · rename_i failure hs
    rw [hs, h] at finished
    exact finished rfl

theorem literal_concludes (v : Value) (m : Machine) :
    Concludes (fun depth => Action.lift (v.literal depth)) m (v.spelling .literal) m := by
  refine ⟨spelling_finished .literal v, v.nesting + 1, fun depth hd => ?_⟩
  exact congrArg (·, m) (Value.write_eq_spelling .literal v hd)

theorem complain_concludes {α : Type} (e : String → Error) (v : Value) (m : Machine) :
    Concludes (fun depth => Action.lift (Primitive.complain depth e v : Except Failure α)) m
      (.error (complaint e v)) m := by
  refine ⟨fun h => complaint_finished e v (Except.error.inj h), v.nesting + 1, fun depth hd => ?_⟩
  have written : v.literal depth = v.spelling .literal := Value.write_eq_spelling .literal v hd
  simp only [Action.lift, Primitive.complain, written, complaint]
  cases v.spelling .literal <;> rfl

theorem Notes.concludes {v result : Value} {message : String → String} {m m' : Machine}
    {out : Except Failure Value} {k : String → Action Value} (h : Notes v message result m out m')
    (hk : ∀ text, k text m =
      (.ok result, { m with journal := m.journal.add ⟨.debug, message text⟩ })) :
    Concludes (fun depth => Action.lift (v.literal depth) >>= k) m out m' := by
  have written := literal_concludes v m
  cases h with
  | @written text hs =>
    rw [hs] at written
    exact written.bind (.of_eq (by simp) (hk text))
  | unwritten hs =>
    rw [hs] at written
    exact written.bind_error

section Forms

theorem ofList_keyword (form : SpecialForm) (rest : List Value) :
    Form.ofList (keyword form) rest = Form.special form rest := by
  cases form <;> rfl

private theorem ofKeyword?_eq_some {name : String} {form : SpecialForm}
    (h : SpecialForm.ofKeyword? name = some form) : name = form.keyword := by
  have found := List.find?_some h
  simpa using (of_decide_eq_true found).symm

theorem ofList_application {head : Value} (h : ∀ form, head ≠ keyword form) (rest : List Value) :
    Form.ofList head rest = .application head rest := by
  cases found : head.symbol?.bind SpecialForm.ofKeyword? with
  | none => simp [Form.ofList, found]
  | some form =>
    obtain ⟨name, hname, hform⟩ := Option.bind_eq_some_iff.mp found
    have symbol : head = .symbol name := by cases head <;> simp_all [Value.symbol?]
    exact absurd (symbol.trans (congrArg Value.symbol (ofKeyword?_eq_some hform))) (h form)

theorem special_misshapen {form : SpecialForm} {rest : List Value} {n : Nat}
    (h : parts form = some n) (hl : rest.length ≠ n) : Form.special form rest = .misshapen form := by
  cases form <;> cases h <;> rcases rest with _ | ⟨a, _ | ⟨b, _ | ⟨c, _ | ⟨d, t⟩⟩⟩⟩ <;>
    first
    | rfl
    | exact absurd rfl hl
    | (cases a <;> rfl)

theorem special_unnamed {form : SpecialForm} (h : form = .assignment ∨ form = .definition)
    {got : Value} (hg : got.isSymbol = false) (e : Value) :
    Form.special form [got, e] = .unnamed form got := by
  rcases h with rfl | rfl <;> cases got <;> first | rfl | simp [Value.isSymbol] at hg

private theorem params?_eq_some_iff {params : Value} {names : List String} :
    Form.params? params = some names ↔ ∃ j, params = .list j (names.map Value.symbol) := by
  have symbols : ∀ (items : List Value) (names : List String),
      items.mapM Value.symbol? = some names ↔ items = names.map Value.symbol := by
    intro items
    induction items with
    | nil => intro names; cases names <;> simp
    | cons v items ih =>
      intro names
      cases names with
      | nil => cases v <;> simp [Value.symbol?, Option.bind_eq_some_iff]
      | cons name names => cases v <;> simp [Value.symbol?, Option.bind_eq_some_iff, ih, and_comm]
  cases params <;> simp [Form.params?, symbols]

theorem special_abstraction (j : Identity) (names : List String) (body : Value) :
    Form.special .abstraction [.list j (names.map Value.symbol), body] = .abstraction names body := by
  have named : Form.params? (.list j (names.map Value.symbol)) = some names :=
    params?_eq_some_iff.mpr ⟨j, rfl⟩
  simp [Form.special, named]

theorem special_unparametrised {params : Value}
    (h : ∀ j names, params ≠ .list j (List.map Value.symbol names)) (body : Value) :
    Form.special .abstraction [params, body] = .unparametrised := by
  cases named : Form.params? params with
  | none => simp [Form.special, named]
  | some names =>
    obtain ⟨j, equal⟩ := params?_eq_some_iff.mp named
    exact absurd equal (h j names)

end Forms

section Primitives

variable {p : Primitive} {room : Nat} {call call' : Value → List Value → Action Value}
  {g a : Value} {args rows : List Value}

/-- Two primitives call procedures; no other depends on how calls are made. -/
theorem run_of_native (ha : p.operation ≠ .apply) (hm : p.operation ≠ .map) :
    p.run room call args = p.run room call' args := by
  obtain ⟨name, operation, arity⟩ := p
  cases operation with
  | apply => exact absurd rfl ha
  | map => exact absurd rfl hm
  | _ => rcases args with _ | ⟨_, _ | ⟨_, _ | ⟨_, _⟩⟩⟩ <;> rfl

theorem run_apply (h : p.operation = .apply) :
    p.run room call [g, a] = (do
      Action.lift (Primitive.procedure room p.name g)
      call g (← Action.lift (Primitive.items room p.name a))) := by
  obtain ⟨name, operation, arity⟩ := p
  cases h
  rfl

theorem run_map (h : p.operation = .map) (hr : rows ≠ []) :
    p.run room call (g :: rows) = Primitive.mapped room p.name call g rows := by
  obtain ⟨name, operation, arity⟩ := p
  cases h
  cases rows with
  | nil => exact absurd rfl hr
  | cons row rows => rfl

theorem run_misapplied (h : (p.operation = .apply ∧ args.length ≠ 2) ∨
      (p.operation = .map ∧ args.length < 2)) :
    p.run room call args = Action.raise (.arity p.name p.arity args.length) := by
  refine Primitive.run_of_not_accepts ?_
  rcases h with ⟨apply, count⟩ | ⟨map, count⟩
  · rw [apply, Operation.takes, Arity.accepts_exactly]
    exact count
  · rw [map, Operation.takes, Arity.accepts_atLeast]
    exact Nat.not_le.mpr count

/-- Columns are found by walking down the rows together. -/
theorem columns_eq (first : List Value) (others : List (List Value)) :
    Primitive.columns first others = columns first.length (first :: others) := by
  induction first generalizing others with
  | nil => rfl
  | cons x first ih =>
    have heads : others.filterMap List.head? = others.filterMap (·[0]?) := by
      simp only [List.head?_eq_getElem?]
    have tails (n : Nat) : (others.map List.tail).filterMap (·[n]?) = others.filterMap (·[n + 1]?) := by
      rw [List.filterMap_map]
      congr 1
      funext row
      exact List.getElem?_tail
    rw [Primitive.columns, ih, heads]
    simp only [columns, List.length_cons, List.range_succ_eq_map, List.map_cons, List.map_map]
    congr 1
    refine List.map_congr_left fun n _ => ?_
    simp only [Function.comp_apply, List.filterMap_cons, tails, List.getElem?_cons_succ]

theorem mem_columns {column first : List Value} {others : List (List Value)} {v : Value}
    (h : column ∈ Primitive.columns first others) (hv : v ∈ column) :
    ∃ row ∈ first :: others, v ∈ row := by
  induction first generalizing others with
  | nil => simp [Primitive.columns] at h
  | cons x first ih =>
    rcases List.mem_cons.mp h with rfl | h
    · rcases List.mem_cons.mp hv with rfl | hv
      · exact ⟨_, List.mem_cons_self, List.mem_cons_self⟩
      · obtain ⟨row, hrow, head⟩ := List.mem_filterMap.mp hv
        exact ⟨row, List.mem_cons_of_mem _ hrow, List.mem_of_head? head⟩
    · obtain ⟨row, hrow, hv⟩ := ih h
      rcases List.mem_cons.mp hrow with rfl | hrow
      · exact ⟨_, List.mem_cons_self, List.mem_cons_of_mem x hv⟩
      · obtain ⟨whole, hwhole, rfl⟩ := List.mem_map.mp hrow
        exact ⟨whole, List.mem_cons_of_mem _ hwhole, List.mem_of_mem_tail hv⟩

theorem procedure_eq_ok (room : Nat) (name : String) (h : g.isProcedure = true) :
    Primitive.procedure room name g = .ok () := by
  simp [Primitive.procedure, h]

theorem procedure_eq_complain (room : Nat) (name : String) (h : g.isProcedure = false) :
    Primitive.procedure room name g = Primitive.complain room (.notProcedure name) g := by
  simp [Primitive.procedure, h]

theorem items_eq_complain (room : Nat) (name : String) (h : a.isList = false) :
    Primitive.items room name a = Primitive.complain room (.notList name) a := by
  cases a <;> first | rfl | simp [Value.isList] at h

theorem mapM_items_of_rows (room : Nat) (name : String) {tables : List (List Value)}
    (h : Rows rows tables) : rows.mapM (Primitive.items room name) = .ok tables := by
  induction h with
  | nil => rfl
  | cons first _ ih =>
    obtain ⟨i, rfl⟩ := first
    rw [List.mapM_cons, ih]
    rfl

theorem mapM_items_of_unlisted (room : Nat) (name : String) {row : Value} {before : List Value}
    {tables : List (List Value)} (h : Rows before tables) (hrow : row.isList = false)
    (after : List Value) :
    (before ++ row :: after).mapM (Primitive.items room name) =
      Primitive.complain room (.notList name) row := by
  induction h with
  | nil =>
    rw [List.nil_append, List.mapM_cons, items_eq_complain room name hrow]
    cases hl : row.literal room <;> simp [Primitive.complain, hl] <;> rfl
  | cons first _ ih =>
    obtain ⟨i, rfl⟩ := first
    rw [List.cons_append, List.mapM_cons, ih]
    cases hl : row.literal room <;> simp [Primitive.complain, Primitive.items, hl] <;> rfl

theorem rows_or_unlisted (rows : List Value) :
    (∃ tables, Rows rows tables) ∨
      ∃ before row after tables, rows = before ++ row :: after ∧ Rows before tables ∧
        row.isList = false := by
  induction rows with
  | nil => exact .inl ⟨[], .nil⟩
  | cons v rows ih =>
    by_cases hv : v.isList = true
    · obtain ⟨i, items, rfl⟩ : ∃ i items, v = .list i items := by
        cases v <;> simp_all [Value.isList]
      rcases ih with ⟨tables, h⟩ | ⟨before, row, after, tables, rfl, h, hrow⟩
      · exact .inl ⟨items :: tables, .cons ⟨i, rfl⟩ h⟩
      · exact .inr ⟨_ :: before, row, after, items :: tables, rfl, .cons ⟨i, rfl⟩ h, hrow⟩
    · exact .inr ⟨[], v, rows, [], rfl, .nil, by simpa using hv⟩

end Primitives

section Names

variable {m : Machine} {f owner : FrameId} {name : String} {v old : Value}

theorem lookup_of_some (h : m.store.lookup? f name = some v) :
    Action.lookup f name m = (.ok v, m) := by
  simp only [Action.lookup, Action.bind_apply, Action.view, h, Action.pure_apply]

theorem lookup_of_none (h : m.store.lookup? f name = none) :
    Action.lookup f name m = (.error (.error (.unbound name)), m) := by
  simp only [Action.lookup, Action.bind_apply, Action.view, h, Action.raise, Action.fail]

theorem assign_of_some (h : m.store.owner? f name = some owner) (v : Value) :
    Action.assign f name v m = (.ok (), { m with store := m.store.define owner name v }) := by
  simp only [Action.assign, Action.bind_apply, Action.view, h, Action.define, Action.change]

theorem assign_of_none (h : m.store.owner? f name = none) (v : Value) :
    Action.assign f name v m = (.error (.error (.unbound name)), m) := by
  simp only [Action.assign, Action.bind_apply, Action.view, h, Action.raise, Action.fail]

theorem lookup_of_resolves (older : m.store.OuterOlder) (h : m.store.Resolves name f owner v) :
    Action.lookup f name m = (.ok v, m) :=
  lookup_of_some (h.lookup? older)

theorem lookup_of_unresolved (older : m.store.OuterOlder) (h : m.store.Unresolved name f) :
    Action.lookup f name m = (.error (.error (.unbound name)), m) :=
  lookup_of_none (h.lookup? older)

theorem assign_of_resolves (older : m.store.OuterOlder) (h : m.store.Resolves name f owner old)
    (v : Value) :
    Action.assign f name v m = (.ok (), { m with store := m.store.define owner name v }) :=
  assign_of_some (h.owner? older).1 v

theorem assign_of_unresolved (older : m.store.OuterOlder) (h : m.store.Unresolved name f)
    (v : Value) : Action.assign f name v m = (.error (.error (.unbound name)), m) :=
  assign_of_none (h.owner? older) v

end Names

end BigStep

namespace Form

/-- What a form is made of, besides its keyword and the names of parameters. -/
def parts : Form → List Value
  | .quote datum => [datum]
  | .conditional test consequent alternative => [test, consequent, alternative]
  | .assignment name e | .definition name e => [.symbol name, e]
  | .abstraction _ body => [body]
  | .sequence es => es
  | .application operator operands => operator :: operands
  | .unnamed _ got => [got]
  | .misshapen _ | .unparametrised => []

theorem mem_of_mem_special (form : SpecialForm) {rest : List Value} {part : Value}
    (h : part ∈ (special form rest).parts) : part ∈ rest := by
  revert h
  fun_cases special form rest <;> simp [parts] <;> grind

theorem ofList_cases (head : Value) (rest : List Value) :
    (∃ special, head = BigStep.keyword special ∧ ofList head rest = .special special rest) ∨
      ((∀ special, head ≠ BigStep.keyword special) ∧ ofList head rest = .application head rest) := by
  by_cases special : ∃ form, head = BigStep.keyword form
  · obtain ⟨form, rfl⟩ := special
    exact .inl ⟨form, rfl, BigStep.ofList_keyword form rest⟩
  · have plain : ∀ form, head ≠ BigStep.keyword form := fun form same => special ⟨form, same⟩
    exact .inr ⟨plain, BigStep.ofList_application plain rest⟩

theorem eq_of_special_eq_abstraction {form : SpecialForm} {rest : List Value} {params : List String}
    {body : Value} (h : special form rest = .abstraction params body) : form = .abstraction := by
  revert h
  fun_cases special form rest <;> simp

end Form

end SmallScheme
