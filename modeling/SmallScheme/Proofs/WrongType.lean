import SmallScheme.Proofs.Blame

/-!
Values of the wrong type. What is given such a value fails with an error that shows the value. But an
integer in it may have too many digits to be shown, and its lists may be nested deeper than there is
room for; then it is writing the value that fails.
-/

set_option autoImplicit false
set_option relaxedAutoImplicit false

namespace SmallScheme

namespace Value

/-- The first value is written wherever the second one is: it is that value, or it stands in it in a
list at any depth. Procedures are not written part by part. -/
inductive ShownIn : Value → Value → Prop
  | self (v : Value) : ShownIn v v
  | item {v w : Value} {i : Identity} {items : List Value} : w ∈ items → ShownIn v w →
      ShownIn v (.list i items)

/-- An integer with too many digits is shown in the value. -/
def Unwritable (v : Value) : Prop :=
  ∃ u : Value, u.ShownIn v ∧ u.Overlong

private theorem unwritable_list {i : Identity} {items : List Value} :
    Unwritable (.list i items) ↔ ∃ v ∈ items, v.Unwritable := by
  constructor
  · rintro ⟨u, shown, overlong⟩
    cases shown with
    | self =>
      obtain ⟨k, number, -⟩ := overlong
      cases number
    | item hv shown => exact ⟨_, hv, u, shown, overlong⟩
  · rintro ⟨v, hv, u, shown, overlong⟩
    exact ⟨u, .item hv shown, overlong⟩

private theorem unwritable_atom {v : Value} (atom : v.isList = false) :
    v.Unwritable ↔ v.Overlong := by
  constructor
  · rintro ⟨u, shown, overlong⟩
    cases shown with
    | self => exact overlong
    | item => cases atom
  · exact fun overlong => ⟨v, .self v, overlong⟩

private theorem overlong_int {k : Int} :
    Overlong (.number (.int k)) ↔ Nat.pow 10 Number.digitLimit ≤ k.natAbs := by
  constructor
  · rintro ⟨_, ⟨⟩, long⟩
    exact long
  · exact fun long => ⟨k, rfl, long⟩

mutual

/-- A value is written, or an integer in it has too many digits. -/
theorem spelling_cases (style : Style) (v : Value) :
    (¬ v.Unwritable ∧ ∃ text, v.spelling style = .ok text) ∨
      (v.Unwritable ∧ v.spelling style = .error (.digitLimit none)) := by
  have written (atom : v.isList = false) (other : ∀ k, v ≠ .number (.int k)) {text : String}
      (h : v.spelling style = .ok text) :
      (¬ v.Unwritable ∧ ∃ text, v.spelling style = .ok text) ∨
        (v.Unwritable ∧ v.spelling style = .error (.digitLimit none)) := by
    refine .inl ⟨fun unwritable => ?_, text, h⟩
    obtain ⟨k, number, -⟩ := (unwritable_atom atom).mp unwritable
    exact other k number
  match v with
  | .list i items =>
    rw [unwritable_list]
    rcases spellings_cases style items with ⟨short, texts, h⟩ | ⟨long, h⟩
    · exact .inl ⟨short, _, by rw [spelling, h]; rfl⟩
    · exact .inr ⟨long, by rw [spelling, h]; rfl⟩
  | .number (.int k) =>
    rw [unwritable_atom rfl, overlong_int, spelling, Number.text, Number.text?]
    by_cases short : k.natAbs < Nat.pow 10 Number.digitLimit
    · rw [if_pos short]
      exact .inl ⟨Nat.not_le.mpr short, toString k, rfl⟩
    · rw [if_neg short]
      exact .inr ⟨Nat.not_lt.mp short, rfl⟩
  | .number (.float x) => exact written rfl nofun rfl
  | .unit => exact written rfl nofun rfl
  | .bool b => exact written rfl nofun rfl
  | .symbol name => exact written rfl nofun rfl
  | .procedure i params body frame => exact written rfl nofun rfl
  | .primitive i p => exact written rfl nofun rfl

private theorem spellings_cases (style : Style) (items : List Value) :
    ((¬ ∃ v ∈ items, v.Unwritable) ∧ ∃ texts, spellings style items = .ok texts) ∨
      ((∃ v ∈ items, v.Unwritable) ∧ spellings style items = .error (.digitLimit none)) := by
  match items with
  | [] => exact .inl ⟨by simp, [], rfl⟩
  | v :: rest =>
    rw [List.exists_mem_cons_iff, spellings]
    rcases spelling_cases style v with ⟨short, text, first⟩ | ⟨long, first⟩
    · rcases spellings_cases style rest with ⟨shorts, texts, others⟩ | ⟨long, others⟩
      · exact .inl ⟨not_or.mpr ⟨short, shorts⟩, text :: texts, by rw [first, others]; rfl⟩
      · exact .inr ⟨.inr long, by rw [first, others]; rfl⟩
    · exact .inr ⟨.inl long, by rw [first]; rfl⟩

end

/-- How a call ends that complains of the value's type: with the error, which shows the value, or for
want of a text of the value, or for want of room to write it. -/
inductive WrongType (room : Nat) (e : String → Error) (v : Value) : Failure → Prop
  | error {text : String} : ¬ v.Unwritable → v.spelling .literal = .ok text →
      (e text).kind = .wrongType → WrongType room e v (.error (e text))
  | digitLimit : v.Unwritable → WrongType room e v (.digitLimit none)
  | depthExhausted : room ≤ v.nesting → WrongType room e v .depthExhausted

theorem exists_wrongType {α : Type} (room : Nat) {e : String → Error}
    (kind : ∀ text, (e text).kind = .wrongType) (v : Value) :
    ∃ failure, (Primitive.complain room e v : Except Failure α) = .error failure ∧
      v.WrongType room e failure := by
  by_cases exhausted : v.literal room = .error .depthExhausted
  · have deep : room ≤ v.nesting := by
      by_contra fits
      have spelled := write_eq_spelling .literal v (Nat.not_le.mp fits)
      exact BigStep.spelling_finished .literal v (spelled.symm.trans exhausted)
    exact ⟨.depthExhausted, by rw [Primitive.complain, exhausted]; rfl, .depthExhausted deep⟩
  · have spelled : v.literal room = v.spelling .literal := write_eq_spelling_of_finished exhausted
    rcases spelling_cases .literal v with ⟨short, text, h⟩ | ⟨long, h⟩
    · refine ⟨.error (e text), ?_, .error short h (kind text)⟩
      rw [Primitive.complain, spelled, h]
      rfl
    · refine ⟨.digitLimit none, ?_, .digitLimit long⟩
      rw [Primitive.complain, spelled, h]
      rfl

end Value

end SmallScheme
