/-!
Sets of code points given by a standard as closed ranges.
-/

set_option autoImplicit false
set_option relaxedAutoImplicit false

namespace SmallScheme.Text

/-- Closed ranges of code points, ascending and apart. -/
abbrev Ranges := List (Nat × Nat)

/-- Whether a code point lies in one of the ranges; the search stops at the first range above it. -/
def Ranges.contains : Ranges → Nat → Bool
  | [], _ => false
  | (low, high) :: rest, n => if n < low then false else n ≤ high || Ranges.contains rest n

/-- Each range is in order and ends before the next one starts. -/
def Ranges.Ascending : Ranges → Prop
  | [] => True
  | [(low, high)] => low ≤ high
  | (low, high) :: (low', high') :: rest =>
      low ≤ high ∧ high < low' ∧ Ranges.Ascending ((low', high') :: rest)

namespace Ranges

instance decidableAscending : DecidablePred Ascending
  | [] => inferInstanceAs (Decidable True)
  | [(low, high)] => inferInstanceAs (Decidable (low ≤ high))
  | (low, high) :: (low', high') :: rest =>
      have := decidableAscending ((low', high') :: rest)
      inferInstanceAs (Decidable (low ≤ high ∧ high < low' ∧ Ascending ((low', high') :: rest)))

variable {low high n : Nat} {range : Nat × Nat} {rest ranges : Ranges}

theorem Ascending.head (h : Ascending ((low, high) :: rest)) : low ≤ high := by
  cases rest with
  | nil => exact h
  | cons next rest => exact h.1

theorem Ascending.tail (h : Ascending ((low, high) :: rest)) : Ascending rest := by
  cases rest with
  | nil => trivial
  | cons next rest => exact h.2.2

theorem Ascending.lt_of_mem (h : Ascending ((low, high) :: rest)) (hr : range ∈ rest) :
    high < range.1 := by
  induction rest generalizing low high with
  | nil => cases hr
  | cons next rest ih =>
    obtain ⟨-, before, later⟩ := h
    rcases List.mem_cons.mp hr with rfl | hr
    · exact before
    · exact Nat.lt_trans (Nat.lt_of_lt_of_le before later.head) (ih later hr)

/-- In ascending ranges the search finds just what lies in one of them. -/
theorem contains_iff (h : ranges.Ascending) :
    ranges.contains n = true ↔ ∃ range ∈ ranges, range.1 ≤ n ∧ n ≤ range.2 := by
  induction ranges with
  | nil => simp [contains]
  | cons first rest ih =>
    obtain ⟨low, high⟩ := first
    simp only [contains, List.mem_cons, or_and_right, exists_or, exists_eq_left]
    by_cases below : n < low
    · have beyond : ∀ range ∈ rest, n < range.1 := fun range hr =>
        Nat.lt_trans (Nat.lt_of_lt_of_le below h.head) (h.lt_of_mem hr)
      simp only [if_pos below, Bool.false_eq_true, false_iff, not_or, not_exists, not_and]
      exact ⟨fun within => absurd below (Nat.not_lt.mpr within),
        fun range hr within => absurd (beyond range hr) (Nat.not_lt.mpr within)⟩
    · rw [if_neg below, Bool.or_eq_true, decide_eq_true_eq, ih h.tail]
      simp only [Nat.not_lt.mp below, true_and]

end Ranges

end SmallScheme.Text
