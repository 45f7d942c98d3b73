import SmallScheme.Proofs.Numeral

/-!
What a word stands for is decided by the grammar of numbers. A word of integer form is that integer, or
refused for its length. A word of decimal form is the number nearest to its decimal, if that is finite.
Every other word is a symbol. No integer that is short enough is lost on the way through its text.
-/

set_option autoImplicit false
set_option relaxedAutoImplicit false

namespace SmallScheme.Datum

/-- A word is an integer just if it is an optional sign and digits of any scripts, not too many, and it is
the integer that they spell; with too many digits it is refused. It is a binary64 number just if it is a
decimal to which that number is the nearest one, and the number is finite. Otherwise, and only then, it is
the symbol with that name. The text of an integer that has not too many digits is that integer. -/
theorem ofWord_decides_number_grammar :
    (∀ word n, ofWord word = .ok (.number (.int n)) ↔
        ∃ negative values, IntegerForm word.toList negative values ∧
          values.length ≤ Number.digitLimit ∧ n = signed negative (place values)) ∧
      (∀ word failure, ofWord word = .error failure ↔
        ∃ negative values, IntegerForm word.toList negative values ∧
          Number.digitLimit < values.length ∧ failure = .digitLimit (some values.length)) ∧
      (∀ word x, ofWord word = .ok (.number (.float x)) ↔
        ∃ negative d, DecimalForm word.toList negative d ∧ x = d.toBinary64 negative ∧
          x.isFinite = true) ∧
      (∀ negative d, (Decimal.toBinary64 negative d).isFinite = true ↔
        d.value < 2 ^ (1024 : Int) - 2 ^ (970 : Int)) ∧
      (∀ word name, ofWord word = .ok (.symbol name) ↔
        name = word ∧ (∀ negative values, ¬ IntegerForm word.toList negative values) ∧
          ∀ negative d, DecimalForm word.toList negative d →
            (d.toBinary64 negative).isFinite = false) ∧
      ∀ n : Int, (Nat.toDigits 10 n.natAbs).length ≤ Number.digitLimit →
        ofWord (toString n) = .ok (.number (.int n)) := by
  refine ⟨fun word n => ?_, fun word failure => ?_, fun word x => ?_,
    fun negative d => d.isFinite_toBinary64_iff negative, fun word name => ?_, fun n short => ?_⟩
  · rw [← classified_iff]
    constructor
    · rintro (⟨form, short⟩ | _ | _ | _)
      exact ⟨_, _, form, short, rfl⟩
    · rintro ⟨negative, values, form, short, rfl⟩
      exact .integer form short
  · rw [← classified_iff]
    constructor
    · rintro (_ | ⟨form, long⟩ | _ | _)
      exact ⟨_, _, form, long, rfl⟩
    · rintro ⟨negative, values, form, long, rfl⟩
      exact .oversized form long
  · rw [← classified_iff]
    constructor
    · rintro (_ | _ | ⟨form, finite⟩ | _)
      exact ⟨_, _, form, rfl, finite⟩
    · rintro ⟨negative, d, form, rfl, finite⟩
      exact .float form finite
  · rw [← classified_iff]
    constructor
    · rintro (_ | _ | _ | ⟨integer, infinite⟩)
      exact ⟨rfl, integer, infinite⟩
    · rintro ⟨rfl, integer, infinite⟩
      exact .symbol integer infinite
  · have bound : n.natAbs < 10 ^ Number.digitLimit :=
      (Nat.length_toDigits_le_iff (by decide) (by decide)).mp short
    exact (ofWord_toString bound).2

theorem ofWord_decides_number_grammar_mixed_scripts :
    ofWord "-\u0660\u06F04" = .ok (.number (.int (-4))) ∧
      ofWord "+.5E1" = .ok (.number (.float (Decimal.toBinary64 false ⟨5, 0⟩))) ∧
      ofWord "1e400" = .ok (.symbol "1e400") ∧
      ofWord (toString (-12 : Int)) = .ok (.number (.int (-12))) := by
  obtain ⟨integer, -, float, -, symbol, text⟩ := ofWord_decides_number_grammar
  refine ⟨(integer _ _).mpr ⟨true, [0, 0, 4], ?_, by decide, rfl⟩,
    (float _ _).mpr ⟨false, ⟨5, 0⟩, ?_, rfl, ?_⟩, (symbol _ _).mpr ⟨rfl, ?_, ?_⟩,
    text (-12) (by decide)⟩
  · exact .mk .minus (.cons rfl (.cons rfl (.cons rfl .nil))) (by simp)
  · have exponent : ExponentForm ['E', '1'] 1 :=
      .mk (.inr rfl) (.mk .none (.cons rfl .nil) (by simp))
    exact .mk .plus (.fraction (.cons rfl .nil) (by simp) (.present exponent))
  · decide +kernel
  · intro negative values form
    have none : integerForm? "1e400".toList = none := by decide
    rw [integerForm?_eq_some_iff.mpr form] at none
    cases none
  · intro negative d form
    have read : decimalForm? "1e400".toList = some (false, ⟨1, 400⟩) := by decide
    rw [decimalForm?_eq_some_iff.mpr form] at read
    cases read
    decide +kernel

end SmallScheme.Datum
