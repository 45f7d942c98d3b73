import SmallScheme.Number
import SmallScheme.Proofs.Rounding

/-!
Numbers as operands of binary64 operations. Which integers are too large to be rounded, which numbers are
rounded to a zero or to a negative number, and which numbers are zero.
-/

set_option autoImplicit false
set_option relaxedAutoImplicit false

namespace SmallScheme

namespace Binary64

/-- The middle between the greatest finite number and the next power of two. -/
def overflow : Nat :=
  2 ^ 1024 - 2 ^ 970

theorem isFinite_ofRatio_iff_lt (negative : Bool) (num : Nat) {den : Nat} (hd : 0 < den) :
    (ofRatio negative num den).isFinite = true ↔ num < overflow * den := by
  have le {m n : Nat} (h : m ≤ n) : 2 ^ m ≤ 2 ^ n := Nat.pow_le_pow_right two_pos h
  have bound : ((overflow : Nat) : ℚ) = 2 ^ (1024 : Int) - 2 ^ (970 : Int) := by
    rw [overflow, Nat.cast_sub (le (by norm_num)), Nat.cast_pow, Nat.cast_pow]
    rfl
  have pos : (0 : ℚ) < den := by exact_mod_cast hd
  rw [isFinite_ofRatio_iff negative num hd, ← bound, div_lt_iff₀ pos]
  exact_mod_cast Iff.rfl

private theorem isFinite_ofInt_iff (n : Int) : (ofInt n).isFinite = true ↔ n.natAbs < overflow := by
  rw [ofInt, isFinite_ofRatio_iff_lt _ _ Nat.one_pos, Nat.mul_one]

private theorem nearestCode_pos {num den : Nat} (hd : 0 < den) (h : den ≤ num) :
    0 < nearestCode num den := by
  obtain ⟨shift, hshift⟩ : ∃ shift, (logRatio num den - 52).toNat = shift := ⟨_, rfl⟩
  rw [nearestCode_eq hshift]
  cases shift with
  | zero =>
    have one : 1 ≤ roundDiv num (den * 2 ^ 0) := le_roundDiv (by omega) (by omega)
    omega
  | succ shift => omega

private theorem ofInt_eq_zero {n : Int} {negative : Bool} (h : ofInt n = zero negative) :
    n = 0 := by
  by_contra hn
  have size : n.natAbs ≠ 0 := Int.natAbs_ne_zero.mpr hn
  have code : 0 < nearestCode (n.natAbs * unitsPerOne) 1 := by
    have one : 1 ≤ unitsPerOne := unitsPerOne_pos
    exact nearestCode_pos Nat.one_pos (Nat.mul_pos (Nat.pos_of_ne_zero size) one)
  simp only [ofInt, ofRatio, if_neg size] at h
  generalize nearestCode (n.natAbs * unitsPerOne) 1 = nearest at h code
  split at h
  · injection h with _ same
    rw [Fin.mk.injEq] at same
    omega
  · cases h

private theorem negative_of_ofRatio {negative negative' : Bool} {num den : Nat}
    {code : Fin magnitudes}
    (h : ofRatio negative num den = finite negative' code) : negative = negative' := by
  unfold ofRatio at h
  dsimp only at h
  generalize (if num = 0 then 0 else nearestCode (num * unitsPerOne) den) = nearest at h
  split at h
  · injection h
  · cases h

private theorem unitsOfCode_eq_zero_iff {code : Nat} : unitsOfCode code = 0 ↔ code = 0 := by
  rw [unitsOfCode_eq]
  split
  · exact Iff.rfl
  · have pos : 0 < (2 ^ 52 + code % 2 ^ 52) * 2 ^ (code / 2 ^ 52 - 1) :=
      Nat.mul_pos (by omega) (Nat.two_pow_pos _)
    omega

private theorem units_eq_zero_iff {negative : Bool} {code : Fin magnitudes} :
    units negative code = 0 ↔ code.val = 0 := by
  cases negative
  · simp only [units, Bool.false_eq_true, if_false, Int.natCast_eq_zero, unitsOfCode_eq_zero_iff]
  · simp only [units, if_true, Int.neg_eq_zero, Int.natCast_eq_zero, unitsOfCode_eq_zero_iff]

private theorem compare?_zero (negative : Bool) (code : Fin magnitudes) :
    (finite negative code).compare? (zero false) = some (compare (units negative code) 0) := by
  have none : units false (⟨0, by decide⟩ : Fin magnitudes) = 0 := units_eq_zero_iff.mpr rfl
  simp only [compare?, zero, none]

private theorem compareInt?_zero (y : Binary64) :
    (compareInt? 0 y).map Ordering.swap = y.compare? (zero false) := by
  cases y with
  | nan => rfl
  | infinite negative => cases negative <;> rfl
  | finite negative code =>
    rw [compare?_zero, compareInt?, Int.zero_mul, Option.map_some, ← Std.OrientedOrd.eq_swap]

theorem compare?_zero_eq_iff {y : Binary64} :
    y.compare? (zero false) = some .eq ↔ ∃ negative, y = zero negative := by
  cases y with
  | nan => simp [compare?, zero]
  | infinite negative => cases negative <;> simp [compare?, zero]
  | finite negative code =>
    rw [compare?_zero, Option.some.injEq, Std.compare_eq_iff_eq, units_eq_zero_iff]
    simp [zero, Fin.ext_iff]

private theorem negative_of_compare?_zero {y : Binary64} (h : y.compare? (zero false) = some .lt) :
    (∃ code, y = finite true code) ∨ y = infinite true := by
  cases y with
  | nan => cases h
  | infinite negative =>
    cases negative with
    | true => exact .inr rfl
    | false => cases h
  | finite negative code =>
    cases negative with
    | true => exact .inl ⟨code, rfl⟩
    | false =>
      have least : (0 : Int) ≤ units false code := Int.natCast_nonneg _
      rw [compare?_zero, Option.some.injEq, compare_lt_iff_lt] at h
      omega

end Binary64

namespace Number

variable {a : Number}

def IsZero (a : Number) : Prop :=
  a = .int 0 ∨ ∃ negative, a = .float (.zero negative)

theorem isZero_iff : a.isZero = true ↔ a.IsZero := by
  cases a with
  | int n => simp [isZero, eq, compare?, IsZero]
  | float y =>
    rw [isZero, eq, decide_eq_true_eq, compare?, Binary64.compareInt?_zero,
      Binary64.compare?_zero_eq_iff]
    simp [IsZero]

def Huge : Number → Prop
  | .int n => Binary64.overflow ≤ n.natAbs
  | .float _ => False

theorem operand_of_huge (h : a.Huge) : a.operand = .error .integerOperand := by
  cases a with
  | float y => cases h
  | int n =>
    have infinite := mt (Binary64.isFinite_ofInt_iff n).mp (Nat.not_lt.mpr h)
    rw [operand, if_neg infinite]

theorem exists_operand (h : ¬ a.Huge) : ∃ y, a.operand = .ok y := by
  cases a with
  | float y => exact ⟨y, rfl⟩
  | int n =>
    have finite := (Binary64.isFinite_ofInt_iff n).mpr (Nat.not_le.mp h)
    exact ⟨_, by rw [operand, if_pos finite]⟩

private theorem operand_int {n : Int} {y : Binary64} (h : (int n).operand = .ok y) :
    y = Binary64.ofInt n ∧ n.natAbs < Binary64.overflow := by
  rw [operand] at h
  split at h
  · rename_i finite
    exact ⟨(Except.ok.inj h).symm, (Binary64.isFinite_ofInt_iff n).mp finite⟩
  · cases h

theorem isZero_of_operand {negative : Bool} (h : a.operand = .ok (.zero negative)) :
    a.isZero = true := by
  rw [isZero_iff]
  cases a with
  | float y =>
    cases h
    exact .inr ⟨negative, rfl⟩
  | int n =>
    have zero := Binary64.ofInt_eq_zero (operand_int h).1.symm
    exact .inl (congrArg int zero)

theorem lt_zero_of_operand {y : Binary64} (h : a.operand = .ok y)
    (negative : y.compare? (.zero false) = some .lt) : a.lt (.int 0) = true := by
  cases a with
  | float x =>
    cases h
    rw [lt, decide_eq_true_eq, compare?, Binary64.compareInt?_zero]
    exact negative
  | int n =>
    obtain ⟨rounded, small⟩ := operand_int h
    have finite := (Binary64.isFinite_ofInt_iff n).mpr small
    rcases Binary64.negative_of_compare?_zero negative with ⟨code, rfl⟩ | rfl
    · have below : n < 0 := of_decide_eq_true (Binary64.negative_of_ofRatio rounded.symm)
      rw [lt, decide_eq_true_eq, compare?, Option.some.injEq, compare_lt_iff_lt]
      exact below
    · rw [← rounded] at finite
      cases finite

theorem exists_text {y : Binary64} (h : a.operand = .ok y) : ∃ text, a.text? = some text := by
  cases a with
  | float x => exact ⟨x.text, rfl⟩
  | int n =>
    have bound : Binary64.overflow ≤ Nat.pow 10 digitLimit := by decide +kernel
    have few : n.natAbs < Nat.pow 10 digitLimit := (operand_int h).2.trans_le bound
    exact ⟨toString n, by rw [text?, if_pos few]⟩

theorem finite_cases (a : Number) : a.finite = .ok a ∨ ∃ y, a.finite = .error (.notFinite y) := by
  cases a with
  | int n => exact .inl rfl
  | float y =>
    by_cases finite : y.isFinite = true
    · exact .inl (by simp only [Number.finite, if_pos finite])
    · exact .inr ⟨y, by simp only [Number.finite, if_neg finite]⟩

end Number

end SmallScheme
