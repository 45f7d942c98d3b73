import SmallScheme.Number.Decimal
import SmallScheme.Proofs.Rounding

/-!
Decimals and the numbers they stand for. The binary64 number of a decimal depends on its value alone; the
checks for huge and tiny decimals only save work. The decimal that is chosen to write a magnitude reads
back as that magnitude.
-/

set_option autoImplicit false
set_option relaxedAutoImplicit false

namespace SmallScheme.Decimal

open Binary64 (ofRatio unitsOfCode unitsPerOne)

def value (d : Decimal) : ℚ :=
  d.digits * 10 ^ d.exponent

private theorem ratio_pos (d : Decimal) : 0 < d.ratio.2 :=
  Nat.pow_pos (by decide)

private theorem ratio_value (d : Decimal) : (d.ratio.1 : ℚ) / d.ratio.2 = d.value := by
  have ten := zpow_eq_pow_div_pow (by decide : 0 < 10) d.exponent
  rw [Nat.cast_ofNat] at ten
  simp only [ratio, Nat.pow_eq, value, ten]
  push_cast
  ring

private theorem eight_zpow_le (n : Nat) : (2 : ℚ) ^ (3 * n : Int) ≤ 10 ^ (n : Int) := by
  rw [zpow_mul, zpow_natCast, zpow_natCast]
  exact pow_le_pow_left₀ (by norm_num) (by norm_num) n

private theorem ten_zpow_le (n : Nat) : (10 : ℚ) ^ (n : Int) ≤ 2 ^ (4 * n : Int) := by
  rw [zpow_mul, zpow_natCast, zpow_natCast]
  exact pow_le_pow_left₀ (by norm_num) (by norm_num) n

private theorem le_value_of_isHuge {d : Decimal} (hd : d.digits ≠ 0) (huge : d.isHuge = true) :
    (2 : ℚ) ^ (1025 : Int) ≤ d.value := by
  simp only [isHuge, decide_eq_true_eq] at huge
  set q := d.digits.log2 / 4 with hq
  have low : (2 : ℚ) ^ (d.digits.log2 : Int) ≤ d.digits := by
    rw [zpow_natCast]
    exact_mod_cast Nat.log2_self_le hd
  have whole : (10 : ℚ) ^ (q : Int) ≤ d.digits :=
    calc (10 : ℚ) ^ (q : Int) ≤ 2 ^ (4 * q : Int) := ten_zpow_le q
      _ ≤ 2 ^ (d.digits.log2 : Int) := zpow_le_zpow_right₀ (by norm_num) (by omega)
      _ ≤ d.digits := low
  calc (2 : ℚ) ^ (1025 : Int) ≤ 2 ^ (3 * (401 : Nat) : Int) :=
        zpow_le_zpow_right₀ (by norm_num) (by norm_num)
    _ ≤ 10 ^ ((401 : Nat) : Int) := eight_zpow_le 401
    _ ≤ 10 ^ ((q : Int) + d.exponent) := zpow_le_zpow_right₀ (by norm_num) (by omega)
    _ = 10 ^ (q : Int) * 10 ^ d.exponent := zpow_add₀ (by norm_num) _ _
    _ ≤ d.value := mul_le_mul_of_nonneg_right whole (by positivity)

private theorem value_lt_of_isTiny {d : Decimal} (tiny : d.isTiny = true) :
    d.value < (2 : ℚ) ^ (-1075 : Int) := by
  simp only [isTiny, decide_eq_true_eq] at tiny
  set q := (d.digits.log2 + 1) / 3 + 1 with hq
  have high : (d.digits : ℚ) < 2 ^ ((d.digits.log2 + 1 : Nat) : Int) := by
    rw [zpow_natCast]
    exact_mod_cast Nat.lt_log2_self
  have whole : (d.digits : ℚ) < 10 ^ (q : Int) :=
    calc (d.digits : ℚ) < 2 ^ ((d.digits.log2 + 1 : Nat) : Int) := high
      _ ≤ 2 ^ (3 * q : Int) := zpow_le_zpow_right₀ (by norm_num) (by omega)
      _ ≤ 10 ^ (q : Int) := eight_zpow_le q
  have inverse : (10 : ℚ) ^ (-((401 : Nat) : Int)) ≤ 2 ^ (-(3 * (401 : Nat) : Int)) := by
    rw [zpow_neg, zpow_neg]
    exact inv_anti₀ (by positivity) (eight_zpow_le 401)
  calc d.value < 10 ^ (q : Int) * 10 ^ d.exponent := mul_lt_mul_of_pos_right whole (by positivity)
    _ = 10 ^ ((q : Int) + d.exponent) := (zpow_add₀ (by norm_num) _ _).symm
    _ ≤ 10 ^ (-((401 : Nat) : Int)) := zpow_le_zpow_right₀ (by norm_num) (by omega)
    _ ≤ 2 ^ (-(3 * (401 : Nat) : Int)) := inverse
    _ ≤ 2 ^ (-1075 : Int) := zpow_le_zpow_right₀ (by norm_num) (by norm_num)

/-- The checks for extreme decimals make no difference to the number. -/
theorem toBinary64_eq_ofRatio (negative : Bool) (d : Decimal) :
    d.toBinary64 negative = ofRatio negative d.ratio.1 d.ratio.2 := by
  unfold toBinary64
  split
  · rename_i blank
    rw [ratio, blank, Nat.zero_mul, Binary64.ofRatio_zero]
  split
  · rename_i hd huge
    have large := le_value_of_isHuge hd huge
    rw [← ratio_value] at large
    exact (Binary64.ofRatio_of_large negative d.ratio_pos large).symm
  split
  · rename_i tiny
    have small := value_lt_of_isTiny tiny
    rw [← ratio_value] at small
    exact (Binary64.ofRatio_of_small negative d.ratio_pos small).symm
  · rfl

/-- A decimal is taken for a finite number just if it lies below the middle between the greatest finite
number and the next power of two. -/
theorem isFinite_toBinary64_iff (negative : Bool) (d : Decimal) :
    (d.toBinary64 negative).isFinite = true ↔ d.value < 2 ^ (1024 : Int) - 2 ^ (970 : Int) := by
  rw [toBinary64_eq_ofRatio, Binary64.isFinite_ofRatio_iff negative _ d.ratio_pos, ratio_value]

theorem toBinary64_congr (negative : Bool) {d d' : Decimal} (h : d.value = d'.value) :
    d.toBinary64 negative = d'.toBinary64 negative := by
  have hd : (d.ratio.2 : ℚ) ≠ 0 := by exact_mod_cast d.ratio_pos.ne'
  have hd' : (d'.ratio.2 : ℚ) ≠ 0 := by exact_mod_cast d'.ratio_pos.ne'
  rw [← ratio_value, ← ratio_value, div_eq_div_iff hd hd'] at h
  rw [toBinary64_eq_ofRatio, toBinary64_eq_ofRatio]
  exact Binary64.ofRatio_congr negative d.ratio_pos d'.ratio_pos (by exact_mod_cast h)

theorem value_shift (digits shift : Nat) (exponent : Int) :
    value ⟨digits * 10 ^ shift, exponent⟩ = value ⟨digits, exponent + shift⟩ := by
  simp only [value]
  rw [zpow_add₀ (by norm_num), zpow_natCast]
  push_cast
  ring

private theorem strip_value (n : Nat) (d : Decimal) : (strip n d).value = d.value := by
  induction n generalizing d with
  | zero => rfl
  | succ n ih =>
    unfold strip
    split
    · rename_i ends
      have whole : d.digits % 10 = 0 := by
        simp only [Bool.and_eq_true, decide_eq_true_eq] at ends
        exact ends.1
      have split : d.digits = d.digits / 10 * 10 ^ 1 := by omega
      have shift := value_shift (d.digits / 10) 1 d.exponent
      rw [← split] at shift
      rw [ih]
      exact shift.symm
    · rfl

-- The exponent is made a variable so that the powers are never computed.
private theorem exact_ratio (code : Fin magnitudes) :
    (exact code).ratio.1 * unitsPerOne = unitsOfCode code * (exact code).ratio.2 := by
  have exponent : (-1074 : Int) = -((1074 : Nat) : Int) := rfl
  unfold exact unitsPerOne
  rw [exponent]
  generalize 1074 = k
  have up : (-(k : Int)).toNat = 0 := by omega
  have down : (- -(k : Int)).toNat = k := by omega
  simp only [ratio, up, down, Nat.pow_eq]
  rw [pow_zero, mul_one, mul_assoc, ← Nat.mul_pow]

private theorem exact_readsBack (code : Fin magnitudes) : readsBack code (exact code) = true := by
  simp only [readsBack, decide_eq_true_eq, toBinary64_eq_ofRatio]
  exact Binary64.ofRatio_units false code (ratio_pos _) (exact_ratio code)

/-- When both neighbours read back, the one that rounding picks is one of them. -/
theorem onGrid?_readsBack {code : Fin magnitudes} {place : Int} {d : Decimal}
    (h : onGrid? code place = some d) : readsBack code d = true := by
  unfold onGrid? at h
  dsimp only at h
  generalize unitsOfCode code * Nat.pow 10 (-place).toNat = num at h
  generalize unitsPerOne * Nat.pow 10 place.toNat = den at h
  split at h
  · rename_i lower upper
    cases h
    rcases Binary64.roundDiv_eq_or num den with he | he
    · rw [he]
      exact lower
    · rw [he]
      exact upper
  · rename_i lower upper
    cases h
    exact lower
  · rename_i lower upper
    cases h
    exact upper
  · cases h

/-- The decimal that is chosen for a magnitude reads back as it, with either sign. -/
theorem shortest_toBinary64 (negative : Bool) (code : Fin magnitudes) :
    (shortest code).toBinary64 negative = .finite negative code := by
  unfold shortest
  dsimp only
  set found := (List.range 17).findSome? fun n => onGrid? code (scale code - (n + 1 : Nat)) with hf
  have reads : readsBack code (found.getD (exact code)) = true := by
    cases h : found with
    | none => exact exact_readsBack code
    | some d =>
      obtain ⟨n, -, hn⟩ := List.exists_of_findSome?_eq_some (hf ▸ h)
      exact onGrid?_readsBack hn
  simp only [readsBack, decide_eq_true_eq] at reads
  -- Stripping zeros keeps the value, and the sign goes along with the magnitude.
  rw [toBinary64_congr negative (strip_value _ _), toBinary64_eq_ofRatio]
  rw [toBinary64_eq_ofRatio] at reads
  exact Binary64.ofRatio_eq_finite reads negative

end SmallScheme.Decimal
