import Mathlib.Algebra.Order.Field.Power
import Mathlib.Algebra.Order.Floor.Semifield
import Mathlib.Data.Int.Log
import Mathlib.Data.Rat.Floor
import Mathlib.Tactic.NormNum
import Mathlib.Tactic.Positivity
import Mathlib.Tactic.Ring
import SmallScheme.Number.Binary64

/-!
Rounding to binary64. The number nearest to a quotient depends on the rational number alone, not on
the numerator and denominator that stand for it. A quotient that is a magnitude is rounded to that
magnitude. Quotients give an infinity from halfway between the greatest magnitude and the next power of
two on, and quotients far below the least magnitude give a zero.
-/

set_option autoImplicit false
set_option relaxedAutoImplicit false

namespace SmallScheme

theorem zpow_eq_pow_div_pow {b : Nat} (hb : 0 < b) (e : Int) :
    (b : ℚ) ^ e = (b ^ e.toNat : Nat) / (b ^ (-e).toNat : Nat) := by
  have hb' : (b : ℚ) ≠ 0 := by exact_mod_cast hb.ne'
  have split : e = (e.toNat : Int) - ((-e).toNat : Int) := by omega
  conv_lhs => rw [split, zpow_sub₀ hb', zpow_natCast, zpow_natCast]
  push_cast
  rfl

private theorem div_lt_zpow_iff {b : Nat} (hb : 0 < b) (num : Nat) {den : Nat} (hd : 0 < den)
    (e : Int) :
    (num : ℚ) / den < (b : ℚ) ^ e ↔ num * b ^ (-e).toNat < den * b ^ e.toNat := by
  have hd' : (0 : ℚ) < den := by exact_mod_cast hd
  have hp : (0 : ℚ) < (b ^ (-e).toNat : Nat) := by exact_mod_cast Nat.pow_pos hb
  rw [zpow_eq_pow_div_pow hb, div_lt_div_iff₀ hd' hp, mul_comm _ (den : ℚ)]
  exact_mod_cast Iff.rfl

private theorem div_lt_two_zpow_iff (num : Nat) {den : Nat} (hd : 0 < den) (m n : Nat) :
    (num : ℚ) / den < 2 ^ (m + n : Int) ↔ num < 2 ^ m * (den * 2 ^ n) := by
  have up : (m + n : Int).toNat = m + n := by omega
  have down : (-(m + n : Int)).toNat = 0 := by omega
  have whole := div_lt_zpow_iff (by decide : 0 < 2) num hd (m + n)
  rwa [up, down, Nat.cast_ofNat, pow_zero, mul_one, pow_add, Nat.mul_left_comm] at whole

namespace Binary64

theorem unitsPerOne_pos : 0 < unitsPerOne := by
  unfold unitsPerOne
  apply Nat.pow_pos
  decide

-- The exponent is made a variable so that the power is never computed.
private theorem cast_unitsPerOne : (unitsPerOne : ℚ) = 2 ^ (1074 : Int) := by
  have exponent : ((1074 : Nat) : Int) = 1074 := rfl
  unfold unitsPerOne
  rw [← exponent]
  generalize 1074 = k
  rw [Nat.pow_eq, zpow_natCast]
  push_cast
  rfl

theorem unitsOfCode_eq (code : Nat) :
    unitsOfCode code =
      if code < 2 ^ 52 then code else (2 ^ 52 + code % 2 ^ 52) * 2 ^ (code / 2 ^ 52 - 1) :=
  rfl

theorem nearestCode_eq {num den shift : Nat} (h : (logRatio num den - 52).toNat = shift) :
    nearestCode num den = shift * 2 ^ 52 + roundDiv num (den * 2 ^ shift) := by
  subst h
  rfl

private theorem roundDiv_mul_left {k : Nat} (hk : 0 < k) (num den : Nat) :
    roundDiv (k * num) (k * den) = roundDiv num den := by
  have below : 2 * (k * (num % den)) < k * den ↔ 2 * (num % den) < den := by
    rw [Nat.mul_left_comm]
    exact Nat.mul_lt_mul_left hk
  have above : k * den < 2 * (k * (num % den)) ↔ den < 2 * (num % den) := by
    rw [Nat.mul_left_comm]
    exact Nat.mul_lt_mul_left hk
  simp only [roundDiv, Nat.mul_div_mul_left _ _ hk, Nat.mul_mod_mul_left, below, above]

/-- Rounding a quotient depends on its value alone. -/
theorem roundDiv_congr {num den num' den' : Nat} (hd : 0 < den) (hd' : 0 < den')
    (h : num * den' = num' * den) : roundDiv num den = roundDiv num' den' := by
  rw [← roundDiv_mul_left hd' num den, ← roundDiv_mul_left hd num' den', Nat.mul_comm den' num, h,
    Nat.mul_comm num' den, Nat.mul_comm den' den]

private theorem roundDiv_one (n : Nat) : roundDiv n 1 = n := by
  simp [roundDiv, Nat.mod_one]

theorem roundDiv_eq_or (num den : Nat) :
    roundDiv num den = num / den ∨ roundDiv num den = num / den + 1 := by
  unfold roundDiv
  dsimp only
  split
  · exact .inl rfl
  split
  · exact .inr rfl
  split
  · exact .inl rfl
  · exact .inr rfl

private theorem roundDiv_eq_zero {num den : Nat} (h : 2 * num < den) : roundDiv num den = 0 := by
  have small : num < den := by omega
  simp [roundDiv, Nat.div_eq_of_lt small, Nat.mod_eq_of_lt small, h]

private theorem ratio_between {num den : Nat} (hn : 0 < num) (hd : 0 < den) {estimate : Int}
    (he : estimate = (num.log2 : Int) - den.log2) :
    (2 : ℚ) ^ (estimate - 1) < (num : ℚ) / den ∧ (num : ℚ) / den < 2 ^ (estimate + 1) := by
  have hd' : (0 : ℚ) < den := by exact_mod_cast hd
  have numLow : (2 : ℚ) ^ num.log2 ≤ num := by exact_mod_cast Nat.log2_self_le hn.ne'
  have numHigh : (num : ℚ) < 2 ^ (num.log2 + 1) := by exact_mod_cast Nat.lt_log2_self
  have denLow : (2 : ℚ) ^ den.log2 ≤ den := by exact_mod_cast Nat.log2_self_le hd.ne'
  have denHigh : (den : ℚ) < 2 ^ (den.log2 + 1) := by exact_mod_cast Nat.lt_log2_self
  constructor
  · rw [lt_div_iff₀ hd']
    calc (2 : ℚ) ^ (estimate - 1) * den < 2 ^ (estimate - 1) * 2 ^ (den.log2 + 1) := by
          exact mul_lt_mul_of_pos_left denHigh (by positivity)
      _ = 2 ^ num.log2 := by
          rw [← zpow_natCast, ← zpow_natCast, ← zpow_add₀ (by norm_num)]
          congr 1
          push_cast
          omega
      _ ≤ num := numLow
  · rw [div_lt_iff₀ hd']
    calc (num : ℚ) < 2 ^ (num.log2 + 1) := numHigh
      _ = 2 ^ (estimate + 1) * 2 ^ den.log2 := by
          rw [← zpow_natCast, ← zpow_natCast, ← zpow_add₀ (by norm_num)]
          congr 1
          push_cast
          omega
      _ ≤ 2 ^ (estimate + 1) * den := by
          exact mul_le_mul_of_nonneg_left denLow (by positivity)

/-- The estimate is at most one too large, which the comparison finds out. -/
theorem logRatio_eq_log {num den : Nat} (hn : 0 < num) (hd : 0 < den) :
    logRatio num den = Int.log 2 ((num : ℚ) / den) := by
  have pos : (0 : ℚ) < (num : ℚ) / den :=
    div_pos (by exact_mod_cast hn) (by exact_mod_cast hd)
  set estimate : Int := (num.log2 : Int) - den.log2 with he
  obtain ⟨low, high⟩ := ratio_between hn hd he
  have lowLog := (Int.zpow_le_iff_le_log (by norm_num : 1 < 2) pos).mp low.le
  have highLog := (Int.lt_zpow_iff_log_lt (by norm_num : 1 < 2) pos).mp high
  have test := div_lt_zpow_iff (by norm_num : 0 < 2) num hd estimate
  have testLog := Int.lt_zpow_iff_log_lt (by norm_num : 1 < 2) pos (x := estimate)
  -- The estimate is at most one too large, which the comparison with the power finds out.
  unfold logRatio
  rw [← he]
  dsimp only
  split
  · rename_i h
    have := testLog.mp (test.mpr h)
    omega
  · rename_i h
    have := mt testLog.mpr (mt test.mp h)
    omega

private theorem nearestCode_congr {num den num' den' : Nat} (hn : 0 < num) (hd : 0 < den)
    (hd' : 0 < den')
    (h : num * den' = num' * den) : nearestCode num den = nearestCode num' den' := by
  have hn' : 0 < num' := Nat.pos_of_mul_pos_right (h ▸ Nat.mul_pos hn hd')
  have value : (num : ℚ) / den = num' / den' := by
    rw [div_eq_div_iff (by exact_mod_cast hd.ne') (by exact_mod_cast hd'.ne')]
    exact_mod_cast h
  have log : logRatio num den = logRatio num' den' := by
    rw [logRatio_eq_log hn hd, logRatio_eq_log hn' hd', value]
  rw [nearestCode_eq rfl, nearestCode_eq rfl, log]
  congr 1
  apply roundDiv_congr (Nat.mul_pos hd (Nat.two_pow_pos _)) (Nat.mul_pos hd' (Nat.two_pow_pos _))
  rw [← Nat.mul_assoc, ← Nat.mul_assoc, h]

theorem ofRatio_congr (negative : Bool) {num den num' den' : Nat} (hd : 0 < den) (hd' : 0 < den')
    (h : num * den' = num' * den) : ofRatio negative num den = ofRatio negative num' den' := by
  have zeros : num = 0 ↔ num' = 0 := by
    constructor
    · rintro rfl
      rw [Nat.zero_mul] at h
      exact (Nat.mul_eq_zero.mp h.symm).resolve_right hd.ne'
    · rintro rfl
      rw [Nat.zero_mul] at h
      exact (Nat.mul_eq_zero.mp h).resolve_right hd'.ne'
  by_cases hn : num = 0
  · simp only [ofRatio, hn, zeros.mp hn, if_true]
  · have code : nearestCode (num * unitsPerOne) den = nearestCode (num' * unitsPerOne) den' := by
      refine nearestCode_congr ?_ hd hd' ?_
      · exact Nat.mul_pos (Nat.pos_of_ne_zero hn) unitsPerOne_pos
      · rw [Nat.mul_right_comm, h, Nat.mul_right_comm]
    simp only [ofRatio, if_neg hn, if_neg (mt zeros.mpr hn), code]

theorem ofRatio_zero (negative : Bool) (den : Nat) : ofRatio negative 0 den = zero negative := by
  simp [ofRatio, zero, magnitudes]

theorem ofRatio_eq_finite {num den : Nat} {code : Fin magnitudes}
    (h : ofRatio false num den = .finite false code) (negative : Bool) :
    ofRatio negative num den = .finite negative code := by
  unfold ofRatio at h ⊢
  dsimp only at h ⊢
  generalize (if num = 0 then 0 else nearestCode (num * unitsPerOne) den) = c at h ⊢
  by_cases hc : c < magnitudes
  · rw [dif_pos hc] at h ⊢
    cases h
    rfl
  · rw [dif_neg hc] at h
    cases h

private theorem logRatio_one {n : Nat} (hn : 0 < n) : logRatio n 1 = n.log2 := by
  have hle : 2 ^ n.log2 ≤ n := Nat.log2_self_le hn.ne'
  have h1 : Nat.log2 1 = 0 := by decide
  simp only [logRatio, h1]
  rw [if_neg]
  · simp
  · simpa using hle

private theorem nearestCode_unitsOfCode {code : Nat} (pos : 0 < code) :
    nearestCode (unitsOfCode code) 1 = code := by
  rw [unitsOfCode_eq]
  split
  · -- subnormal: no binary digit is cut off
    rename_i small
    have hl : code.log2 < 52 := (Nat.log2_lt pos.ne').mpr small
    have shift : (logRatio code 1 - 52).toNat = 0 := by rw [logRatio_one pos]; omega
    simp [nearestCode_eq shift, roundDiv_one]
  · rename_i large
    set k := code / 2 ^ 52 - 1 with hk
    have hr : code % 2 ^ 52 < 2 ^ 52 := Nat.mod_lt _ (Nat.two_pow_pos 52)
    have mantissa : 0 < 2 ^ 52 + code % 2 ^ 52 := by omega
    have whole : 0 < (2 ^ 52 + code % 2 ^ 52) * 2 ^ k := Nat.mul_pos mantissa (Nat.two_pow_pos k)
    have hl : ((2 ^ 52 + code % 2 ^ 52) * 2 ^ k).log2 = 52 + k := by
      rw [Nat.log2_eq_iff whole.ne', Nat.pow_add, Nat.add_right_comm, Nat.pow_add]
      exact ⟨Nat.mul_le_mul_right _ (by omega),
        Nat.mul_lt_mul_of_pos_right (by omega) (Nat.two_pow_pos k)⟩
    have shift : (logRatio ((2 ^ 52 + code % 2 ^ 52) * 2 ^ k) 1 - 52).toNat = k := by
      rw [logRatio_one whole, hl]
      omega
    have cut : roundDiv ((2 ^ 52 + code % 2 ^ 52) * 2 ^ k) (1 * 2 ^ k) = 2 ^ 52 + code % 2 ^ 52 := by
      rw [Nat.mul_comm _ (2 ^ k), Nat.mul_comm 1 (2 ^ k), roundDiv_mul_left (Nat.two_pow_pos k),
        roundDiv_one]
    rw [nearestCode_eq shift, cut]
    have := Nat.div_add_mod code (2 ^ 52)
    omega

theorem ofRatio_units (negative : Bool) (code : Fin magnitudes) {num den : Nat} (hd : 0 < den)
    (h : num * unitsPerOne = unitsOfCode code * den) :
    ofRatio negative num den = .finite negative code := by
  by_cases hc : code.val = 0
  · have noUnits : unitsOfCode code = 0 := by simp [hc, unitsOfCode]
    rw [noUnits, Nat.zero_mul] at h
    have hn : num = 0 := (Nat.mul_eq_zero.mp h).resolve_right unitsPerOne_pos.ne'
    have hz : code = ⟨0, by decide⟩ := Fin.ext hc
    rw [hn, hz, ofRatio_zero, zero]
  · have pos := Nat.pos_of_ne_zero hc
    have whole : 0 < unitsOfCode code := by
      rw [unitsOfCode_eq]
      split
      · exact pos
      · exact Nat.mul_pos (by omega) (Nat.two_pow_pos _)
    have hn : num ≠ 0 := by
      rintro rfl
      rw [Nat.zero_mul] at h
      exact (Nat.mul_pos whole hd).ne h
    have nearest : nearestCode (num * unitsPerOne) den = code := by
      rw [nearestCode_congr (Nat.mul_pos (Nat.pos_of_ne_zero hn) unitsPerOne_pos) hd Nat.one_pos
        ((Nat.mul_one _).trans h), nearestCode_unitsOfCode pos]
    simp only [ofRatio, if_neg hn, nearest]
    rw [dif_pos code.isLt]

private theorem units_div (num den : Nat) :
    ((num * unitsPerOne : Nat) : ℚ) / den = (num : ℚ) / den * 2 ^ (1074 : Int) := by
  rw [Nat.cast_mul, cast_unitsPerOne, mul_div_right_comm]

theorem ofRatio_of_small (negative : Bool) {num den : Nat} (hd : 0 < den)
    (h : (num : ℚ) / den < 2 ^ (-1075 : Int)) : ofRatio negative num den = zero negative := by
  by_cases hn : num = 0
  · rw [hn, ofRatio_zero]
  have whole : 0 < num * unitsPerOne := Nat.mul_pos (Nat.pos_of_ne_zero hn) unitsPerOne_pos
  have pos : (0 : ℚ) < ((num * unitsPerOne : Nat) : ℚ) / den :=
    div_pos (by exact_mod_cast whole) (by exact_mod_cast hd)
  have low : ((num * unitsPerOne : Nat) : ℚ) / den < 2 ^ (-1 : Int) := by
    rw [units_div, show (-1 : Int) = -1075 + 1074 from rfl, zpow_add₀ two_ne_zero]
    exact mul_lt_mul_of_pos_right h (by positivity)
  have log : Int.log 2 (((num * unitsPerOne : Nat) : ℚ) / den) < -1 :=
    (Int.lt_zpow_iff_log_lt (by norm_num) pos).mp low
  rw [← logRatio_eq_log whole hd] at log
  have shift : (logRatio (num * unitsPerOne) den - 52).toNat = 0 := by omega
  have half := (div_lt_zpow_iff (by norm_num : 0 < 2) (num * unitsPerOne) hd (-1)).mp
    (by exact_mod_cast low)
  have code : nearestCode (num * unitsPerOne) den = 0 := by
    rw [nearestCode_eq shift, pow_zero, mul_one,
      roundDiv_eq_zero (by simpa [mul_comm] using half), Nat.zero_mul]
  simp only [ofRatio, if_neg hn, code]
  rw [dif_pos (by decide)]
  rfl

private theorem roundDiv_le {num den k : Nat} (hd : 0 < den) (h : num ≤ k * den) :
    roundDiv num den ≤ k := by
  have below : num / den ≤ k := Nat.div_le_of_le_mul (by rwa [Nat.mul_comm])
  by_cases same : num / den = k
  · have whole : num % den = 0 := by
      have split := Nat.div_add_mod num den
      rw [same, Nat.mul_comm] at split
      omega
    have exact : roundDiv num den = num / den := by simp [roundDiv, whole, hd]
    exact exact.le.trans same.le
  · have := roundDiv_eq_or num den
    omega

-- The exponent is given by an equation, so that no power of it is computed.
private theorem exists_unitsPerOne_eq : ∃ e, e = 1074 ∧ unitsPerOne = 2 ^ e := by
  unfold unitsPerOne
  generalize 1074 = e
  exact ⟨e, rfl, Nat.pow_eq⟩

theorem le_roundDiv {num den k : Nat} (hd : 0 < den) (h : k * den ≤ num) : k ≤ roundDiv num den := by
  have below : k ≤ num / den := (Nat.le_div_iff_mul_le hd).mpr h
  have := roundDiv_eq_or num den
  omega

private theorem lt_roundDiv_iff {num den k : Nat} (hd : 0 < den) (odd : k % 2 = 1) :
    k < roundDiv num den ↔ (2 * k + 1) * den ≤ 2 * num := by
  have split := Nat.div_add_mod num den
  have rest := Nat.mod_lt num hd
  have near := roundDiv_eq_or num den
  have wide : (2 * k + 1) * den = 2 * (den * k) + den := by ring
  rcases Nat.lt_trichotomy (num / den) k with below | same | above
  · have short : den * (num / den + 1) ≤ den * k := Nat.mul_le_mul_left den below
    rw [Nat.mul_add_one] at short
    omega
  · have even : ¬ k % 2 = 0 := by omega
    simp only [roundDiv, same, if_neg even] at split ⊢
    split_ifs <;> omega
  · have long : den * (k + 1) ≤ den * (num / den) := Nat.mul_le_mul_left den above
    rw [Nat.mul_add_one] at long
    omega

/-- Rounded to so many binary digits, a quotient is a code. The last code that is taken for a finite number
has 53 digits, all of them ones, so a quotient halfway to the next one is rounded up. -/
theorem nearestCode_lt_magnitudes_iff {num den : Nat} (hn : 0 < num) (hd : 0 < den) :
    nearestCode num den < magnitudes ↔
      (num : ℚ) / den < (2 ^ (53 : Int) - 1 / 2) * 2 ^ (2045 : Int) := by
  have hd' : (0 : ℚ) < den := by exact_mod_cast hd
  have pos : (0 : ℚ) < (num : ℚ) / den := div_pos (by exact_mod_cast hn) hd'
  have all : magnitudes = 2047 * 2 ^ 52 := rfl
  set log := Int.log 2 ((num : ℚ) / den) with hlog
  have low : (2 : ℚ) ^ log ≤ num / den := Int.zpow_log_le_self one_lt_two pos
  have high : (num : ℚ) / den < 2 ^ (log + 1) := Int.lt_zpow_succ_log_self one_lt_two _
  -- The number of digits cut off is given by an equation, so that no power of it is computed.
  obtain ⟨shift, hshift⟩ : ∃ shift, (logRatio num den - 52).toNat = shift := ⟨_, rfl⟩
  rw [nearestCode_eq hshift]
  rw [logRatio_eq_log hn hd, ← hlog] at hshift
  have unit : 0 < den * 2 ^ shift := Nat.mul_pos hd (Nat.two_pow_pos shift)
  have cut : roundDiv num (den * 2 ^ shift) ≤ 2 ^ 53 := by
    have bound : (num : ℚ) / den < 2 ^ ((53 : Nat) + shift : Int) :=
      high.trans_le (zpow_le_zpow_right₀ one_le_two (by omega))
    exact roundDiv_le unit ((div_lt_two_zpow_iff num hd 53 shift).mp bound).le
  -- At the last binary exponent it depends on the rounded digits; elsewhere both sides are decided.
  rcases lt_trichotomy log 2097 with below | same | above
  · have few : shift * 2 ^ 52 ≤ 2044 * 2 ^ 52 := Nat.mul_le_mul_right _ (by omega)
    refine iff_of_true (by omega) ?_
    calc (num : ℚ) / den < 2 ^ (log + 1) := high
      _ ≤ 2 ^ (52 + 2045 : Int) := zpow_le_zpow_right₀ one_le_two (by omega)
      _ = 2 ^ (52 : Int) * 2 ^ (2045 : Int) := zpow_add₀ two_ne_zero _ _
      _ ≤ (2 ^ (53 : Int) - 1 / 2) * 2 ^ (2045 : Int) :=
          mul_le_mul_of_nonneg_right (by norm_num) (by positivity)
  · have exponent : shift = 2045 := by omega
    have power : (2 : ℚ) ^ (2045 : Int) = 2 ^ shift := by
      rw [exponent]
      rfl
    have code : shift * 2 ^ 52 + roundDiv num (den * 2 ^ shift) < magnitudes ↔
        ¬ 2 ^ 53 - 1 < roundDiv num (den * 2 ^ shift) := by omega
    have half : (2 ^ (53 : Int) - 1 / 2 : ℚ) * 2 ^ shift * den =
        ((2 * (2 ^ 53 - 1) + 1) * (den * 2 ^ shift) : Nat) / 2 := by
      push_cast
      norm_num
      ring
    rw [code, lt_roundDiv_iff unit (by norm_num), Nat.not_le, power, div_lt_iff₀ hd', half,
      lt_div_iff₀ two_pos, mul_comm (num : ℚ)]
    exact_mod_cast Iff.rfl
  · refine iff_of_false ?_ (not_lt.mpr ?_)
    · have bound : (2 : ℚ) ^ ((52 : Nat) + shift : Int) ≤ num / den :=
        (zpow_le_zpow_right₀ one_le_two (by omega)).trans low
      have reach : 2 ^ 52 ≤ roundDiv num (den * 2 ^ shift) :=
        le_roundDiv unit (not_lt.mp (mt (div_lt_two_zpow_iff num hd 52 shift).mpr (not_lt.mpr bound)))
      have many : 2046 * 2 ^ 52 ≤ shift * 2 ^ 52 := Nat.mul_le_mul_right _ (by omega)
      omega
    · calc (2 ^ (53 : Int) - 1 / 2) * (2 : ℚ) ^ (2045 : Int) ≤ 2 ^ (53 : Int) * 2 ^ (2045 : Int) :=
            mul_le_mul_of_nonneg_right (by norm_num) (by positivity)
        _ = 2 ^ (53 + 2045 : Int) := (zpow_add₀ two_ne_zero _ _).symm
        _ ≤ 2 ^ log := zpow_le_zpow_right₀ one_le_two (by omega)
        _ ≤ num / den := low

private theorem overflow_eq :
    (2 : ℚ) ^ (1024 : Int) - 2 ^ (970 : Int) = 2 ^ (970 : Int) * (2 ^ (54 : Int) - 1) := by
  have split : (2 : ℚ) ^ (1024 : Int) = 2 ^ (970 : Int) * 2 ^ (54 : Int) := by
    rw [← zpow_add₀ two_ne_zero]
    rfl
  rw [mul_sub, ← split, mul_one]

/-- A quotient is rounded to a finite number just if it lies below the middle between the greatest finite
number and the next power of two. -/
theorem isFinite_ofRatio_iff (negative : Bool) (num : Nat) {den : Nat} (hd : 0 < den) :
    (ofRatio negative num den).isFinite = true ↔
      (num : ℚ) / den < 2 ^ (1024 : Int) - 2 ^ (970 : Int) := by
  rw [overflow_eq]
  by_cases hn : num = 0
  · have pos : (0 : ℚ) < 2 ^ (970 : Int) * (2 ^ (54 : Int) - 1) :=
      mul_pos (by positivity) (by norm_num)
    rw [hn, ofRatio_zero, Nat.cast_zero, zero_div]
    exact iff_of_true rfl pos
  have whole : 0 < num * unitsPerOne := Nat.mul_pos (Nat.pos_of_ne_zero hn) unitsPerOne_pos
  have finite : (ofRatio negative num den).isFinite = true ↔
      nearestCode (num * unitsPerOne) den < magnitudes := by
    simp only [ofRatio, if_neg hn]
    split
    · rename_i code
      exact iff_of_true rfl code
    · rename_i code
      exact iff_of_false Bool.false_ne_true code
  have units : (2 ^ (53 : Int) - 1 / 2 : ℚ) * 2 ^ (2045 : Int) =
      2 ^ (970 : Int) * (2 ^ (54 : Int) - 1) * 2 ^ (1074 : Int) := by
    have split : (2 : ℚ) ^ (2045 : Int) = 2 ^ (970 : Int) * (2 * 2 ^ (1074 : Int)) := by
      rw [← zpow_one_add₀ two_ne_zero, ← zpow_add₀ two_ne_zero]
      rfl
    rw [split]
    generalize (2 : ℚ) ^ (970 : Int) = a
    generalize (2 : ℚ) ^ (1074 : Int) = b
    norm_num
    ring
  rw [finite, nearestCode_lt_magnitudes_iff whole hd, units_div, units,
    mul_lt_mul_iff_left₀ (by positivity)]

theorem ofRatio_of_large (negative : Bool) {num den : Nat} (hd : 0 < den)
    (h : (2 : ℚ) ^ (1025 : Int) ≤ (num : ℚ) / den) : ofRatio negative num den = .infinite negative := by
  have overflow : ¬ (ofRatio negative num den).isFinite = true := by
    rw [isFinite_ofRatio_iff negative num hd, not_lt]
    calc (2 : ℚ) ^ (1024 : Int) - 2 ^ (970 : Int) ≤ 2 ^ (1024 : Int) :=
          sub_le_self _ (by positivity)
      _ ≤ 2 ^ (1025 : Int) := zpow_le_zpow_right₀ one_le_two (by decide)
      _ ≤ (num : ℚ) / den := h
  unfold ofRatio at overflow ⊢
  dsimp only at overflow ⊢
  generalize (if num = 0 then 0 else nearestCode (num * unitsPerOne) den) = code at overflow ⊢
  by_cases hc : code < magnitudes
  · rw [dif_pos hc] at overflow
    exact absurd rfl overflow
  · rw [dif_neg hc]

private theorem isFinite_ofRatio_of_le (negative : Bool) {n : Nat} (h : n ≤ 2 ^ 52) :
    (ofRatio negative n 1).isFinite = true := by
  rw [isFinite_ofRatio_iff negative n Nat.one_pos, Nat.cast_one, div_one]
  calc (n : ℚ) ≤ 2 ^ (52 : Int) := by exact_mod_cast h
    _ ≤ 2 ^ (970 : Int) := zpow_le_zpow_right₀ one_le_two (by decide)
    _ < 2 ^ (970 : Int) * (2 ^ (54 : Int) - 1) :=
        lt_mul_of_one_lt_right (by positivity) (by norm_num)
    _ = 2 ^ (1024 : Int) - 2 ^ (970 : Int) := overflow_eq.symm

/-- The nearest whole number of a finite number is finite. A magnitude so large that its whole numbers
are not all magnitudes is a whole number itself. -/
theorem isFinite_round {x : Binary64} (h : x.isFinite = true) : x.round.isFinite = true := by
  cases x with
  | infinite negative => cases h
  | nan => cases h
  | finite negative code =>
    obtain ⟨e, he, one⟩ := exists_unitsPerOne_eq
    have units := unitsOfCode_eq code
    set n := roundDiv (unitsOfCode code) unitsPerOne with hn
    have rounded : (finite negative code).round =
        ofRatio (decide ((if negative then -(n : Int) else n) < 0)) n 1 := by
      have size : (if negative then -(n : Int) else (n : Int)).natAbs = n := by
        split
        · rw [Int.natAbs_neg, Int.natAbs_natCast]
        · rw [Int.natAbs_natCast]
      simp only [round, ofInt, ← hn, size]
    rw [rounded]
    set exponent := code.val / 2 ^ 52 - 1 with hexponent
    -- A magnitude beyond all fractions is whole and stays as it is. Any other one is at most `2 ^ 52`,
    -- and so is what it is rounded to.
    by_cases large : e ≤ exponent
    · have big : ¬ code.val < 2 ^ 52 := by omega
      set whole := (2 ^ 52 + code.val % 2 ^ 52) * 2 ^ (exponent - e) with hwhole
      have split : unitsOfCode code = unitsPerOne * whole := by
        rw [units, if_neg big, hwhole, one, Nat.mul_left_comm, ← Nat.pow_add, Nat.add_sub_cancel' large]
      have exact : n * unitsPerOne = unitsOfCode code * 1 := by
        have same : n = whole := by
          have unscaled := roundDiv_mul_left unitsPerOne_pos whole 1
          rwa [Nat.mul_one, roundDiv_one, ← split] at unscaled
        rw [Nat.mul_one, split, same, Nat.mul_comm]
      rw [ofRatio_units _ code Nat.one_pos exact]
      rfl
    · refine isFinite_ofRatio_of_le _ (roundDiv_le unitsPerOne_pos ?_)
      have small : unitsOfCode code ≤ 2 ^ 53 * 2 ^ (e - 1) := by
        rw [units]
        split
        · rename_i low
          rw [← Nat.pow_add]
          exact low.le.trans (Nat.pow_le_pow_right (by decide) (by omega))
        · have mantissa : code.val % 2 ^ 52 < 2 ^ 52 := Nat.mod_lt _ (Nat.two_pow_pos 52)
          exact Nat.mul_le_mul (by omega) (Nat.pow_le_pow_right (by decide) (by omega))
      calc unitsOfCode code ≤ 2 ^ 53 * 2 ^ (e - 1) := small
        _ = 2 ^ 52 * 2 ^ e := by
            have same : 53 + (e - 1) = 52 + e := by omega
            rw [← Nat.pow_add, ← Nat.pow_add, same]
        _ = 2 ^ 52 * unitsPerOne := by rw [one]

end Binary64

end SmallScheme
