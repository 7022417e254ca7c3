import Mathlib.Data.Int.Log
import CodeCalc.Lib.ShortestDecimal

/-! Decimal rounding: to a number of significant digits, and to a number of
places behind the point.  A number survives both exactly when it has few enough
of either. -/
namespace CodeCalc.Lib.Decimal

variable {digits places : ℕ} {value : ℚ}

def lastPlace (digits : ℕ) (value : ℚ) : ℤ := Int.log 10 |value| - digits + 1

/-- A number to so many significant digits; a tie goes to the even one. -/
def significant (digits : ℕ) (value : ℚ) : ℚ :=
  roundHalfEven (value / 10 ^ lastPlace digits value) * 10 ^ lastPlace digits value

/-- A number to so many places behind the point, as a multiple of the last one. -/
def fixed (places : ℕ) (value : ℚ) : ℤ := roundHalfEven (value * 10 ^ places)

/-- The number has at most so many significant digits and places. -/
def Short (digits places : ℕ) (value : ℚ) : Prop :=
  ∃ coefficient place : ℤ, |coefficient| < 10 ^ digits ∧ -places ≤ place ∧
    value = coefficient * 10 ^ place

theorem zpow_integer {exponent : ℤ} (nonnegative : 0 ≤ exponent) :
    (10 : ℚ) ^ exponent = ((10 ^ exponent.toNat : ℤ) : ℚ) := by
  conv_lhs => rw [← Int.toNat_of_nonneg nonnegative]
  rw [zpow_natCast]
  push_cast
  rfl

theorem significant_eq_self {coefficient place : ℤ} (few : |coefficient| < 10 ^ digits)
    (same : value = coefficient * 10 ^ place) : significant digits value = value := by
  have unit : (0 : ℚ) < 10 ^ lastPlace digits value := by positivity
  obtain ⟨count, whole⟩ : ∃ count : ℤ, value / 10 ^ lastPlace digits value = count := by
    by_cases zero : value = 0
    · exact ⟨0, by rw [zero, zero_div, Int.cast_zero]⟩
    have below : (10 : ℚ) ^ Int.log 10 |value| < 10 ^ (digits + place) := by
      have low := Int.zpow_log_le_self (b := 10) (by decide) (abs_pos.mpr zero)
      have high : |value| < 10 ^ (digits + place) := by
        rw [same, abs_mul, abs_of_pos (by positivity : (0 : ℚ) < 10 ^ place), zpow_add₀ (by norm_num),
          zpow_natCast]
        have few : |(coefficient : ℚ)| < 10 ^ digits := by exact_mod_cast few
        gcongr
      exact_mod_cast low.trans_lt high
    have finer : 0 ≤ place - lastPlace digits value := by
      have := (zpow_lt_zpow_iff_right₀ (by norm_num : (1 : ℚ) < 10)).mp below
      rw [lastPlace]
      omega
    refine ⟨coefficient * 10 ^ (place - lastPlace digits value).toNat, ?_⟩
    rw [Int.cast_mul, ← zpow_integer finer, zpow_sub₀ (by norm_num), ← mul_div_assoc, ← same]
  rw [significant, whole, roundHalfEven_intCast, ← whole, div_mul_cancel₀ _ unit.ne']

/-- Rounding leaves at most the digits asked for, or a power of ten. -/
theorem abs_coefficient_le (digits : ℕ) (value : ℚ) :
    |roundHalfEven (value / 10 ^ lastPlace digits value)| ≤ 10 ^ digits := by
  have unit : (0 : ℚ) < 10 ^ lastPlace digits value := by positivity
  have bound : |value / 10 ^ lastPlace digits value| ≤ ((10 ^ digits : ℤ) : ℚ) := by
    rw [abs_div, abs_of_pos unit, div_le_iff₀ unit]
    have high := (Int.lt_zpow_succ_log_self (b := 10) (by decide) |value|).le
    refine high.trans (le_of_eq ?_)
    rw [Int.cast_pow, Int.cast_ofNat, ← zpow_natCast, ← zpow_add₀ (by norm_num), lastPlace]
    push_cast
    congr 1
    ring
  obtain ⟨low, high⟩ := abs_le.mp bound
  rw [abs_le]
  constructor
  · apply le_roundHalfEven
    push_cast at low ⊢
    exact low
  · exact roundHalfEven_le high

theorem significant_eq (digits : ℕ) (value : ℚ) : ∃ coefficient place : ℤ,
    |coefficient| ≤ 10 ^ digits ∧ significant digits value = coefficient * 10 ^ place :=
  ⟨_, lastPlace digits value, abs_coefficient_le digits value, rfl⟩

/-- Rounding goes at most up to the next power of ten. -/
theorem abs_significant_le (digits : ℕ) (value : ℚ) :
    |significant digits value| ≤ 10 ^ (Int.log 10 |value| + 1) := by
  have unit : (0 : ℚ) < 10 ^ lastPlace digits value := by positivity
  have few : |(roundHalfEven (value / 10 ^ lastPlace digits value) : ℚ)| ≤ 10 ^ digits := by
    exact_mod_cast abs_coefficient_le digits value
  calc |significant digits value|
      = |(roundHalfEven (value / 10 ^ lastPlace digits value) : ℚ)| * 10 ^ lastPlace digits value := by
        rw [significant, abs_mul, abs_of_pos unit]
    _ ≤ 10 ^ digits * 10 ^ lastPlace digits value := by gcongr
    _ = 10 ^ (Int.log 10 |value| + 1) := by
        rw [← zpow_natCast, ← zpow_add₀ (by norm_num), lastPlace]
        congr 1
        ring

theorem fixed_eq {count : ℤ} (same : value * 10 ^ places = count) : fixed places value = count := by
  rw [fixed, same, roundHalfEven_intCast]

/-- A number that both roundings leave alone is short. -/
theorem short_of_fixed (some_digit : 0 < digits)
    (kept : (fixed places (significant digits value) : ℚ) = value * 10 ^ places) :
    Short digits places value := by
  obtain ⟨coefficient, place, few, rounded⟩ := significant_eq digits value
  have unit : (0 : ℚ) < 10 ^ places := by positivity
  have back : value = fixed places (significant digits value) * 10 ^ (-(places : ℤ)) := by
    rw [kept, zpow_neg, zpow_natCast, mul_inv_cancel_right₀ unit.ne']
  by_cases coarse : -(places : ℤ) ≤ place
  · -- nothing is lost behind the point, so the significant digits are the number's
    have whole : significant digits value * 10 ^ places =
        ((coefficient * 10 ^ (place + places).toNat : ℤ) : ℚ) := by
      rw [Int.cast_mul, ← zpow_integer (by omega), zpow_add₀ (by norm_num), zpow_natCast, rounded,
        mul_assoc]
    have same : value = coefficient * 10 ^ place := by
      rw [fixed_eq whole, ← whole] at kept
      rw [← rounded]
      exact (mul_right_cancel₀ unit.ne' kept).symm
    rcases few.lt_or_eq with fewer | full
    · exact ⟨coefficient, place, fewer, coarse, same⟩
    · refine ⟨coefficient.sign, place + digits, ?_, by omega, ?_⟩
      · have nonzero : coefficient ≠ 0 := by
          intro zero
          rw [zero, abs_zero] at full
          exact (pow_pos (by norm_num) digits).ne full
        rw [Int.abs_sign_of_ne_zero nonzero]
        exact one_lt_pow₀ (by norm_num) some_digit.ne'
      · rw [same, zpow_add₀ (by norm_num), zpow_natCast]
        conv_lhs => rw [← Int.sign_mul_abs coefficient, full]
        push_cast
        ring
  · refine ⟨_, -places, ?_, le_rfl, back⟩
    have small : |significant digits value * 10 ^ places| ≤ ((10 ^ (digits - 1) : ℤ) : ℚ) := by
      have few : |(coefficient : ℚ)| ≤ 10 ^ digits := by exact_mod_cast few
      calc |significant digits value * 10 ^ places|
          = |(coefficient : ℚ)| * 10 ^ (place + places) := by
            rw [rounded, mul_assoc, ← zpow_natCast (10 : ℚ) places, ← zpow_add₀ (by norm_num), abs_mul,
              abs_of_pos (by positivity : (0 : ℚ) < 10 ^ (place + (places : ℤ)))]
        _ ≤ 10 ^ digits * 10 ^ (-1 : ℤ) := by
            gcongr
            · norm_num
            · omega
        _ = ((10 ^ (digits - 1) : ℤ) : ℚ) := by
            rw [← zpow_natCast, ← zpow_add₀ (by norm_num)]
            push_cast
            rw [← zpow_natCast, Nat.cast_sub some_digit]
            rfl
    obtain ⟨low, high⟩ := abs_le.mp small
    have bound : |fixed places (significant digits value)| ≤ 10 ^ (digits - 1) := by
      rw [abs_le]
      constructor
      · apply le_roundHalfEven
        push_cast at low ⊢
        exact low
      · exact roundHalfEven_le high
    exact bound.trans_lt (pow_lt_pow_right₀ (by norm_num) (by omega))

theorem Short.significant_eq (short : Short digits places value) :
    significant digits value = value := by
  obtain ⟨coefficient, place, few, _, same⟩ := short
  exact significant_eq_self few same

theorem Short.multiple (short : Short digits places value) :
    ∃ count : ℤ, value * 10 ^ places = count := by
  obtain ⟨coefficient, place, _, fine, same⟩ := short
  refine ⟨coefficient * 10 ^ (place + places).toNat, ?_⟩
  rw [Int.cast_mul, ← zpow_integer (by omega), zpow_add₀ (by norm_num), zpow_natCast, same, mul_assoc]

/-- Both roundings leave a number alone exactly when it is short. -/
theorem fixed_significant_iff (some_digit : 0 < digits) :
    (fixed places (significant digits value) : ℚ) = value * 10 ^ places ↔ Short digits places value := by
  constructor
  · exact short_of_fixed some_digit
  · intro short
    obtain ⟨count, whole⟩ := short.multiple
    rw [short.significant_eq, fixed_eq whole, whole]

end CodeCalc.Lib.Decimal
