import Mathlib.Algebra.Order.Field.Power
import Mathlib.Data.List.Sort
import Mathlib.Data.Nat.Log
import Mathlib.Data.Rat.Floor
import Mathlib.Tactic.Linarith

/-! Rounding of exact values to double precision.  The doubles here have 53
significant bits and an exponent without bounds, which is the arithmetic of
every operation that neither overflows nor goes below the normal range. -/
namespace CodeCalc.Lib

section HalfEven

/-- The nearest integer, a tie going to the even one. -/
def roundHalfEven (value : ℚ) : ℤ :=
  let below := ⌊value⌋
  let excess := value - below
  if excess < 1 / 2 then below
  else if 1 / 2 < excess then below + 1
  else if below % 2 = 0 then below
  else below + 1

theorem abs_roundHalfEven_sub_le (value : ℚ) : |(roundHalfEven value : ℚ) - value| ≤ 1 / 2 := by
  have low : (⌊value⌋ : ℚ) ≤ value := Int.floor_le value
  have high : value < ⌊value⌋ + 1 := Int.lt_floor_add_one value
  unfold roundHalfEven
  dsimp only
  split_ifs with small large even
  · rw [abs_le]
    constructor <;> linarith
  · push_cast
    rw [abs_le]
    constructor <;> linarith
  · rw [abs_le]
    constructor <;> linarith
  · push_cast
    rw [abs_le]
    constructor <;> linarith

theorem roundHalfEven_natCast (value : ℕ) : roundHalfEven value = value := by
  simp [roundHalfEven]

theorem roundHalfEven_le {value : ℚ} {bound : ℤ} (below : value ≤ bound) :
    roundHalfEven value ≤ bound := by
  have low : (⌊value⌋ : ℚ) ≤ value := Int.floor_le value
  have floor : ⌊value⌋ ≤ bound := by exact_mod_cast low.trans below
  by_cases reached : ⌊value⌋ = bound
  · have same : value - ⌊value⌋ < 1 / 2 := by
      rw [reached]
      linarith
    rw [roundHalfEven, if_pos same]
    exact floor
  · have next : ⌊value⌋ + 1 ≤ bound := by omega
    rw [roundHalfEven]
    split_ifs <;> omega

end HalfEven

section Binary

/-- `2 ** exponent`. -/
def twoPow (exponent : ℤ) : ℚ :=
  if 0 ≤ exponent then 2 ^ exponent.toNat else 1 / 2 ^ (-exponent).toNat

theorem twoPow_eq_zpow (exponent : ℤ) : twoPow exponent = 2 ^ exponent := by
  unfold twoPow
  split_ifs with sign
  · rw [← zpow_natCast, Int.toNat_of_nonneg sign]
  · rw [← zpow_natCast, Int.toNat_of_nonneg (by omega), zpow_neg, one_div, inv_inv]

theorem twoPow_pos (exponent : ℤ) : 0 < twoPow exponent := by
  rw [twoPow_eq_zpow]
  positivity

def leadingExponent (value : ℚ) : ℤ :=
  let guess : ℤ := (Nat.log2 value.num.natAbs : ℤ) - Nat.log2 value.den
  if twoPow guess ≤ |value| then guess else guess - 1

theorem twoPow_leadingExponent_le {value : ℚ} (nonzero : value ≠ 0) :
    twoPow (leadingExponent value) ≤ |value| := by
  unfold leadingExponent
  dsimp only
  split_ifs with fits
  · exact fits
  · have numerator : (2 : ℚ) ^ Nat.log2 value.num.natAbs ≤ value.num.natAbs := by
      exact_mod_cast Nat.log2_self_le (by simpa using nonzero)
    have denominator : (value.den : ℚ) < 2 ^ (Nat.log2 value.den + 1) := by
      exact_mod_cast Nat.lt_log2_self
    have positive : (0 : ℚ) < value.den := by exact_mod_cast value.den_pos
    have split : |value| = value.num.natAbs / value.den := by
      conv_lhs => rw [← Rat.num_div_den value, abs_div, Nat.abs_cast]
      rw [Nat.cast_natAbs, Int.cast_abs]
    rw [split, twoPow_eq_zpow, le_div_iff₀ positive]
    calc (2 : ℚ) ^ ((Nat.log2 value.num.natAbs : ℤ) - Nat.log2 value.den - 1) * value.den
        ≤ 2 ^ ((Nat.log2 value.num.natAbs : ℤ) - Nat.log2 value.den - 1) *
            2 ^ (Nat.log2 value.den + 1) := by gcongr
      _ = 2 ^ Nat.log2 value.num.natAbs := by
          rw [← zpow_natCast, ← zpow_natCast, ← zpow_add₀ (by norm_num)]
          congr 1
          push_cast
          ring
      _ ≤ value.num.natAbs := numerator

def toDouble (value : ℚ) : ℚ :=
  if value = 0 then 0
  else
    let unit := twoPow (leadingExponent value - 52)
    roundHalfEven (value / unit) * unit

/-- Rounding does not pass one. -/
theorem toDouble_le_one {value : ℚ} (nonnegative : 0 ≤ value) (small : value ≤ 1) :
    toDouble value ≤ 1 := by
  unfold toDouble
  split_ifs with zero
  · norm_num
  · dsimp only
    have leading := twoPow_leadingExponent_le zero
    rw [abs_of_nonneg nonnegative] at leading
    have exponent : leadingExponent value ≤ 0 := by
      by_contra positive
      have large : (1 : ℚ) < twoPow (leadingExponent value) := by
        rw [twoPow_eq_zpow]
        exact one_lt_zpow₀ (by norm_num) (by omega)
      linarith
    have unitPos := twoPow_pos (leadingExponent value - 52)
    have whole : 1 / twoPow (leadingExponent value - 52) = ((2 ^ (52 - leadingExponent value).toNat : ℤ) : ℚ) := by
      rw [twoPow_eq_zpow, one_div, ← zpow_neg]
      push_cast
      rw [← zpow_natCast, Int.toNat_of_nonneg (by omega)]
      congr 1
      omega
    have rounded : roundHalfEven (value / twoPow (leadingExponent value - 52)) ≤
        2 ^ (52 - leadingExponent value).toNat := by
      apply roundHalfEven_le
      rw [← whole]
      gcongr
    calc (roundHalfEven (value / twoPow (leadingExponent value - 52)) : ℚ) *
          twoPow (leadingExponent value - 52)
        ≤ ((2 ^ (52 - leadingExponent value).toNat : ℤ) : ℚ) * twoPow (leadingExponent value - 52) := by
          gcongr
      _ = 1 := by
          rw [← whole]
          field_simp

/-- `left / right` of two integers. -/
def divideInts (left right : Nat) : ℚ := toDouble (left / right)

/-- `round(value, 2)`. -/
def roundTwo (value : ℚ) : ℚ := toDouble (roundHalfEven (100 * value) / 100)

/-- The middle of sorted values, two middle ones being averaged by `mean`. -/
def medianWith (mean : ℚ → ℚ → ℚ) (values : List ℚ) : ℚ :=
  let sorted := values.insertionSort (· ≤ ·)
  let half := sorted.length / 2
  if sorted.length % 2 = 1 then sorted.getD half 0
  else mean (sorted.getD (half - 1) 0) (sorted.getD half 0)

/-- `statistics.median` of floats. -/
def medianDouble (values : List ℚ) : ℚ :=
  medianWith (fun left right => toDouble (left + right) / 2) values

def median (values : List ℚ) : ℚ := medianWith (fun left right => (left + right) / 2) values

end Binary

end CodeCalc.Lib
