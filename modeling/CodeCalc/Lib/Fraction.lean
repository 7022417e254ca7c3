import Mathlib.Algebra.Order.Round
import Mathlib.Data.Rat.Floor
import Mathlib.Algebra.Order.Archimedean.Real.Basic
import Mathlib.Tactic.FieldSimp
import Mathlib.Tactic.Linarith

/-! Exact rationals with Python's integer-valued operations, computed on the
numerator and the denominator the way the `fractions` module does, and what
these operations are on the real numbers. -/
namespace CodeCalc.Lib.Fraction

/-- `a // b`. -/
def floorDiv (a b : ℚ) : ℤ := (a.num * b.den).fdiv (a.den * b.num)

/-- `a % b`. -/
def modulo (a b : ℚ) : ℚ := ((a.num * b.den).fmod (b.num * a.den) : ℤ) / ((a.den * b.den : ℕ) : ℚ)

/-- `math.floor(a)`. -/
def floor (a : ℚ) : ℤ := a.num.fdiv a.den

/-- `math.ceil(a)`. -/
def ceil (a : ℚ) : ℤ := -((-a.num).fdiv a.den)

/-- `math.trunc(a)` and `int(a)`. -/
def trunc (a : ℚ) : ℤ := if a.num < 0 then -((-a.num).fdiv a.den) else a.num.fdiv a.den

/-- `round(a)`: to the nearest integer, a tie to the even one. -/
def round (a : ℚ) : ℤ :=
  let floor := a.num.fdiv a.den
  let remainder := a.num.fmod a.den
  if remainder * 2 < a.den then floor
  else if a.den < remainder * 2 then floor + 1
  else if floor.fmod 2 = 0 then floor
  else floor + 1

/-- `a ** n` for an integer `n`. -/
def power (a : ℚ) (n : ℤ) : ℚ :=
  if 0 ≤ n then a ^ n.toNat else a⁻¹ ^ (-n).toNat

/-- The nearest integer to a real number, the even one of two. -/
noncomputable def nearestEven (x : ℝ) : ℤ :=
  if Int.fract x < 1 / 2 then ⌊x⌋
  else if 1 / 2 < Int.fract x then ⌊x⌋ + 1
  else if Even ⌊x⌋ then ⌊x⌋
  else ⌊x⌋ + 1

/-- The integer part of a real number, towards zero. -/
noncomputable def towardsZero (x : ℝ) : ℤ := if x < 0 then ⌈x⌉ else ⌊x⌋

section Floor

theorem fdiv_den (a : ℚ) : a.num.fdiv a.den = ⌊a⌋ := by
  have hden : (0 : ℤ) ≤ a.den := by omega
  rw [Int.fdiv_eq_ediv_of_nonneg _ hden]
  conv_rhs => rw [← Rat.num_div_den a]
  exact (Rat.floor_intCast_div_natCast a.num a.den).symm

theorem floor_eq (a : ℚ) : floor a = ⌊(a : ℝ)⌋ := by
  rw [floor, fdiv_den, Rat.floor_cast]

theorem ceil_eq (a : ℚ) : ceil a = ⌈(a : ℝ)⌉ := by
  have hneg := fdiv_den (-a)
  rw [Rat.neg_num, Rat.neg_den] at hneg
  rw [ceil, hneg, Int.floor_neg, neg_neg, Rat.ceil_cast]

theorem trunc_eq (a : ℚ) : trunc a = towardsZero a := by
  unfold trunc towardsZero
  by_cases h : a.num < 0
  · have hneg : (a : ℝ) < 0 := by exact_mod_cast Rat.num_neg.mp h
    rw [if_pos h, if_pos hneg]
    exact ceil_eq a
  · have hnonneg : ¬ (a : ℝ) < 0 := by
      intro hneg
      apply h
      apply Rat.num_neg.mpr
      exact_mod_cast hneg
    rw [if_neg h, if_neg hnonneg]
    exact floor_eq a

theorem fmod_den (a : ℚ) : ((a.num.fmod a.den : ℤ) : ℚ) = a.den * Int.fract a := by
  have hsplit : a.num.fmod a.den = a.num - a.den * a.num.fdiv a.den := Int.fmod_def _ _
  have hnum : (a.den : ℚ) * a = a.num := Rat.den_mul_eq_num a
  rw [hsplit, fdiv_den, Int.fract, mul_sub, hnum]
  push_cast
  rfl

end Floor

section Division

variable {a b : ℚ}

private theorem quotient_eq (hb : b ≠ 0) :
    a / b = ((a.num * b.den : ℤ) : ℚ) / ((a.den * b.num : ℤ) : ℚ) := by
  have ha : (a.den : ℚ) ≠ 0 := by exact_mod_cast a.den_nz
  have hbden : (b.den : ℚ) ≠ 0 := by exact_mod_cast b.den_nz
  have hbnum : (b.num : ℚ) ≠ 0 := by exact_mod_cast Rat.num_ne_zero.mpr hb
  conv_lhs => rw [← Rat.num_div_den a, ← Rat.num_div_den b]
  push_cast
  field_simp

theorem fdiv_eq_floor (m n : ℤ) : m.fdiv n = ⌊(m : ℚ) / n⌋ := by
  obtain ⟨k, rfl | rfl⟩ := Int.eq_nat_or_neg n
  · rw [Int.fdiv_eq_ediv_of_nonneg _ (by omega), Int.cast_natCast]
    exact (Rat.floor_intCast_div_natCast m k).symm
  · have hflip : (m : ℚ) / ((-(k : ℤ) : ℤ) : ℚ) = ((-m : ℤ) : ℚ) / (k : ℚ) := by
      push_cast
      rw [div_neg, neg_div]
    rw [hflip, Rat.floor_intCast_div_natCast, ← Int.neg_fdiv_neg, neg_neg,
      Int.fdiv_eq_ediv_of_nonneg _ (by omega)]

theorem floorDiv_eq (hb : b ≠ 0) : floorDiv a b = ⌊(a : ℝ) / b⌋ := by
  have hcast : ((a / b : ℚ) : ℝ) = (a : ℝ) / b := by push_cast; rfl
  rw [floorDiv, fdiv_eq_floor, ← quotient_eq hb, ← hcast, Rat.floor_cast]

theorem modulo_eq (hb : b ≠ 0) : modulo a b = a - b * ⌊a / b⌋ := by
  have ha : (a.den : ℚ) ≠ 0 := by exact_mod_cast a.den_nz
  have hbden : (b.den : ℚ) ≠ 0 := by exact_mod_cast b.den_nz
  have hcomm : b.num * (a.den : ℤ) = a.den * b.num := mul_comm _ _
  rw [modulo, Int.fmod_def, hcomm, fdiv_eq_floor, ← quotient_eq hb]
  conv_rhs => enter [1]; rw [← Rat.num_div_den a]
  conv_rhs => enter [2, 1]; rw [← Rat.num_div_den b]
  push_cast
  field_simp

end Division

section Rounding

theorem round_eq (a : ℚ) : round a = nearestEven a := by
  have hden : (0 : ℚ) < a.den := by exact_mod_cast a.den_pos
  have hfract : Int.fract (a : ℝ) = ((Int.fract a : ℚ) : ℝ) := by
    rw [Int.fract, Int.fract, Rat.floor_cast]
    push_cast
    rfl
  have hhalf : (1 / 2 : ℝ) = ((1 / 2 : ℚ) : ℝ) := by norm_num
  have below : a.num.fmod a.den * 2 < a.den ↔ Int.fract (a : ℝ) < 1 / 2 := by
    have hcast : a.num.fmod a.den * 2 < a.den ↔ (a.den : ℚ) * Int.fract a * 2 < a.den := by
      rw [← fmod_den]
      exact_mod_cast Iff.rfl
    rw [hcast, hfract, hhalf, Rat.cast_lt]
    constructor
    · intro h
      nlinarith
    · intro h
      nlinarith
  have above : (a.den : ℤ) < a.num.fmod a.den * 2 ↔ 1 / 2 < Int.fract (a : ℝ) := by
    have hcast : (a.den : ℤ) < a.num.fmod a.den * 2 ↔ (a.den : ℚ) < a.den * Int.fract a * 2 := by
      rw [← fmod_den]
      exact_mod_cast Iff.rfl
    rw [hcast, hfract, hhalf, Rat.cast_lt]
    constructor
    · intro h
      nlinarith
    · intro h
      nlinarith
  have even : a.num.fdiv a.den % 2 = 0 ↔ Even ⌊(a : ℝ)⌋ := by
    rw [fdiv_den, Rat.floor_cast, Int.even_iff]
  unfold round nearestEven
  simp only [Int.fmod_eq_emod_of_nonneg _ (show (0 : ℤ) ≤ 2 by omega), below, above, even]
  rw [fdiv_den, Rat.floor_cast]

theorem power_eq (a : ℚ) (n : ℤ) : power a n = a ^ n := by
  unfold power
  by_cases h : 0 ≤ n
  · rw [if_pos h, ← zpow_natCast, Int.toNat_of_nonneg h]
  · rw [if_neg h, ← zpow_natCast, Int.toNat_of_nonneg (by omega), inv_zpow', neg_neg]

end Rounding

end CodeCalc.Lib.Fraction
