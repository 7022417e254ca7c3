import Mathlib.Analysis.SpecialFunctions.Pow.Complex
import Mathlib.Analysis.SpecialFunctions.Pow.Real
import Mathlib.FieldTheory.AlgebraicClosure
import Mathlib.NumberTheory.NumberField.House

/-! Bounds on algebraic numbers that survive sums, products and roots: an
algebraic integer bounded with all its conjugates, a quotient of two such, and
what such a quotient says of a rational number. -/
namespace CodeCalc.Lib

noncomputable abbrev AlgebraicNumber := algebraicClosure ℚ ℂ

instance : Algebra.IsAlgebraic ℚ AlgebraicNumber := algebraicClosure.isAlgebraic ℚ ℂ

section Conjugates

/-- An algebraic integer none of whose conjugates is larger than the bound. -/
structure HouseLE (z : ℂ) (bound : ℝ) : Prop where
  integral : IsIntegral ℤ z
  conjugates (a : AlgebraicNumber) (σ : AlgebraicNumber →ₐ[ℚ] ℂ) : (a : ℂ) = z → ‖σ a‖ ≤ bound

variable {z w : ℂ} {bound other : ℝ}

namespace HouseLE

theorem exists_number (h : IsIntegral ℤ z) : ∃ a : AlgebraicNumber, (a : ℂ) = z := by
  have algebraic : IsAlgebraic ℚ z := (h.tower_top (A := ℚ)).isAlgebraic
  exact ⟨⟨z, mem_algebraicClosure_iff.mpr algebraic⟩, rfl⟩

theorem mono (h : HouseLE z bound) (le : bound ≤ other) : HouseLE z other :=
  ⟨h.integral, fun a σ same => (h.conjugates a σ same).trans le⟩

theorem int (n : ℤ) : HouseLE (n : ℂ) |(n : ℝ)| := by
  refine ⟨isIntegral_algebraMap, fun a σ same => ?_⟩
  have number : a = (n : AlgebraicNumber) := by
    apply Subtype.ext
    rw [same]
    norm_cast
  rw [number, map_intCast]
  exact (Complex.norm_intCast n).le

theorem add (left : HouseLE z bound) (right : HouseLE w other) :
    HouseLE (z + w) (bound + other) := by
  refine ⟨left.integral.add right.integral, fun c σ same => ?_⟩
  obtain ⟨a, ha⟩ := exists_number left.integral
  obtain ⟨b, hb⟩ := exists_number right.integral
  have sum : c = a + b := Subtype.ext (by push_cast; rw [same, ha, hb])
  rw [sum, map_add]
  calc ‖σ a + σ b‖ ≤ ‖σ a‖ + ‖σ b‖ := norm_add_le _ _
    _ ≤ bound + other := add_le_add (left.conjugates a σ ha) (right.conjugates b σ hb)

theorem mul (left : HouseLE z bound) (right : HouseLE w other) :
    HouseLE (z * w) (bound * other) := by
  refine ⟨left.integral.mul right.integral, fun c σ same => ?_⟩
  obtain ⟨a, ha⟩ := exists_number left.integral
  obtain ⟨b, hb⟩ := exists_number right.integral
  have product : c = a * b := Subtype.ext (by push_cast; rw [same, ha, hb])
  have hleft := left.conjugates a σ ha
  rw [product, map_mul, norm_mul]
  exact mul_le_mul hleft (right.conjugates b σ hb) (norm_nonneg _) ((norm_nonneg _).trans hleft)

theorem nonneg (h : HouseLE z bound) : 0 ≤ bound := by
  obtain ⟨a, ha⟩ := exists_number h.integral
  exact (norm_nonneg _).trans (h.conjugates a (algebraicClosure ℚ ℂ).val ha)

theorem pow (h : HouseLE z bound) (n : ℕ) : HouseLE (z ^ n) (bound ^ n) := by
  induction n with
  | zero => simpa using HouseLE.int 1
  | succ n ih => simpa only [pow_succ] using ih.mul h

theorem exists_conjugate_one_le (integral : IsIntegral ℤ z) (nonzero : z ≠ 0) :
    ∃ (a : AlgebraicNumber) (σ : AlgebraicNumber →ₐ[ℚ] ℂ), (a : ℂ) = z ∧ 1 ≤ ‖σ a‖ := by
  obtain ⟨a, rfl⟩ := exists_number integral
  have overRationals : IsIntegral ℚ (a : ℂ) := integral.tower_top
  let field := IntermediateField.adjoin ℚ {(a : ℂ)}
  have : FiniteDimensional ℚ field := IntermediateField.adjoin.finiteDimensional overRationals
  have : NumberField field := {}
  let generator : field := IntermediateField.AdjoinSimple.gen ℚ (a : ℂ)
  have gen_integral : IsIntegral ℤ generator := by
    rw [← isIntegral_algebraMap_iff (algebraMap field ℂ).injective]
    exact integral
  have gen_nonzero : (⟨generator, gen_integral⟩ : NumberField.RingOfIntegers field) ≠ 0 := by
    intro zero
    apply nonzero
    have gen_zero : generator = 0 := congrArg Subtype.val zero
    exact congrArg Subtype.val gen_zero
  obtain ⟨τ, hτ⟩ := NumberField.exists_conjugate_one_le_norm gen_nonzero
  have root : τ generator ∈ (minpoly ℚ a).rootSet ℂ := by
    rw [Polynomial.mem_rootSet]
    refine ⟨minpoly.ne_zero (Algebra.IsIntegral.isIntegral a), ?_⟩
    have same : minpoly ℚ a = minpoly ℚ generator :=
      (minpoly.algebraMap_eq (algebraMap AlgebraicNumber ℂ).injective a).symm.trans
        (IntermediateField.minpoly_gen ℚ (a : ℂ)).symm
    rw [same]
    have image := Polynomial.aeval_algHom_apply τ.toRatAlgHom generator (minpoly ℚ generator)
    rw [minpoly.aeval, map_zero] at image
    exact image
  rw [← Algebra.IsAlgebraic.range_eval_eq_rootSet_minpoly] at root
  obtain ⟨σ, hσ⟩ := root
  refine ⟨a, σ, rfl, ?_⟩
  simp only at hσ
  rw [hσ]
  exact hτ

end HouseLE
end Conjugates

section Quotients

/-- A quotient of two algebraic integers, each bounded with its conjugates. -/
def Ratio (z : ℂ) (num den : ℝ) : Prop :=
  ∃ α β : ℂ, β ≠ 0 ∧ z * β = α ∧ HouseLE α num ∧ HouseLE β den

variable {z w : ℂ} {num den num' den' : ℝ}

namespace Ratio

theorem mono (h : Ratio z num den) (hnum : num ≤ num') (hden : den ≤ den') :
    Ratio z num' den' := by
  obtain ⟨α, β, nonzero, quotient, top, bottom⟩ := h
  exact ⟨α, β, nonzero, quotient, top.mono hnum, bottom.mono hden⟩

theorem int (n : ℤ) : Ratio (n : ℂ) |(n : ℝ)| 1 :=
  ⟨n, 1, one_ne_zero, mul_one _, .int n, by simpa using HouseLE.int 1⟩

theorem nonneg (h : Ratio z num den) : 0 ≤ num ∧ 0 ≤ den := by
  obtain ⟨_, _, _, _, top, bottom⟩ := h
  exact ⟨top.nonneg, bottom.nonneg⟩

theorem mul (left : Ratio z num den) (right : Ratio w num' den') :
    Ratio (z * w) (num * num') (den * den') := by
  obtain ⟨α, β, nonzero, quotient, top, bottom⟩ := left
  obtain ⟨α', β', nonzero', quotient', top', bottom'⟩ := right
  refine ⟨α * α', β * β', mul_ne_zero nonzero nonzero', ?_, top.mul top', bottom.mul bottom'⟩
  rw [← quotient, ← quotient']
  ring

theorem add (left : Ratio z num den) (right : Ratio w num' den') :
    Ratio (z + w) (num * den' + num' * den) (den * den') := by
  obtain ⟨α, β, nonzero, quotient, top, bottom⟩ := left
  obtain ⟨α', β', nonzero', quotient', top', bottom'⟩ := right
  refine ⟨α * β' + α' * β, β * β', mul_ne_zero nonzero nonzero', ?_,
    (top.mul bottom').add (top'.mul bottom), bottom.mul bottom'⟩
  rw [← quotient, ← quotient']
  ring

theorem inv (h : Ratio z num den) (nonzero : z ≠ 0) : Ratio z⁻¹ den num := by
  obtain ⟨α, β, den_nonzero, quotient, top, bottom⟩ := h
  refine ⟨β, α, ?_, ?_, bottom, top⟩
  · rw [← quotient]
    exact mul_ne_zero nonzero den_nonzero
  · rw [← quotient, inv_mul_cancel_left₀ nonzero]

theorem pow (h : Ratio z num den) (n : ℕ) : Ratio (z ^ n) (num ^ n) (den ^ n) := by
  obtain ⟨α, β, nonzero, quotient, top, bottom⟩ := h
  refine ⟨α ^ n, β ^ n, pow_ne_zero n nonzero, ?_, top.pow n, bottom.pow n⟩
  rw [← mul_pow, quotient]

theorem one_le_den (h : Ratio z num den) : 1 ≤ den := by
  obtain ⟨_, β, nonzero, _, _, bottom⟩ := h
  obtain ⟨b, σ, hb, one_le⟩ := HouseLE.exists_conjugate_one_le bottom.integral nonzero
  exact one_le.trans (bottom.conjugates b σ hb)

/-- The two sides of a fraction in lowest terms divide those of any quotient of
algebraic integers that has its value. -/
theorem sides_le {q : ℚ} (h : Ratio (q : ℂ) num den) :
    |(q.num : ℝ)| ≤ num ∧ (q.den : ℝ) ≤ den := by
  obtain ⟨α, β, nonzero, quotient, top, bottom⟩ := h
  have den_nonzero : (q.den : ℂ) ≠ 0 := Nat.cast_ne_zero.mpr q.den_nz
  have value : (q : ℂ) = q.num / q.den := by exact_mod_cast (Rat.num_div_den q).symm
  have beta : (q.den : ℂ) * (β / q.den) = β := mul_div_cancel₀ β den_nonzero
  have alpha : (q.num : ℂ) * (β / q.den) = α := by
    rw [← quotient, value]
    ring
  -- Bézout makes the common part an algebraic integer.
  have bezout := Int.gcd_eq_gcd_ab q.num q.den
  rw [show Int.gcd q.num q.den = 1 from q.reduced] at bezout
  have one : (q.num : ℂ) * (q.num.gcdA q.den : ℂ) + (q.den : ℂ) * (q.num.gcdB q.den : ℂ) = 1 := by
    exact_mod_cast bezout.symm
  have common : β / q.den = (q.num.gcdA q.den : ℂ) * α + (q.num.gcdB q.den : ℂ) * β := by
    calc β / q.den = ((q.num : ℂ) * (q.num.gcdA q.den : ℂ) +
          (q.den : ℂ) * (q.num.gcdB q.den : ℂ)) * (β / q.den) := by rw [one, one_mul]
      _ = (q.num.gcdA q.den : ℂ) * ((q.num : ℂ) * (β / q.den)) +
          (q.num.gcdB q.den : ℂ) * ((q.den : ℂ) * (β / q.den)) := by ring
      _ = _ := by rw [alpha, beta]
  have integral : IsIntegral ℤ (β / q.den) := by
    rw [common]
    exact ((HouseLE.int _).integral.mul top.integral).add
      ((HouseLE.int _).integral.mul bottom.integral)
  obtain ⟨c, σ, hc, one_le⟩ :=
    HouseLE.exists_conjugate_one_le integral (div_ne_zero nonzero den_nonzero)
  constructor
  · have conjugate := top.conjugates (q.num * c) σ (by push_cast; rw [hc, alpha])
    rw [map_mul, map_intCast, norm_mul, Complex.norm_intCast] at conjugate
    exact (le_mul_of_one_le_right (abs_nonneg _) one_le).trans conjugate
  · have conjugate := bottom.conjugates (q.den * c) σ (by push_cast; rw [hc, beta])
    rw [map_mul, map_natCast, norm_mul, Complex.norm_natCast] at conjugate
    exact (le_mul_of_one_le_right (Nat.cast_nonneg _) one_le).trans conjugate

theorem zero (hnum : 0 ≤ num) (hden : 1 ≤ den) : Ratio 0 num den := by
  have unit := Ratio.int 0
  simp only [Int.cast_zero, abs_zero] at unit
  exact unit.mono hnum hden

theorem prod {ι : Type} (items : List ι) (value : ι → ℂ) (top bottom : ι → ℝ)
    (each : ∀ item ∈ items, Ratio (value item) (top item) (bottom item)) :
    Ratio (items.map value).prod (items.map top).prod (items.map bottom).prod := by
  induction items with
  | nil => simpa using Ratio.int 1
  | cons item items ih =>
    simp only [List.map_cons, List.prod_cons]
    exact (each item List.mem_cons_self).mul
      (ih fun other member => each other (List.mem_cons_of_mem _ member))

/-- Over the product of the denominators each numerator is scaled by those of
the other terms. -/
theorem sum {ι : Type} (items : List ι) (value : ι → ℂ) (top : ℝ) (bottom : ι → ℝ)
    (each : ∀ item ∈ items, Ratio (value item) top (bottom item)) :
    Ratio (items.map value).sum (items.length * top * (items.map bottom).prod)
      (items.map bottom).prod := by
  induction items with
  | nil => simpa using Ratio.int 0
  | cons item items ih =>
    have head := each item List.mem_cons_self
    have tail := ih fun other member => each other (List.mem_cons_of_mem _ member)
    simp only [List.map_cons, List.sum_cons, List.prod_cons, List.length_cons]
    refine (head.add tail).mono ?_ le_rfl
    have product_nonneg := tail.nonneg.2
    have grown := mul_le_mul_of_nonneg_left head.one_le_den
      (mul_nonneg head.nonneg.1 product_nonneg)
    push_cast
    linarith

end Ratio
end Quotients
end CodeCalc.Lib
