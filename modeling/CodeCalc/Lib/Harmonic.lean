import Mathlib.Analysis.Complex.ExponentialBounds
import Mathlib.Analysis.SpecialFunctions.Pow.Continuity
import Mathlib.NumberTheory.Harmonic.Bounds

/-! The generalised harmonic numbers against `log n + 1`: the sum falls as its
exponent grows, and meets the bound at one exponent between a half and one. -/
namespace CodeCalc.Lib

section Sum

noncomputable def generalizedHarmonic (n : ℕ) (t : ℝ) : ℝ :=
  ∑ k ∈ Finset.range n, ((k : ℝ) + 1) ^ (-t)

variable {n : ℕ}

theorem generalizedHarmonic_succ (n : ℕ) (t : ℝ) :
    generalizedHarmonic (n + 1) t = generalizedHarmonic n t + ((n : ℝ) + 1) ^ (-t) :=
  Finset.sum_range_succ _ n

theorem generalizedHarmonic_nonneg (n : ℕ) (t : ℝ) : 0 ≤ generalizedHarmonic n t :=
  Finset.sum_nonneg fun k _ => Real.rpow_nonneg (by positivity) _

@[simp] theorem generalizedHarmonic_first (t : ℝ) : generalizedHarmonic 1 t = 1 := by
  simp [generalizedHarmonic]

theorem generalizedHarmonic_one (n : ℕ) : generalizedHarmonic n 1 = harmonic n := by
  simp [generalizedHarmonic, harmonic, Real.rpow_neg_one]

theorem continuous_generalizedHarmonic (n : ℕ) : Continuous (generalizedHarmonic n) := by
  unfold generalizedHarmonic
  refine continuous_finsetSum _ fun k _ => ?_
  exact Continuous.rpow continuous_const continuous_neg fun _ => .inl (by positivity)

/-- The second term falls strictly, and no term rises. -/
theorem strictAnti_generalizedHarmonic (large : 2 ≤ n) : StrictAnti (generalizedHarmonic n) := by
  intro s t less
  refine Finset.sum_lt_sum (fun k _ => ?_) ⟨1, Finset.mem_range.mpr large, ?_⟩
  · exact Real.rpow_le_rpow_of_exponent_le (by linarith [Nat.cast_nonneg (α := ℝ) k]) (by linarith)
  · exact Real.rpow_lt_rpow_of_exponent_lt (by norm_num) (by linarith)

end Sum

section Threshold

variable {n : ℕ}

theorem log_succ_sub_log_lt (positive : 0 < n) :
    1 / ((n : ℝ) + 1) < Real.log (n + 1) - Real.log n := by
  have pos : (0 : ℝ) < n := by exact_mod_cast positive
  have below : Real.log (n / (n + 1)) < n / (n + 1) - 1 :=
    Real.log_lt_sub_one_of_pos (by positivity) (by
      rw [ne_eq, div_eq_one_iff_eq (by positivity)]
      linarith)
  rw [Real.log_div pos.ne' (by positivity)] at below
  have gap : (n : ℝ) / (n + 1) - 1 = -(1 / (n + 1)) := by field_simp; ring
  linarith

/-- The classical bound, strictly below it from the second number on. -/
theorem generalizedHarmonic_one_lt (large : 2 ≤ n) :
    generalizedHarmonic n 1 < Real.log n + 1 := by
  obtain ⟨n, rfl⟩ := Nat.exists_eq_add_of_le' large
  have previous : generalizedHarmonic (n + 1) 1 ≤ 1 + Real.log (n + 1 : ℕ) := by
    rw [generalizedHarmonic_one]
    exact harmonic_le_one_add_log (n + 1)
  have step := log_succ_sub_log_lt (n := n + 1) (Nat.succ_pos n)
  rw [show n + 2 = n + 1 + 1 by rfl, generalizedHarmonic_succ, Real.rpow_neg_one, ← one_div]
  push_cast at previous step ⊢
  linarith

theorem log_succ_sub_log_le (positive : 0 < n) :
    Real.log (n + 1) - Real.log n ≤ 1 / (n : ℝ) := by
  have pos : (0 : ℝ) < n := by exact_mod_cast positive
  rw [← Real.log_div (by positivity) pos.ne']
  have below := Real.log_le_sub_one_of_pos (show (0 : ℝ) < (n + 1) / n by positivity)
  have gap : ((n : ℝ) + 1) / n - 1 = 1 / n := by field_simp; ring
  linarith

/-- The square roots outgrow the logarithm at once. -/
theorem lt_generalizedHarmonic_half (large : 2 ≤ n) :
    Real.log n + 1 < generalizedHarmonic n (1 / 2) := by
  induction n, large using Nat.le_induction with
  | base =>
    have two : (0.7 : ℝ) < (1 + 1) ^ (-(1 / 2) : ℝ) := by
      rw [Real.rpow_neg (by norm_num), ← Real.sqrt_eq_rpow,
        lt_inv_comm₀ (by norm_num) (by positivity), Real.sqrt_lt' (by norm_num)]
      norm_num
    have log := Real.log_two_lt_d9
    have sum : generalizedHarmonic 2 (1 / 2) = 1 + (1 + 1) ^ (-(1 / 2) : ℝ) := by
      rw [show (2 : ℕ) = 1 + 1 from rfl, generalizedHarmonic_succ, generalizedHarmonic_first,
        Nat.cast_one]
    rw [sum, Nat.cast_ofNat]
    linarith
  | succ n large ih =>
    have pos : (0 : ℝ) < n := by exact_mod_cast (by omega : 0 < n)
    have step := log_succ_sub_log_le (n := n) (by omega)
    have square : Real.sqrt (n + 1) ≤ n := by
      rw [Real.sqrt_le_left pos.le]
      have two : (2 : ℝ) ≤ n := by exact_mod_cast large
      nlinarith
    have term : 1 / (n : ℝ) ≤ ((n : ℝ) + 1) ^ (-(1 / 2) : ℝ) := by
      rw [Real.rpow_neg (by positivity), ← Real.sqrt_eq_rpow, one_div]
      exact inv_anti₀ (by positivity) square
    rw [generalizedHarmonic_succ]
    push_cast
    linarith

/-- The exponents at which the sum is within the bound are those from one
exponent on. -/
theorem exists_harmonic_threshold (large : 2 ≤ n) :
    ∃ τ : ℝ, 1 / 2 < τ ∧ τ < 1 ∧ generalizedHarmonic n τ = Real.log n + 1 ∧
      ∀ t, generalizedHarmonic n t ≤ Real.log n + 1 ↔ τ ≤ t := by
  have falls := strictAnti_generalizedHarmonic large
  have meets : Real.log n + 1 ∈ generalizedHarmonic n '' Set.Ioo (1 / 2 : ℝ) 1 :=
    intermediate_value_Ioo' (by norm_num) (continuous_generalizedHarmonic n).continuousOn
      ⟨generalizedHarmonic_one_lt large, lt_generalizedHarmonic_half large⟩
  obtain ⟨τ, between, meets⟩ := meets
  exact ⟨τ, between.1, between.2, meets, fun t => by rw [← meets, falls.le_iff_ge]⟩

end Threshold
end CodeCalc.Lib
