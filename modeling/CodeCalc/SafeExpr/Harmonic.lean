import CodeCalc.Lib.Harmonic
import CodeCalc.SafeExpr.Growth

/-! The bound on a `harmonic` call that stands inside another bounded call. -/
namespace CodeCalc.SafeExpr
open Lib

section Admission

theorem boundedPositions_harmonic :
    boundedPositions "harmonic" = [(0, ⟨.value, maxHeavyArg⟩), (1, ⟨.value, maxHeavyArg⟩)] := by
  decide +kernel

variable {name : String} {args : List ℚ}

theorem not_overCap_of_checkPositions {positions : List (ℕ × Cap)}
    (admitted : checkPositions name args positions = none) (position : ℕ) {cap : Cap} {arg : ℚ}
    (bounded : (position, cap) ∈ positions) (given : args[position]? = some arg) :
    overCap cap arg = false := by
  induction positions with
  | nil => cases bounded
  | cons first rest ih =>
    obtain ⟨firstPosition, firstCap⟩ := first
    simp only [checkPositions] at admitted
    rcases List.mem_cons.mp bounded with same | bounded
    · obtain ⟨rfl, rfl⟩ := Prod.mk.inj same
      simp only [given] at admitted
      split at admitted
      · cases admitted
      · split at admitted
        · cases admitted
        case isFalse under => simpa using under
    · split at admitted
      · exact ih admitted bounded
      · split at admitted
        · cases admitted
        · split at admitted
          · cases admitted
          · exact ih admitted bounded

theorem overCap_eq_false_iff {limit : ℕ} (positive : 0 < limit) {arg : ℚ} :
    overCap ⟨.value, limit⟩ arg = false ↔ decoded arg ≤ limit := by
  have pos : (0 : ℝ) < limit := by exact_mod_cast positive
  have power : (10 : ℝ) ^ log10 limit = limit := Real.rpow_logb (by norm_num) (by norm_num) pos
  rw [← ten_rpow_encoded, ← power, Real.rpow_le_rpow_left_iff (by norm_num)]
  simp [overCap]

theorem safePow10_of_not_overCap {arg : ℚ} (under : overCap ⟨.value, maxHeavyArg⟩ arg = false) :
    safePow10 (some (encoded arg)) = some (decoded arg) := by
  have small := (overCap_eq_false_iff (by decide)).mp under
  have cap : ((maxHeavyArg : ℕ) : ℝ) ≤ 10 ^ (50 : ℕ) := by norm_num [maxHeavyArg]
  rw [safePow10_encoded, if_neg (not_lt.mpr (small.trans cap))]

end Admission

section Bound

/-- The formula does not look at the second argument. -/
theorem tableFunctionBound_harmonic {n : ℕ} {m : ℚ} {bound : Option ℝ} (positive : 1 ≤ n)
    (admitted : tableFunctionBound "harmonic" growthHarmonic [(n : ℚ), m] = .bound bound) :
    bound = some (if n = 1 then 1 else log10 (Real.log n + 1)) := by
  unfold tableFunctionBound at admitted
  cases checked : checkPositions "harmonic" [(n : ℚ), m] (boundedPositions "harmonic") with
  | some text => rw [checked] at admitted; cases admitted
  | none =>
    simp only [checked, Bounded.bound.injEq] at admitted
    rw [boundedPositions_harmonic] at checked
    have first := safePow10_of_not_overCap
      (not_overCap_of_checkPositions checked 0 (by simp) rfl)
    have second := safePow10_of_not_overCap
      (not_overCap_of_checkPositions checked 1 (by simp) rfl)
    have one : (1 : ℝ) ≤ n := by exact_mod_cast positive
    rw [decoded_natCast, max_eq_right one] at first
    have bounds (position : ℕ) (small : position < 2) :
        collected "harmonic" [(n : ℚ), m] position =
          (([(n : ℚ), m].map encoded)[position]?) := by
      unfold collected encodedAll
      rw [boundedPositions_harmonic, if_pos (by simp; omega)]
    rw [← admitted, growthHarmonic, bounds 0 (by decide), bounds 1 (by decide)]
    simp only [List.map_cons, List.map_nil, List.getElem?_cons_zero, List.getElem?_cons_succ, first,
      second, Option.bind_some, Option.map_some, if_neg (decoded_pos m).ne']
    rcases Nat.lt_or_ge 1 n with large | small
    · have large' : (1 : ℝ) < n := by exact_mod_cast large
      have log := Real.log_pos large'
      rw [if_neg (not_le.mpr large'), if_pos (by linarith : 1 < Real.log n + 1),
        if_neg (by omega : n ≠ 1)]
    · have same : n = 1 := by omega
      simp [same]

/-- An admitted call is bounded just when its second argument is at least a
number between a half and one that only the first argument fixes, or there is a
single term. -/
theorem harmonic_bound_iff {n : ℕ} (positive : 1 ≤ n) :
    ∃ τ : ℝ, 1 / 2 < τ ∧ τ < 1 ∧ (2 ≤ n → generalizedHarmonic n τ = Real.log n + 1) ∧
      ∀ (m : ℚ) (bound : Option ℝ), 0 ≤ m →
        tableFunctionBound "harmonic" growthHarmonic [(n : ℚ), m] = .bound bound →
        (Covers bound (generalizedHarmonic n m) ↔ n = 1 ∨ τ ≤ m) := by
  rcases Nat.lt_or_ge 1 n with large | small
  · obtain ⟨τ, lower, upper, meets, within⟩ := exists_harmonic_threshold large
    refine ⟨τ, lower, upper, fun _ => meets, fun m bound _ admitted => ?_⟩
    have single : n ≠ 1 := by omega
    have log : 0 < Real.log n := Real.log_pos (by exact_mod_cast large)
    rw [tableFunctionBound_harmonic positive admitted, if_neg single, or_iff_right single,
      ← within]
    simp only [Covers, Option.some.injEq, forall_eq', abs_of_nonneg (generalizedHarmonic_nonneg n m),
      log10, Real.rpow_logb (show (0 : ℝ) < 10 by norm_num) (by norm_num)
        (by linarith : 0 < Real.log n + 1)]
  · have same : n = 1 := by omega
    subst same
    refine ⟨3 / 4, by norm_num, by norm_num, fun large => absurd large (by decide),
      fun m bound _ admitted => ?_⟩
    rw [tableFunctionBound_harmonic positive admitted, generalizedHarmonic_first]
    simp [Covers]

/-- Both arguments up to the cap are let through. -/
theorem tableFunctionBound_admits {n : ℕ} {m : ℚ} (small : n ≤ maxHeavyArg) (nonneg : 0 ≤ m)
    (capped : m ≤ maxHeavyArg) :
    ∃ bound, tableFunctionBound "harmonic" growthHarmonic [(n : ℚ), m] = .bound bound := by
  have first : overCap ⟨.value, maxHeavyArg⟩ (n : ℚ) = false := by
    rw [overCap_eq_false_iff (by decide), decoded_natCast]
    exact max_le (by norm_num [maxHeavyArg]) (by exact_mod_cast small)
  have second : overCap ⟨.value, maxHeavyArg⟩ m = false := by
    rw [overCap_eq_false_iff (by decide), decoded]
    split
    · norm_num [maxHeavyArg]
    · rw [abs_of_nonneg (by exact_mod_cast nonneg)]
      exact_mod_cast capped
  have domains : (nonnegativeDomainPositions.lookup "harmonic").getD [] = [1] := by decide +kernel
  have checked : checkPositions "harmonic" [(n : ℚ), m] (boundedPositions "harmonic") = none := by
    simp [boundedPositions_harmonic, checkPositions, domainViolation, domains, first, second,
      not_lt.mpr nonneg]
  exact ⟨_, by rw [tableFunctionBound, checked]⟩

/-- A second argument of one is bounded, as in the classical case. -/
theorem harmonic_bound_classical :
    ∃ bound, tableFunctionBound "harmonic" growthHarmonic [((2 : ℕ) : ℚ), 1] = .bound bound ∧
      Covers bound (generalizedHarmonic 2 1) := by
  obtain ⟨bound, admitted⟩ := tableFunctionBound_admits (n := 2) (m := 1) (by decide)
    (by norm_num) (by norm_num [maxHeavyArg])
  obtain ⟨τ, _, upper, _, exactly⟩ := harmonic_bound_iff (n := 2) (by decide)
  have covers := (exactly 1 bound (by norm_num) admitted).mpr (.inr (by exact_mod_cast upper.le))
  exact ⟨bound, admitted, by exact_mod_cast covers⟩

/-- `harmonic(2, 0)` is 2, and the bound is `log 2 + 1`. -/
theorem harmonic_zero_unbounded :
    ∃ bound, tableFunctionBound "harmonic" growthHarmonic [((2 : ℕ) : ℚ), 0] = .bound bound ∧
      ¬ Covers bound (generalizedHarmonic 2 (0 : ℚ)) := by
  obtain ⟨bound, admitted⟩ := tableFunctionBound_admits (n := 2) (m := 0) (by decide) le_rfl
    (by norm_num [maxHeavyArg])
  refine ⟨bound, admitted, fun covers => ?_⟩
  have two : generalizedHarmonic 2 (0 : ℚ) = 2 := by norm_num [generalizedHarmonic]
  have log := Real.log_two_lt_d9
  have below := covers _ (tableFunctionBound_harmonic (by decide) admitted)
  rw [two, if_neg (by decide), log10, Real.rpow_logb (by norm_num) (by norm_num)
    (by positivity)] at below
  norm_num at below log
  linarith

end Bound
end CodeCalc.SafeExpr
