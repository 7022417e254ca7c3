import Mathlib.Algebra.Order.BigOperators.Ring.Finset
import Mathlib.Analysis.SpecialFunctions.Stirling
import Mathlib.Combinatorics.Derangements.Finite
import Mathlib.Combinatorics.Enumerative.Catalan.Basic
import Mathlib.Data.Nat.Choose.Bounds
import Mathlib.Data.Nat.Choose.Sum
import Mathlib.Data.Nat.Fib.Basic
import Mathlib.NumberTheory.PrimeCounting

/-! Upper bounds on counting sequences and on their polynomials at a point: the
factorial by Robbins' form of Stirling's formula, and linear recurrences by
powers. -/
namespace CodeCalc.Lib

section Factorial

open Filter

/-- The gap to the limit, less its own bound, only rises. -/
theorem stirling_gap_monotone :
    Monotone fun n : ℕ => Real.log (Stirling.stirlingSeq (n + 1)) - 1 / (12 * ((n : ℝ) + 1)) := by
  refine monotone_nat_of_le_succ fun n => ?_
  have step := Stirling.log_stirlingSeq_sdiff_le (n + 1)
  have telescope : 1 / (12 * ((n : ℝ) + 1) * ((n : ℝ) + 1 + 1)) =
      1 / (12 * ((n : ℝ) + 1)) - 1 / (12 * ((n : ℝ) + 1 + 1)) := by
    field_simp
    ring
  push_cast at step ⊢
  linarith

theorem log_stirlingSeq_le {n : ℕ} (positive : 0 < n) :
    Real.log (Stirling.stirlingSeq n) ≤ Real.log (Real.sqrt Real.pi) + 1 / (12 * n) := by
  obtain ⟨n, rfl⟩ := Nat.exists_eq_add_of_lt positive
  have root : Real.sqrt Real.pi ≠ 0 := (Real.sqrt_pos.mpr Real.pi_pos).ne'
  have main := (tendsto_add_atTop_iff_nat 1).mpr
    (Stirling.tendsto_stirlingSeq_sqrt_pi.log root)
  have rest : Tendsto (fun n : ℕ => 1 / (12 * ((n : ℝ) + 1))) atTop (nhds 0) := by
    have := (tendsto_one_div_add_atTop_nhds_zero_nat (𝕜 := ℝ)).const_mul (1 / 12)
    rw [mul_zero] at this
    refine this.congr fun n => ?_
    field_simp
  have limit := main.sub rest
  rw [sub_zero] at limit
  have below := stirling_gap_monotone.ge_of_tendsto limit n
  rw [zero_add]
  push_cast
  linarith

/-- Robbins' upper bound. -/
theorem log_factorial_le {n : ℕ} (positive : 0 < n) :
    Real.log n.factorial ≤
      n * Real.log n - n + 1 / 2 * Real.log (2 * Real.pi * n) + 1 / (12 * n) := by
  have pos : (0 : ℝ) < n := by exact_mod_cast positive
  have gap := log_stirlingSeq_le positive
  rw [Stirling.log_stirlingSeq_formula, Real.log_sqrt Real.pi_pos.le,
    Real.log_div pos.ne' (Real.exp_pos 1).ne', Real.log_exp,
    Real.log_mul two_ne_zero pos.ne'] at gap
  rw [mul_right_comm, Real.log_mul (by positivity) Real.pi_pos.ne',
    Real.log_mul two_ne_zero pos.ne']
  linarith

theorem numDerangements_le_factorial (n : ℕ) : numDerangements n ≤ n.factorial := by
  induction n using Nat.twoStepInduction with
  | zero => simp
  | one => simp
  | more n first second =>
    calc numDerangements (n + 2) = (n + 1) * (numDerangements n + numDerangements (n + 1)) := rfl
      _ ≤ (n + 1) * (n.factorial + (n + 1).factorial) :=
        Nat.mul_le_mul_left _ (Nat.add_le_add first second)
      _ = (n + 2).factorial := by
        simp only [Nat.factorial_succ]
        ring

end Factorial

section Counting

theorem primeCounting_le (n : ℕ) : n.primeCounting ≤ n := by
  induction n with
  | zero => simp
  | succ n ih =>
    have step : (n + 1).primeCounting = n.primeCounting + if (n + 1).Prime then 1 else 0 :=
      Nat.count_succ Nat.Prime (n + 1)
    split at step <;> omega

theorem catalan_le (n : ℕ) : catalan n ≤ 4 ^ n := by
  rw [catalan_eq_centralBinom_div]
  exact (Nat.div_le_self _ _).trans (Nat.centralBinom_le_four_pow n)

/-- Chords between `n` points of a circle that do not meet: the end points are
chosen, and joined in one of the Catalan many ways. -/
def motzkin (n : ℕ) : ℕ := ∑ k ∈ Finset.range (n / 2 + 1), n.choose (2 * k) * catalan k

theorem motzkin_le (n : ℕ) : motzkin n ≤ 3 ^ n := by
  have even : ∑ k ∈ Finset.range (n / 2 + 1), n.choose (2 * k) * 2 ^ (2 * k) =
      ∑ j ∈ (Finset.range (n / 2 + 1)).image (2 * ·), n.choose j * 2 ^ j := by
    rw [Finset.sum_image fun left _ right _ same => by simpa using same]
  have inside : (Finset.range (n / 2 + 1)).image (2 * ·) ⊆ Finset.range (n + 1) := by
    intro j member
    obtain ⟨k, small, rfl⟩ := Finset.mem_image.mp member
    have small := Finset.mem_range.mp small
    exact Finset.mem_range.mpr (by omega)
  calc motzkin n ≤ ∑ k ∈ Finset.range (n / 2 + 1), n.choose (2 * k) * 2 ^ (2 * k) := by
        refine Finset.sum_le_sum fun k _ => Nat.mul_le_mul_left _ ?_
        rw [pow_mul]
        exact catalan_le k
    _ ≤ ∑ j ∈ Finset.range (n + 1), n.choose j * 2 ^ j := by
        rw [even]
        exact Finset.sum_le_sum_of_subset inside
    _ = 3 ^ n := by
        have binomial := add_pow 2 1 n
        simp only [one_pow, mul_one] at binomial
        rw [show (3 : ℕ) ^ n = (2 + 1) ^ n by rfl, binomial]
        exact Finset.sum_congr rfl fun j _ => mul_comm _ _

def lucas : ℕ → ℕ
  | 0 => 2
  | 1 => 1
  | n + 2 => lucas (n + 1) + lucas n

end Counting

section Recurrences

/-- A sequence that adds its last two terms stays below a power whose base is at
least the golden ratio. -/
theorem le_of_adding (start : ℕ) {a : ℕ → ℝ} {c p : ℝ} {n : ℕ} (scale : 0 ≤ c) (base : 0 ≤ p)
    (golden : p + 1 ≤ p ^ 2) (adding : ∀ n, a (n + 2) = a (n + 1) + a n)
    (first : a start ≤ c * p ^ start) (second : a (start + 1) ≤ c * p ^ (start + 1))
    (late : start ≤ n) : a n ≤ c * p ^ n := by
  suffices both : ∀ k, a (start + k) ≤ c * p ^ (start + k) by
    obtain ⟨k, rfl⟩ := Nat.exists_eq_add_of_le late
    exact both k
  intro k
  induction k using Nat.twoStepInduction with
  | zero => exact first
  | one => exact second
  | more k ih ih' =>
    have power : 0 ≤ c * p ^ (start + k) := by positivity
    calc a (start + (k + 2)) = a (start + k + 1) + a (start + k) := adding (start + k)
      _ ≤ c * p ^ (start + k + 1) + c * p ^ (start + k) := add_le_add ih' ih
      _ = c * p ^ (start + k) * (p + 1) := by ring
      _ ≤ c * p ^ (start + k) * p ^ 2 := mul_le_mul_of_nonneg_left golden power
      _ = c * p ^ (start + (k + 2)) := by ring

def fibonacciAt (x : ℝ) : ℕ → ℝ
  | 0 => 0
  | 1 => 1
  | n + 2 => x * fibonacciAt x (n + 1) + fibonacciAt x n

def tribonacciAt (x : ℝ) : ℕ → ℝ
  | 0 => 0
  | 1 => 1
  | 2 => x ^ 2
  | n + 3 => x ^ 2 * tribonacciAt x (n + 2) + x * tribonacciAt x (n + 1) + tribonacciAt x n

/-- The Touchard polynomials: each set partition to the power of its number of
blocks. -/
noncomputable def touchardAt (x : ℝ) : ℕ → ℝ
  | 0 => 1
  | n + 1 => x * ∑ k : Fin (n + 1), n.choose k * touchardAt x k

/-- The size of a point, never under one. -/
noncomputable def reach (x : ℝ) : ℝ := max 1 |x|

theorem one_le_reach (x : ℝ) : 1 ≤ reach x := le_max_left _ _

theorem abs_le_reach (x : ℝ) : |x| ≤ reach x := le_max_right _ _

theorem abs_fibonacciAt_le (x : ℝ) (n : ℕ) : |fibonacciAt x n| ≤ Nat.fib n * reach x ^ n := by
  have one := one_le_reach x
  have point := abs_le_reach x
  induction n using Nat.twoStepInduction with
  | zero => simp [fibonacciAt]
  | one => simpa [fibonacciAt] using one
  | more n first second =>
    have power : 0 ≤ reach x ^ n := by positivity
    have lift : (Nat.fib n : ℝ) * reach x ^ n ≤ Nat.fib n * reach x ^ (n + 2) :=
      mul_le_mul_of_nonneg_left (pow_le_pow_right₀ one (by omega)) (by positivity)
    calc |fibonacciAt x (n + 2)| ≤ |x * fibonacciAt x (n + 1)| + |fibonacciAt x n| :=
          abs_add_le _ _
      _ ≤ reach x * (Nat.fib (n + 1) * reach x ^ (n + 1)) + Nat.fib n * reach x ^ n := by
          rw [abs_mul]
          exact add_le_add (mul_le_mul point second (abs_nonneg _) (by linarith)) first
      _ ≤ reach x * (Nat.fib (n + 1) * reach x ^ (n + 1)) + Nat.fib n * reach x ^ (n + 2) := by
          linarith
      _ = Nat.fib (n + 2) * reach x ^ (n + 2) := by
          rw [Nat.fib_add_two]
          push_cast
          ring

theorem abs_tribonacciAt_le (x : ℝ) (n : ℕ) :
    |tribonacciAt x n| ≤ 2 ^ n * reach x ^ (2 * n) := by
  have one := one_le_reach x
  have point := abs_le_reach x
  have square : x ^ 2 ≤ reach x ^ 2 :=
    sq_le_sq' (by linarith [neg_abs_le x]) ((le_abs_self x).trans point)
  induction n using tribonacciAt.induct with
  | case1 => simp [tribonacciAt]
  | case2 =>
    have : 1 ≤ reach x ^ 2 := one_le_pow₀ one
    simp only [tribonacciAt, abs_one]
    norm_num
    linarith
  | case3 =>
    have : reach x ^ 2 ≤ reach x ^ 4 := pow_le_pow_right₀ one (by decide)
    have : 0 ≤ reach x ^ 4 := by positivity
    simp only [tribonacciAt, abs_pow, sq_abs]
    norm_num
    linarith
  | case4 n third second first =>
    have low : reach x ^ (2 * n) ≤ reach x ^ (2 * n + 6) := pow_le_pow_right₀ one (by omega)
    have middle : reach x ^ (2 * n + 3) ≤ reach x ^ (2 * n + 6) :=
      pow_le_pow_right₀ one (by omega)
    have high : 0 ≤ reach x ^ (2 * n + 6) := by positivity
    have power : (0 : ℝ) ≤ 2 ^ n := by positivity
    calc |tribonacciAt x (n + 3)|
        ≤ |x ^ 2 * tribonacciAt x (n + 2)| + |x * tribonacciAt x (n + 1)| + |tribonacciAt x n| :=
          abs_add_three _ _ _
      _ ≤ reach x ^ 2 * (2 ^ (n + 2) * reach x ^ (2 * (n + 2))) +
            reach x * (2 ^ (n + 1) * reach x ^ (2 * (n + 1))) + 2 ^ n * reach x ^ (2 * n) := by
          rw [abs_mul, abs_mul, abs_of_nonneg (sq_nonneg x)]
          exact add_le_add (add_le_add
            (mul_le_mul square third (abs_nonneg _) (by positivity))
            (mul_le_mul point second (abs_nonneg _) (by linarith))) first
      _ = 2 ^ n * (4 * reach x ^ (2 * n + 6) + 2 * reach x ^ (2 * n + 3) + reach x ^ (2 * n)) := by
          ring
      _ ≤ 2 ^ n * (8 * reach x ^ (2 * n + 6)) :=
          mul_le_mul_of_nonneg_left (by linarith) power
      _ = 2 ^ (n + 3) * reach x ^ (2 * (n + 3)) := by ring

/-- Fewer set partitions than permutations, and no more blocks than elements. -/
theorem abs_touchardAt_le (x : ℝ) (n : ℕ) : |touchardAt x n| ≤ n.factorial * reach x ^ n := by
  have one := one_le_reach x
  induction n using Nat.strongRecOn with
  | ind n earlier =>
    cases n with
    | zero => simp [touchardAt]
    | succ n =>
      have term (k : Fin (n + 1)) :
          |(n.choose k : ℝ) * touchardAt x k| ≤ n.factorial * reach x ^ n := by
        have bound := earlier k k.isLt
        have small : (k : ℕ) ≤ n := Nat.lt_succ_iff.mp k.isLt
        have count : n.choose k * (k : ℕ).factorial ≤ n.factorial := by
          rw [← Nat.choose_mul_factorial_mul_factorial small]
          exact Nat.le_mul_of_pos_right _ (Nat.factorial_pos _)
        rw [abs_mul, Nat.abs_cast]
        calc (n.choose k : ℝ) * |touchardAt x k|
            ≤ n.choose k * ((k : ℕ).factorial * reach x ^ (k : ℕ)) :=
              mul_le_mul_of_nonneg_left bound (by positivity)
          _ = (n.choose k * (k : ℕ).factorial : ℕ) * reach x ^ (k : ℕ) := by push_cast; ring
          _ ≤ n.factorial * reach x ^ n :=
              mul_le_mul (by exact_mod_cast count) (pow_le_pow_right₀ one small)
                (by positivity) (by positivity)
      have sum : |∑ k : Fin (n + 1), (n.choose k : ℝ) * touchardAt x k| ≤
          (n + 1) * (n.factorial * reach x ^ n) := by
        refine (Finset.abs_sum_le_sum_abs _ _).trans ?_
        refine (Finset.sum_le_card_nsmul _ _ _ fun k _ => term k).trans ?_
        simp
      rw [touchardAt, abs_mul]
      calc |x| * |∑ k : Fin (n + 1), (n.choose k : ℝ) * touchardAt x k|
          ≤ reach x * ((n + 1) * (n.factorial * reach x ^ n)) :=
            mul_le_mul (abs_le_reach x) sum (abs_nonneg _) (by linarith)
        _ = (n + 1).factorial * reach x ^ (n + 1) := by
            rw [Nat.factorial_succ]
            push_cast
            ring

end Recurrences

section Products

/-- `x (x - 1) ... (x - k + 1)`. -/
noncomputable def falling (x : ℝ) (k : ℕ) : ℝ := ∏ i ∈ Finset.range k, (x - i)

/-- `x (x + 1) ... (x + k - 1)`. -/
noncomputable def rising (x : ℝ) (k : ℕ) : ℝ := ∏ i ∈ Finset.range k, (x + i)

theorem abs_prod_le {k : ℕ} {f : ℕ → ℝ} {bound : ℝ} (each : ∀ i < k, |f i| ≤ bound) :
    |∏ i ∈ Finset.range k, f i| ≤ bound ^ k := by
  rw [Finset.abs_prod]
  calc ∏ i ∈ Finset.range k, |f i| ≤ ∏ _i ∈ Finset.range k, bound :=
        Finset.prod_le_prod (fun i _ => abs_nonneg _) fun i member =>
          each i (Finset.mem_range.mp member)
    _ = bound ^ k := by simp

theorem abs_falling_le (x : ℝ) (k : ℕ) : |falling x k| ≤ (|x| + k) ^ k := by
  refine abs_prod_le fun i small => ?_
  have index : (i : ℝ) ≤ k := by exact_mod_cast small.le
  calc |x - i| ≤ |x| + |(i : ℝ)| := abs_sub _ _
    _ ≤ |x| + k := by rw [Nat.abs_cast]; linarith

theorem abs_rising_le (x : ℝ) (k : ℕ) : |rising x k| ≤ (|x| + k) ^ k := by
  refine abs_prod_le fun i small => ?_
  have index : (i : ℝ) ≤ k := by exact_mod_cast small.le
  calc |x + i| ≤ |x| + |(i : ℝ)| := abs_add_le _ _
    _ ≤ |x| + k := by rw [Nat.abs_cast]; linarith

end Products
end CodeCalc.Lib
