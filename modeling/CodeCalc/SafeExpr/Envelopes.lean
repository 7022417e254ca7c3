import Mathlib.Data.Nat.Factorial.DoubleFactorial
import Mathlib.NumberTheory.ArithmeticFunction.Misc
import CodeCalc.Lib.Sequences
import CodeCalc.SafeExpr.Growth

/-! Each growth formula against the sequence it stands for, at every argument. -/
namespace CodeCalc.SafeExpr
open Lib

noncomputable section

section Calls

/-- A call of a table function, with the arguments its formula is for. -/
inductive Call where
  | factorial (n : ℕ)
  | factorial2 (n : ℕ)
  | subfactorial (n : ℕ)
  | bell (n : ℕ)
  | bellAt (n : ℕ) (x : ℚ)
  | binomial (n k : ℕ)
  | binomialGeneral (n : ℚ) (k : ℕ)
  | rf (x : ℚ) (k : ℕ)
  | ff (x : ℚ) (k : ℕ)
  | fibonacci (n : ℕ)
  | fibonacciAt (n : ℕ) (x : ℚ)
  | lucas (n : ℕ)
  | tribonacci (n : ℕ)
  | tribonacciAt (n : ℕ) (x : ℚ)
  | catalan (n : ℕ)
  | motzkin (n : ℕ)
  | totient (n : ℕ)
  | primepi (n : ℕ)
  | divisorSigma (n k : ℕ)

namespace Call

def args : Call → List ℚ
  | factorial n | factorial2 n | subfactorial n | bell n | fibonacci n | lucas n | tribonacci n
  | catalan n | motzkin n | totient n | primepi n => [(n : ℚ)]
  | bellAt n x | fibonacciAt n x | tribonacciAt n x => [(n : ℚ), x]
  | binomial n k | divisorSigma n k => [(n : ℚ), (k : ℚ)]
  | binomialGeneral x k | rf x k | ff x k => [x, (k : ℚ)]

/-- The entry of `_GROWTH_BOUNDS`; a `binomial` outside the natural numbers goes to
its own formula. -/
def formula : Call → Bounds → Option ℝ
  | factorial _ | factorial2 _ | subfactorial _ => growthStirlingFactorial
  | bell _ | bellAt _ _ => growthBell
  | binomial _ _ => growth2n
  | binomialGeneral _ _ => fun bounds => growthBinomialGeneral (bounds 0) (bounds 1)
  | rf _ _ | ff _ _ => growthRfFf
  | fibonacci _ | fibonacciAt _ _ => growthFibonacci
  | lucas _ => growthLucas
  | tribonacci _ | tribonacciAt _ _ => growthTribonacci
  | catalan _ => growthCatalan
  | motzkin _ => growthMotzkin
  | totient _ => growthTotient
  | primepi _ => growthPrimepi
  | divisorSigma _ _ => growthDivisorSigma

def growth (call : Call) : Option ℝ := call.formula (encodedAll call.args)

end Call

def trueValue : Call → ℝ
  | .factorial n => n.factorial
  | .factorial2 n => n.doubleFactorial
  | .subfactorial n => numDerangements n
  | .bell n => touchardAt 1 n
  | .bellAt n x => touchardAt x n
  | .binomial n k => n.choose k
  | .binomialGeneral x k => falling x k / k.factorial
  | .rf x k => rising x k
  | .ff x k => falling x k
  | .fibonacci n => Nat.fib n
  | .fibonacciAt n x => fibonacciAt x n
  | .lucas n => lucas n
  | .tribonacci n => tribonacciAt 1 n
  | .tribonacciAt n x => tribonacciAt x n
  | .catalan n => catalan n
  | .motzkin n => motzkin n
  | .totient n => n.totient
  | .primepi n => n.primeCounting
  | .divisorSigma n k => ArithmeticFunction.sigma k n

end Calls

section Reading

@[simp] theorem encodedAll_zero (arg : ℚ) (rest : List ℚ) :
    encodedAll (arg :: rest) 0 = some (encoded arg) := rfl

@[simp] theorem encodedAll_one (first second : ℚ) (rest : List ℚ) :
    encodedAll (first :: second :: rest) 1 = some (encoded second) := rfl

@[simp] theorem encodedAll_one_single (arg : ℚ) : encodedAll [arg] 1 = none := rfl

theorem ten_rpow_mul_log10 {base : ℝ} (positive : 0 < base) (t : ℝ) :
    (10 : ℝ) ^ (t * log10 base) = base ^ t := by
  rw [mul_comm, Real.rpow_mul (by norm_num), log10, Real.rpow_logb (by norm_num) (by norm_num)
    positive]

theorem ten_rpow_log10 {base : ℝ} (positive : 0 < base) : (10 : ℝ) ^ log10 base = base :=
  Real.rpow_logb (by norm_num) (by norm_num) positive

variable {value : ℝ} {bounds : Bounds} {n : ℕ}

theorem covers_none : Covers none value := by
  intro log found
  cases found

theorem covers_map {arg : ℚ} {f : ℝ → ℝ} (within : |value| ≤ 10 ^ f (decoded arg)) :
    Covers ((safePow10 (some (encoded arg))).map f) value := by
  intro log found
  rw [safePow10_encoded] at found
  split at found
  · cases found
  · rw [Option.map_some, Option.some.injEq] at found
    exact found ▸ within

/-- A natural argument as the formulas read it. -/
theorem le_decoded (n : ℕ) : (n : ℝ) ≤ decoded (n : ℚ) := by
  rw [decoded_natCast]
  exact le_max_right _ _

theorem one_le_decoded (n : ℕ) : 1 ≤ decoded (n : ℚ) := by
  rw [decoded_natCast]
  exact le_max_left _ _

theorem decoded_eq (positive : 0 < n) : decoded (n : ℚ) = n := by
  rw [decoded_natCast, max_eq_right]
  exact_mod_cast positive

/-- Raising to the number that is read is raising to no less than the argument. -/
theorem pow_le_rpow_decoded {base : ℝ} (large : 1 ≤ base) (n : ℕ) :
    base ^ n ≤ base ^ decoded (n : ℚ) := by
  rw [← Real.rpow_natCast]
  exact Real.rpow_le_rpow_of_exponent_le large (le_decoded n)

end Reading

section Sequences

variable {value : ℝ} {bounds : Bounds} {n : ℕ}

theorem covers_stirling (first : bounds 0 = some (encoded n)) (le : |value| ≤ n.factorial) :
    Covers (growthStirlingFactorial bounds) value := by
  rw [growthStirlingFactorial, first]
  refine covers_map (le.trans ?_)
  split
  case isTrue small =>
    have small : n < 2 := by
      have := (le_decoded n).trans_lt small
      exact_mod_cast this
    have one : n.factorial = 1 := Nat.factorial_eq_one.mpr (by omega)
    simp [one]
  case isFalse large =>
    have large : 2 ≤ n := by
      by_contra small
      rw [decoded_natCast] at large
      exact large (max_lt (by norm_num) (by exact_mod_cast not_le.mp small))
    have positive : 0 < n := by omega
    have factorial : (0 : ℝ) < n.factorial := by exact_mod_cast n.factorial_pos
    have ten : 0 < Real.log 10 := Real.log_pos (by norm_num)
    rw [decoded_eq positive, ← Real.log_le_log_iff factorial (by positivity),
      Real.log_rpow (by norm_num)]
    refine (log_factorial_le positive).trans (le_of_eq ?_)
    simp only [log10, Real.logb, Real.log_exp]
    field_simp

theorem covers_baseN {base : ℝ} (large : 1 ≤ base) (first : bounds 0 = some (encoded n))
    (le : |value| ≤ base ^ n) : Covers (growthBaseN (log10 base) bounds) value := by
  rw [growthBaseN, first]
  refine covers_map (le.trans ?_)
  rw [ten_rpow_mul_log10 (by linarith)]
  exact pow_le_rpow_decoded large n

theorem covers_argument (first : bounds 0 = some (encoded n)) (le : |value| ≤ n) :
    Covers (growthOfArgument bounds) value := by
  rw [growthOfArgument, first]
  have positive : 0 < decoded (n : ℚ) := decoded_pos _
  refine covers_map (le.trans ?_)
  rw [if_pos positive, ten_rpow_log10 positive]
  exact le_decoded n

/-- The base and the power of the product bounds, both at least one. -/
theorem pow_le_powerOfBase (x : ℚ) (k : ℕ) :
    (|(x : ℝ)| + k) ^ k ≤ 10 ^ powerOfBase (decoded (k : ℚ)) (decoded x + decoded (k : ℚ)) := by
  have count := one_le_decoded k
  have positive := decoded_pos x
  have base : 1 < decoded x + decoded (k : ℚ) := by linarith
  rw [powerOfBase, if_neg (by linarith), if_neg (by linarith), ten_rpow_mul_log10 (by linarith)]
  calc (|(x : ℝ)| + k) ^ k ≤ (decoded x + decoded (k : ℚ)) ^ k :=
        pow_le_pow_left₀ (by positivity) (add_le_add (abs_le_decoded x) (le_decoded k)) k
    _ ≤ (decoded x + decoded (k : ℚ)) ^ decoded (k : ℚ) := pow_le_rpow_decoded base.le k

theorem covers_powerOfBase {x : ℚ} {k : ℕ} (le : |value| ≤ (|(x : ℝ)| + k) ^ k) :
    Covers (growthRfFf (encodedAll [x, (k : ℚ)])) value ∧
      Covers (growthBinomialGeneral (some (encoded x)) (some (encoded k))) value := by
  have within := le.trans (pow_le_powerOfBase x k)
  unfold growthRfFf growthBinomialGeneral
  rw [encodedAll_zero, encodedAll_one, safePow10_encoded x]
  split
  · exact ⟨covers_none, covers_none⟩
  · simp only [Option.bind_some, abs_of_pos (decoded_pos x)]
    exact ⟨covers_map within, covers_map within⟩

theorem slack : (1.0214 : ℝ) ≤ 10 ^ (0.01 : ℝ) := by
  have power : (1.0214 : ℝ) ^ (100 : ℕ) ≤ 10 := by norm_num
  calc (1.0214 : ℝ) = ((1.0214 : ℝ) ^ (100 : ℕ)) ^ (0.01 : ℝ) := by
        rw [← Real.rpow_natCast, ← Real.rpow_mul (by norm_num)]
        norm_num
    _ ≤ 10 ^ (0.01 : ℝ) := Real.rpow_le_rpow (by norm_num) power (by norm_num)

theorem phi_golden : phi + 1 ≤ phi ^ 2 := by norm_num [phi]

theorem phi_pos : 0 < phi := by norm_num [phi]

theorem three_le : (3 : ℝ) ≤ 10 ^ (0.5 : ℝ) := by
  have root : (10 : ℝ) ^ (0.5 : ℝ) = Real.sqrt 10 := by
    rw [Real.sqrt_eq_rpow]
    norm_num
  rw [root]
  exact Real.le_sqrt_of_sq_le (by norm_num)

theorem covers_fibonacciBase (first : bounds 0 = some (encoded n)) :
    Covers (growthFibonacciBase bounds) (Nat.fib n) := by
  rw [growthFibonacciBase, first]
  refine covers_map ?_
  rw [Nat.abs_cast]
  split
  case isTrue small =>
    have small : n < 4 := by
      have := (le_decoded n).trans_lt small
      exact_mod_cast this
    have value : Nat.fib n ≤ 2 := (Nat.fib_mono (by omega : n ≤ 3)).trans (by decide)
    have value : (Nat.fib n : ℝ) ≤ 2 := by exact_mod_cast value
    linarith [three_le]
  case isFalse large =>
    have large : 4 ≤ n := by
      by_contra small
      rw [decoded_natCast] at large
      exact large (max_lt (by norm_num) (by exact_mod_cast not_le.mp small))
    have root : (5 : ℝ) ^ (0.5 : ℝ) = Real.sqrt 5 := by
      rw [Real.sqrt_eq_rpow]
      norm_num
    have five : 0 < Real.sqrt 5 := Real.sqrt_pos.mpr (by norm_num)
    have above : Real.sqrt 5 ≤ 2.2361 := (Real.sqrt_le_left (by norm_num)).mpr (by norm_num)
    have scale : 0.4567 ≤ (10 : ℝ) ^ (0.01 : ℝ) / Real.sqrt 5 := by
      rw [le_div_iff₀ five]
      have := slack
      linarith
    have split : (10 : ℝ) ^ ((n : ℝ) * log10 phi - log10 (Real.sqrt 5) + 0.01) =
        (10 : ℝ) ^ (0.01 : ℝ) / Real.sqrt 5 * phi ^ n := by
      rw [Real.rpow_add (by norm_num), Real.rpow_sub (by norm_num), ten_rpow_mul_log10 phi_pos,
        ten_rpow_log10 five, Real.rpow_natCast]
      ring
    rw [decoded_eq (by omega), root, split]
    refine le_of_adding 4 (a := fun n => Nat.fib n) (by positivity) phi_pos.le phi_golden
      (fun n => ?_) ?_ ?_ large
    · rw [Nat.fib_add_two]
      push_cast
      ring
    · have power : (6.85 : ℝ) ≤ phi ^ 4 := by norm_num [phi]
      have bound := mul_le_mul scale power (by norm_num) (by positivity)
      norm_num [Nat.fib] at bound ⊢
      linarith
    · have power : (11.09 : ℝ) ≤ phi ^ 5 := by norm_num [phi]
      have bound := mul_le_mul scale power (by norm_num) (by positivity)
      norm_num [Nat.fib] at bound ⊢
      linarith

theorem covers_lucas (first : bounds 0 = some (encoded n)) :
    Covers (growthLucas bounds) (lucas n) := by
  rw [growthLucas, first]
  refine covers_map ?_
  rw [Nat.abs_cast]
  split
  case isTrue small =>
    have small : n < 3 := by
      have := (le_decoded n).trans_lt small
      exact_mod_cast this
    have value : lucas n ≤ 3 := by interval_cases n <;> decide
    have value : (lucas n : ℝ) ≤ 3 := by exact_mod_cast value
    exact value.trans three_le
  case isFalse large =>
    have large : 3 ≤ n := by
      by_contra small
      rw [decoded_natCast] at large
      exact large (max_lt (by norm_num) (by exact_mod_cast not_le.mp small))
    have split : (10 : ℝ) ^ ((n : ℝ) * log10 phi + 0.01) = (10 : ℝ) ^ (0.01 : ℝ) * phi ^ n := by
      rw [Real.rpow_add (by norm_num), ten_rpow_mul_log10 phi_pos, Real.rpow_natCast, mul_comm]
    rw [decoded_eq (by omega), split]
    refine le_of_adding 3 (a := fun n => lucas n) (by positivity) phi_pos.le phi_golden
      (fun n => ?_) ?_ ?_ large
    · exact_mod_cast rfl
    · have power : (4.23 : ℝ) ≤ phi ^ 3 := by norm_num [phi]
      have bound := mul_le_mul slack power (by norm_num) (by positivity)
      norm_num [lucas] at bound ⊢
      linarith
    · have power : (6.8541 : ℝ) ≤ phi ^ 4 := by norm_num [phi]
      have bound := mul_le_mul slack power (by norm_num) (by positivity)
      norm_num [lucas] at bound ⊢
      linarith

theorem covers_polySecondArg {base : Bounds → Option ℝ} {x : ℚ} {coefficient : ℝ} (degree : ℕ)
    (covers : Covers (base (encodedAll [(n : ℚ), x])) coefficient) (nonneg : 0 ≤ coefficient)
    (le : |value| ≤ coefficient * reach x ^ (degree * n)) :
    Covers (growthPolySecondArg base degree (encodedAll [(n : ℚ), x])) value := by
  intro log found
  rw [growthPolySecondArg, encodedAll_zero, encodedAll_one] at found
  simp only [safePow10_encoded, Option.bind_eq_some_iff, Option.map_eq_some_iff] at found
  obtain ⟨m, hm, y, hy, growth, hgrowth, rfl⟩ := found
  have hm : m = decoded (n : ℚ) := by
    split at hm
    · cases hm
    · exact (Option.some.inj hm).symm
  have hy : max 1 y = reach x := by
    split at hy
    · cases hy
    · rw [← Option.some.inj hy, decoded, reach]
      split
      case isTrue zero => simp [zero]
      case isFalse => rfl
  have one := one_le_reach x
  have coefficients : coefficient ≤ 10 ^ growth := by
    have := covers growth hgrowth
    rwa [abs_of_nonneg nonneg] at this
  have power : reach x ^ (degree * n) ≤ reach x ^ ((degree : ℝ) * decoded (n : ℚ)) := by
    rw [← Real.rpow_natCast]
    refine Real.rpow_le_rpow_of_exponent_le one ?_
    push_cast
    exact mul_le_mul_of_nonneg_left (le_decoded n) (Nat.cast_nonneg degree)
  rw [hm, hy, Real.rpow_add (by norm_num), ten_rpow_mul_log10 (by linarith)]
  exact le.trans (mul_le_mul coefficients power (by positivity) (by positivity))

end Sequences

section Divisors

variable {n k : ℕ}

/-- The exponent that the formula goes by: past the cut it is read as one. -/
theorem divisorSigma_growth (within : (n : ℝ) ≤ 10 ^ 50) (large : 2 ≤ n) :
    growthDivisorSigma (encodedAll [(n : ℚ), (k : ℚ)]) =
      some (((if (10 : ℝ) ^ (50 : ℕ) < k then 1 else decoded (k : ℚ)) + 1) * log10 n) := by
  have one : (1 : ℝ) < n := by exact_mod_cast large
  have count : (10 : ℝ) ^ (50 : ℕ) < decoded (k : ℚ) ↔ (10 : ℝ) ^ (50 : ℕ) < k := by
    rw [decoded_natCast, lt_max_iff, or_iff_right (by norm_num)]
  rw [growthDivisorSigma, encodedAll_zero, encodedAll_one, safePow10_encoded, safePow10_encoded,
    decoded_eq (by omega : 0 < n), if_neg (not_lt.mpr within), Option.map_some, if_neg (not_le.mpr one)]
  simp only [count]
  split <;> rfl

/-- The number and the exponent at which the formula reads the wrong exponent. -/
def ExponentCut (n k : ℕ) : Prop := 2 ≤ n ∧ n ≤ 10 ^ 50 ∧ 10 ^ 50 < k

theorem covers_divisorSigma_iff :
    Covers (growthDivisorSigma (encodedAll [(n : ℚ), (k : ℚ)])) (ArithmeticFunction.sigma k n) ↔
      ¬ ExponentCut n k := by
  rcases Nat.lt_or_ge 1 n with large | small
  · by_cases within : n ≤ 10 ^ 50
    · have within' : (n : ℝ) ≤ 10 ^ 50 := by exact_mod_cast within
      have pos : (0 : ℝ) < n := by exact_mod_cast (by omega : 0 < n)
      have one : (1 : ℝ) ≤ n := by exact_mod_cast large.le
      simp only [divisorSigma_growth within' large, Covers, Option.some.injEq, forall_eq',
        Nat.abs_cast, ten_rpow_mul_log10 pos]
      have cut : (10 : ℝ) ^ (50 : ℕ) < k ↔ 10 ^ 50 < k := by
        exact_mod_cast Iff.rfl
      by_cases huge : 10 ^ 50 < k
      · -- the code bounds the sum by the square, and one divisor is already larger
        have power : n ^ 3 ≤ ArithmeticFunction.sigma k n := by
          rw [ArithmeticFunction.sigma_apply]
          calc n ^ 3 ≤ n ^ k := Nat.pow_le_pow_right (by omega) (by omega)
            _ ≤ ∑ d ∈ n.divisors, d ^ k :=
              Finset.single_le_sum (f := fun d => d ^ k) (fun _ _ => Nat.zero_le _)
                (Nat.mem_divisors_self n (by omega))
        have square : n ^ 2 < n ^ 3 := Nat.pow_lt_pow_right large (by decide)
        have above : ((n : ℝ) ^ (2 : ℕ)) < ArithmeticFunction.sigma k n := by
          exact_mod_cast square.trans_le power
        rw [if_pos (cut.mpr huge), show (1 : ℝ) + 1 = ((2 : ℕ) : ℝ) by norm_num, Real.rpow_natCast]
        exact iff_of_false (not_le.mpr above) (not_not.mpr ⟨large, within, huge⟩)
      · rw [if_neg (cut.not.mpr huge)]
        refine iff_of_true ?_ fun cut => huge cut.2.2
        calc (ArithmeticFunction.sigma k n : ℝ) ≤ (n : ℝ) ^ (k + 1) := by
              exact_mod_cast ArithmeticFunction.sigma_le_pow_succ k n
          _ = (n : ℝ) ^ ((k : ℝ) + 1) := by rw [← Real.rpow_natCast]; push_cast; rfl
          _ ≤ (n : ℝ) ^ (decoded (k : ℚ) + 1) :=
              Real.rpow_le_rpow_of_exponent_le one (by linarith [le_decoded k])
    · have cutoff : (10 : ℝ) ^ (50 : ℕ) < decoded (n : ℚ) := by
        rw [decoded_eq (by omega)]
        exact_mod_cast not_le.mp within
      rw [growthDivisorSigma, encodedAll_zero, safePow10_encoded, if_pos cutoff]
      exact iff_of_true covers_none fun cut => within cut.2.1
  · refine iff_of_true ?_ fun cut => absurd cut.1 (by omega)
    have one : decoded (n : ℚ) ≤ 1 := by
      rw [decoded_natCast]
      exact max_le le_rfl (by exact_mod_cast small)
    have value : ArithmeticFunction.sigma k n ≤ 1 := by interval_cases n <;> simp
    rw [growthDivisorSigma, encodedAll_zero]
    refine covers_map ?_
    rw [if_pos one, Real.rpow_zero, Nat.abs_cast]
    exact_mod_cast value

end Divisors

section Table

/-- The calls whose second argument the formula loses. -/
def Call.Cut : Call → Prop
  | .divisorSigma n k => ExponentCut n k
  | _ => False

/-- A polynomial that scales its coefficient at one by the point. -/
theorem covers_at_one {base : Bounds → Option ℝ} {n : ℕ} {value : ℝ} (degreeScale : ℝ)
    (covers : Covers (base (encodedAll [(n : ℚ)])) value) :
    Covers (growthPolySecondArg base degreeScale (encodedAll [(n : ℚ)])) value := covers

theorem reach_one : reach 1 = 1 := by simp [reach]

/-- Every formula of the table bounds its function, at every argument that is not
lost. -/
theorem growth_covers_iff (call : Call) : Covers call.growth (trueValue call) ↔ ¬ call.Cut := by
  cases call with
  | divisorSigma n k => exact covers_divisorSigma_iff
  | factorial n => exact iff_of_true (covers_stirling rfl (by simp [trueValue])) not_false
  | factorial2 n =>
    have le := Nat.doubleFactorial_le_factorial n
    exact iff_of_true (covers_stirling rfl (by simpa [trueValue] using le)) not_false
  | subfactorial n =>
    have le := numDerangements_le_factorial n
    exact iff_of_true (covers_stirling rfl (by simpa [trueValue] using le)) not_false
  | bell n =>
    have le := abs_touchardAt_le 1 n
    rw [reach_one, one_pow, mul_one] at le
    exact iff_of_true (covers_at_one 1 (covers_stirling rfl le)) not_false
  | bellAt n x =>
    have le := abs_touchardAt_le x n
    have base : Covers (growthStirlingFactorial (encodedAll [(n : ℚ), x])) n.factorial :=
      covers_stirling rfl (by simp)
    have covers := covers_polySecondArg 1 base (by positivity) (by rwa [one_mul])
    rw [Nat.cast_one] at covers
    exact iff_of_true covers not_false
  | binomial n k =>
    have le : |((n.choose k : ℕ) : ℝ)| ≤ 2 ^ n := by
      rw [Nat.abs_cast]
      exact_mod_cast Nat.choose_le_two_pow n k
    exact iff_of_true (covers_baseN (by norm_num) rfl le) not_false
  | binomialGeneral x k =>
    have le : |falling x k / k.factorial| ≤ (|(x : ℝ)| + k) ^ k := by
      rw [abs_div, Nat.abs_cast]
      have one : (1 : ℝ) ≤ k.factorial := by exact_mod_cast k.factorial_pos
      exact (div_le_self (abs_nonneg _) one).trans (abs_falling_le x k)
    exact iff_of_true (covers_powerOfBase le).2 not_false
  | rf x k => exact iff_of_true (covers_powerOfBase (abs_rising_le x k)).1 not_false
  | ff x k => exact iff_of_true (covers_powerOfBase (abs_falling_le x k)).1 not_false
  | fibonacci n => exact iff_of_true (covers_at_one 1 (covers_fibonacciBase rfl)) not_false
  | fibonacciAt n x =>
    have le := abs_fibonacciAt_le x n
    have covers := covers_polySecondArg 1 (covers_fibonacciBase rfl) (by positivity)
      (by rwa [one_mul])
    rw [Nat.cast_one] at covers
    exact iff_of_true covers not_false
  | lucas n => exact iff_of_true (covers_lucas rfl) not_false
  | tribonacci n =>
    have le := abs_tribonacciAt_le 1 n
    rw [reach_one, one_pow, mul_one] at le
    exact iff_of_true (covers_at_one 2 (covers_baseN (by norm_num) rfl le)) not_false
  | tribonacciAt n x =>
    have le := abs_tribonacciAt_le x n
    have base : Covers (growthTribonacciBase (encodedAll [(n : ℚ), x])) (2 ^ n) :=
      covers_baseN (by norm_num) rfl (by simp)
    have covers := covers_polySecondArg 2 base (by positivity) le
    rw [Nat.cast_ofNat] at covers
    exact iff_of_true covers not_false
  | catalan n =>
    have le : |((catalan n : ℕ) : ℝ)| ≤ 4 ^ n := by
      rw [Nat.abs_cast]
      exact_mod_cast catalan_le n
    exact iff_of_true (covers_baseN (by norm_num) rfl le) not_false
  | motzkin n =>
    have le : |((motzkin n : ℕ) : ℝ)| ≤ 3 ^ n := by
      rw [Nat.abs_cast]
      exact_mod_cast motzkin_le n
    exact iff_of_true (covers_baseN (by norm_num) rfl le) not_false
  | totient n =>
    have le := Nat.totient_le n
    exact iff_of_true (covers_argument rfl (by simpa [trueValue] using le)) not_false
  | primepi n =>
    have le := primeCounting_le n
    exact iff_of_true (covers_argument rfl (by simpa [trueValue] using le)) not_false

/-- The divisors of 2 to the power `10 ** 51` add up to more than `2 ** 2`. -/
theorem divisorSigma_uncovered :
    ¬ Covers (Call.divisorSigma 2 (10 ^ 51)).growth (trueValue (.divisorSigma 2 (10 ^ 51))) := by
  intro covers
  have cut : ExponentCut 2 (10 ^ 51) := ⟨le_rfl, by norm_num, by norm_num⟩
  exact covers_divisorSigma_iff.mp covers cut

end Table
end
end CodeCalc.SafeExpr
