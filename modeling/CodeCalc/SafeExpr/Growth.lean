import Mathlib.Analysis.Complex.ExponentialBounds
import Mathlib.Analysis.SpecialFunctions.Pow.Real
import Mathlib.Data.Nat.Digits.Defs
import CodeCalc.SafeExpr.Numeric

/-! The growth formulas of the bounded table, over exact real logarithms: from
the log10 magnitudes of the arguments of a call to a log10 bound on its result.
`none` is `math.inf`. -/
namespace CodeCalc.SafeExpr

/-- The log10 magnitude at each position that has one. -/
abbrev Bounds := ℕ → Option ℝ

noncomputable section

local instance literal_two : Nat.AtLeastTwo 2 := ⟨le_rfl⟩

local instance literal_five : Nat.AtLeastTwo 5 := ⟨by decide⟩

local instance literal_ten : Nat.AtLeastTwo 10 := ⟨by decide⟩

local instance literal_fifty : Nat.AtLeastTwo 50 := ⟨by decide⟩

section Formulas

open Classical in
/-- `none` for a magnitude that is missing and for one over 50. -/
def safePow10 (log : Option ℝ) : Option ℝ :=
  log.bind fun log => if 50 < log then none else some ((10 : ℝ) ^ log)

open Classical in
def growthStirlingFactorial (bounds : Bounds) : Option ℝ :=
  (safePow10 (bounds 0)).map fun n =>
    if n < 2 then 0
    else n * log10 n - n * log10 (Real.exp 1) + 1 / 2 * log10 (2 * Real.pi * n) +
      1 / (12 * n) * log10 (Real.exp 1)

/-- `log10_base` to the power of the first argument. -/
def growthBaseN (log10Base : ℝ) (bounds : Bounds) : Option ℝ :=
  (safePow10 (bounds 0)).map fun n => n * log10Base

def growth2n (bounds : Bounds) : Option ℝ := (safePow10 (bounds 0)).map fun n => n * log10 2

open Classical in
/-- `k * log10(base)` where both count. -/
def powerOfBase (k base : ℝ) : ℝ := if k ≤ 0 then 0 else if base ≤ 1 then 0 else k * log10 base

def growthBinomialGeneral (nLog kLog : Option ℝ) : Option ℝ :=
  (safePow10 nLog).bind fun n => (safePow10 kLog).map fun k => powerOfBase k (|n| + k)

def growthRfFf (bounds : Bounds) : Option ℝ :=
  (safePow10 (bounds 0)).bind fun x => (safePow10 (bounds 1)).map fun k => powerOfBase k (x + k)

open Classical in
/-- `log10(n)`, as for a function that never exceeds its argument. -/
def growthOfArgument (bounds : Bounds) : Option ℝ :=
  (safePow10 (bounds 0)).map fun n => if 0 < n then log10 n else 0

def growthPrimepi (bounds : Bounds) : Option ℝ := growthOfArgument bounds

def growthTotient (bounds : Bounds) : Option ℝ := growthOfArgument bounds

open Classical in
/-- An exponent that `safePow10` does not give is read as one. -/
def growthDivisorSigma (bounds : Bounds) : Option ℝ :=
  (safePow10 (bounds 0)).map fun n =>
    if n ≤ 1 then 0 else (((safePow10 (bounds 1)).getD 1) + 1) * log10 n

open Classical in
def growthHarmonic (bounds : Bounds) : Option ℝ :=
  (safePow10 (bounds 0)).bind fun n =>
    let classical := if n ≤ 1 then 1 else if 1 < Real.log n + 1 then log10 (Real.log n + 1) else 0
    match bounds 1 with
    | none => some classical
    | some mLog => (safePow10 (some mLog)).map fun m =>
      if m = 0 then (if 0 < n then log10 n else 0) else classical

/-- A polynomial at a second argument. -/
def growthPolySecondArg (base : Bounds → Option ℝ) (degreeScale : ℝ) (bounds : Bounds) :
    Option ℝ :=
  match bounds 1 with
  | none => base bounds
  | some xLog =>
    (safePow10 (bounds 0)).bind fun n => (safePow10 (some xLog)).bind fun x =>
      (base bounds).map fun base => base + degreeScale * n * log10 (max 1 x)

def phi : ℝ := 1.6180339887498949

open Classical in
def growthFibonacciBase (bounds : Bounds) : Option ℝ :=
  (safePow10 (bounds 0)).map fun n =>
    if n < 4 then 0.5 else n * log10 phi - log10 ((5 : ℝ) ^ (0.5 : ℝ)) + 0.01

open Classical in
def growthLucas (bounds : Bounds) : Option ℝ :=
  (safePow10 (bounds 0)).map fun n => if n < 3 then 0.5 else n * log10 phi + 0.01

def growthTribonacciBase : Bounds → Option ℝ := growthBaseN (log10 2)

def growthCatalan : Bounds → Option ℝ := growthBaseN (log10 4)

def growthMotzkin : Bounds → Option ℝ := growthBaseN (log10 3)

def growthFibonacci : Bounds → Option ℝ := growthPolySecondArg growthFibonacciBase 1

def growthTribonacci : Bounds → Option ℝ := growthPolySecondArg growthTribonacciBase 2

def growthBell : Bounds → Option ℝ := growthPolySecondArg growthStirlingFactorial 1

end Formulas

section Arguments

/-- The magnitude a formula is given: that of a number, and 0 for zero. -/
def encoded (value : ℚ) : ℝ := (literalNumDen value).magnitude

/-- The bounds of a call with literal arguments. -/
def encodedAll (args : List ℚ) : Bounds := fun position => (args.map encoded)[position]?

/-- What `_table_function_bound` makes of a call. -/
inductive Bounded where
  | bound (log : Option ℝ)
  | violation (text : String)

def boundedPositions (name : String) : List (ℕ × Cap) :=
  ((positionSpec name 0).map fun cap => (0, cap)).toList ++
    (extraBoundedPositions.lookup name).getD []

def nonnegativeDomainPositions : List (String × List ℕ) :=
  [("binomial", [0]), ("harmonic", [1])]

def domainViolation (name : String) (position : ℕ) (arg : ℚ) : Option String :=
  if position ∈ (nonnegativeDomainPositions.lookup name).getD [] ∧ arg < 0 then
    some (s!"the argument to {name}() at position {position} must be " ++
      "non-negative: this module has not derived a safe bound for that domain")
  else none

open Classical in
def overCap (cap : Cap) (arg : ℚ) : Bool :=
  match cap.kind with
  | .value => decide (log10 cap.limit < encoded arg)
  | .digits => decide (cap.limit < max 1 (Nat.digits 10 arg.num.natAbs).length)

/-- The loop over the bounded positions. -/
def checkPositions (name : String) (args : List ℚ) : List (ℕ × Cap) → Option String
  | [] => none
  | (position, cap) :: rest =>
    match args[position]? with
    | none => checkPositions name args rest
    | some arg =>
      match domainViolation name position arg with
      | some text => some text
      | none =>
        if overCap cap arg then
          some (s!"an argument to {name}() exceeds the limit of {cap.limit}: " ++
            "computing it would take an unbounded amount of time and memory")
        else checkPositions name args rest

def collected (name : String) (args : List ℚ) : Bounds := fun position =>
  if position ∈ (boundedPositions name).map Prod.fst then encodedAll args position else none

/-- `_table_function_bound` of a call with literal arguments, for a name that has
a formula and no rule of its own (`binomial` and `zeta` have one). -/
def tableFunctionBound (name : String) (growth : Bounds → Option ℝ) (args : List ℚ) : Bounded :=
  match checkPositions name args (boundedPositions name) with
  | some text => .violation text
  | none => .bound (growth (collected name args))

end Arguments

section Covering

/-- The bound is no smaller than the value. -/
def Covers (growth : Option ℝ) (value : ℝ) : Prop := ∀ log, growth = some log → |value| ≤ 10 ^ log

theorem encoded_zero : encoded 0 = 0 := by simp [encoded, literalNumDen, NumDen.magnitude]

theorem encoded_of_ne_zero {value : ℚ} (nonzero : value ≠ 0) :
    encoded value = log10 |(value : ℝ)| := by
  have num : (value.num : ℝ) ≠ 0 := by exact_mod_cast Rat.num_ne_zero.mpr nonzero
  have den : (value.den : ℝ) ≠ 0 := by exact_mod_cast value.den_ne_zero
  have quotient : |(value : ℝ)| = |(value.num : ℝ)| / (value.den : ℝ) := by
    rw [Rat.cast_def, abs_div, Nat.abs_cast]
  have denominator : (if value.den = 1 then 0 else log10 (value.den : ℝ)) =
      log10 (value.den : ℝ) := by
    split
    case isTrue one => rw [one]; simp [log10]
    case isFalse => rfl
  rw [encoded, NumDen.magnitude, literalNumDen, denominator, if_neg (Rat.num_ne_zero.mpr nonzero),
    quotient, log10, log10, log10, Real.logb_div (abs_ne_zero.mpr num) den]

/-- What the formula reads back: the magnitude, with zero read as one. -/
def decoded (value : ℚ) : ℝ := if value = 0 then 1 else |(value : ℝ)|

theorem ten_rpow_encoded (value : ℚ) : (10 : ℝ) ^ encoded value = decoded value := by
  unfold decoded
  split
  case isTrue zero => simp [zero, encoded_zero]
  case isFalse nonzero =>
    rw [encoded_of_ne_zero nonzero, log10, Real.rpow_logb (by norm_num) (by norm_num)]
    exact abs_pos.mpr (by exact_mod_cast nonzero)

theorem decoded_pos (value : ℚ) : 0 < decoded value := by
  unfold decoded
  split
  · exact one_pos
  case isFalse nonzero => exact abs_pos.mpr (by exact_mod_cast nonzero)

theorem abs_le_decoded (value : ℚ) : |(value : ℝ)| ≤ decoded value := by
  unfold decoded
  split
  case isTrue zero => simp [zero]
  case isFalse => exact le_rfl

/-- A natural number comes back as itself, and zero as one. -/
theorem decoded_natCast (n : ℕ) : decoded (n : ℚ) = max 1 (n : ℝ) := by
  unfold decoded
  rcases Nat.eq_zero_or_pos n with rfl | positive
  · simp
  · have one : (1 : ℝ) ≤ n := by exact_mod_cast positive
    rw [if_neg (by exact_mod_cast positive.ne'), Rat.cast_natCast, Nat.abs_cast, max_eq_right one]

/-- The cut at 50 is a cut on the number. -/
theorem safePow10_encoded (value : ℚ) :
    safePow10 (some (encoded value)) =
      if (10 : ℝ) ^ (50 : ℕ) < decoded value then none else some (decoded value) := by
  have same : 50 < encoded value ↔ (10 : ℝ) ^ (50 : ℕ) < decoded value := by
    rw [← ten_rpow_encoded, ← Real.rpow_natCast]
    exact (Real.rpow_lt_rpow_left_iff (by norm_num)).symm
  simp only [safePow10, Option.bind_some, same, ten_rpow_encoded]

end Covering

end
end CodeCalc.SafeExpr
