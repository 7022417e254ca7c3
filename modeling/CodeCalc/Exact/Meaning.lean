import Mathlib.Algebra.GCDMonoid.Multiset
import Mathlib.Algebra.GCDMonoid.Nat
import Mathlib.Analysis.SpecialFunctions.Pow.Real
import Mathlib.Analysis.SpecialFunctions.Trigonometric.Basic
import CodeCalc.Exact.Evaluator

/-! What an expression means: a real number or a truth value, from Python's
operators read as operations on the reals, decimal literals taken as typed.
Nothing here is rounded.  The functions of the float path have no meaning of
their own, and neither has a call with keyword arguments: every value of the
language is a number, and `**` takes a mapping. -/
namespace CodeCalc.Exact
open Lib

inductive Meaning where
  | number (value : ℝ)
  | truth (value : Bool)

def Meaning.real : Meaning → ℝ
  | .number value => value
  | .truth value => if value then 1 else 0

local instance two_atLeastTwo : Nat.AtLeastTwo 2 := ⟨le_rfl⟩

section Operations

open Classical in
noncomputable def integerOf (x : ℝ) : Option ℤ := if (⌊x⌋ : ℝ) = x then some ⌊x⌋ else none

open Classical in
/-- `x ** y`, where it is a real number. -/
noncomputable def realPow (x y : ℝ) : Option ℝ :=
  if x = 0 ∧ y < 0 then none
  else if x < 0 ∧ integerOf y = none then none
  else some (x ^ y)

/-- The operators on integers; a shift multiplies or divides by a power of two. -/
noncomputable def denoteBitwise (op : BinOp) (m n : ℤ) : Option ℝ :=
  match op with
  | .lShift => if 0 ≤ n then some (m * 2 ^ n) else none
  | .rShift => if 0 ≤ n then some (⌊(m : ℝ) / 2 ^ n⌋ : ℝ) else none
  | .bitAnd => some ((m.land n : ℤ) : ℝ)
  | .bitOr => some ((m.lor n : ℤ) : ℝ)
  | .bitXor => some ((m.xor n : ℤ) : ℝ)
  | _ => none

open Classical in
noncomputable def denoteBinary (op : BinOp) (x y : ℝ) : Option ℝ :=
  match op with
  | .add => some (x + y)
  | .sub => some (x - y)
  | .mult => some (x * y)
  | .div => if y = 0 then none else some (x / y)
  | .floorDiv => if y = 0 then none else some (⌊x / y⌋ : ℝ)
  | .mod => if y = 0 then none else some (x - y * ⌊x / y⌋)
  | .pow => realPow x y
  | op => do
      let m ← integerOf x
      let n ← integerOf y
      denoteBitwise op m n

noncomputable def denoteUnary (op : UnaryOp) (x : ℝ) : Option ℝ :=
  match op with
  | .uAdd => some x
  | .uSub => some (-x)
  | .invert => (integerOf x).map fun n => -(n : ℝ) - 1
  | .not => none

open Classical in
noncomputable def denoteCompare (op : CmpOp) (x y : ℝ) : Option Bool :=
  match op with
  | .gt => some (decide (x > y))
  | .gtE => some (decide (x ≥ y))
  | .lt => some (decide (x < y))
  | .ltE => some (decide (x ≤ y))
  | .eq => some (decide (x = y))
  | .notEq => some (decide (x ≠ y))
  | .other _ => none

noncomputable def denoteInteger : String → List ℤ → Option ℝ
  | "factorial", [n] => if 0 ≤ n then some (n.toNat.factorial : ℝ) else none
  | "comb", [n, k] => if 0 ≤ n ∧ 0 ≤ k then some (n.toNat.choose k.toNat : ℝ) else none
  | "perm", [n] => if 0 ≤ n then some (n.toNat.factorial : ℝ) else none
  | "perm", [n, k] => if 0 ≤ n ∧ 0 ≤ k then some (n.toNat.descFactorial k.toNat : ℝ) else none
  | "gcd", values => some ((Multiset.gcd (values : Multiset ℤ) : ℤ) : ℝ)
  | "lcm", values => some ((Multiset.lcm (values : Multiset ℤ) : ℤ) : ℝ)
  | "isqrt", [n] => if 0 ≤ n then some (⌊√(n : ℝ)⌋ : ℝ) else none
  | _, _ => none

open Classical in
noncomputable def denoteFunction : String → List ℝ → Option ℝ
  | "abs", [x] => some |x|
  | "min", x :: y :: rest => some ((y :: rest).foldl min x)
  | "max", x :: y :: rest => some ((y :: rest).foldl max x)
  | "int", [] => some 0
  | "int", [x] => some (Fraction.towardsZero x : ℝ)
  | "trunc", [x] => some (Fraction.towardsZero x : ℝ)
  | "floor", [x] => some (⌊x⌋ : ℝ)
  | "ceil", [x] => some (⌈x⌉ : ℝ)
  | "round", [x] => some (Fraction.nearestEven x : ℝ)
  | "round", [x, y] => (integerOf y).map fun n => Fraction.nearestEven (x * 10 ^ n) / 10 ^ n
  | "sqrt", [x] => if 0 ≤ x then some √x else none
  | name, args => (args.mapM integerOf).bind (denoteInteger name)

end Operations

section Expressions

noncomputable def denoteConstant : Constant → Option Meaning
  | .int value => some (.number value)
  | .float typed _ => some (.number typed.value)
  | .other _ => none

noncomputable def denoteName : String → Option Meaning
  | "pi" => some (.number Real.pi)
  | "e" => some (.number (Real.exp 1))
  | "tau" => some (.number (2 * Real.pi))
  | _ => none

mutual

noncomputable def denote : Node → Option Meaning
  | .constant value => denoteConstant value
  | .name id => denoteName id
  | .unaryOp op operand => do
      let x ← denote operand
      (denoteUnary op x.real).map .number
  | .binOp left op right => do
      let x ← denote left
      let y ← denote right
      (denoteBinary op x.real y.real).map .number
  | .compare left [(op, right)] => do
      let x ← denote left
      let y ← denote right
      (denoteCompare op x.real y.real).map .truth
  | .call (.name id) args [] => do
      let values ← denoteArgs args
      (denoteFunction id values).map .number
  | .compare _ _ => none
  | .call _ _ _ => none
  | .unsupported _ => none

noncomputable def denoteArgs : List Node → Option (List ℝ)
  | [] => some []
  | arg :: args => do
      let first ← denote arg
      let rest ← denoteArgs args
      some (first.real :: rest)

end

theorem denote_call (id : String) (args : List Node) :
    denote (.call (.name id) args []) = (denoteArgs args).bind fun values =>
      (denoteFunction id values).map .number := by
  rw [denote]
  rfl

theorem denoteArgs_cons (arg : Node) (args : List Node) :
    denoteArgs (arg :: args) = (denote arg).bind fun first =>
      (denoteArgs args).bind fun rest => some (first.real :: rest) := by
  rw [denoteArgs]
  rfl

end Expressions

end CodeCalc.Exact
