import Mathlib.Analysis.SpecialFunctions.Log.Base
import CodeCalc.Lib.Tree
import CodeCalc.SafeExpr.Screen

/-! `reject_explosive` on plain arithmetic: the factor multiset, the bounds on
the printed numerator and denominator, the scan that reads them and the loop
over the powers.  Every logarithm is read as an exact real, so a product that
the code cuts off at `inf` is the product itself. -/
namespace CodeCalc.SafeExpr

/-- A tree of `parse_expr(..., evaluate=False)` built from literals; `rational` is
one that is no integer. -/
inductive Node where
  | integer (value : ℤ)
  | rational (value : ℚ)
  | add (args : List Node)
  | mul (args : List Node)
  | pow (base exp : Node)

namespace Node

def args : Node → List Node
  | integer _ => []
  | rational _ => []
  | add args => args
  | mul args => args
  | pow base exp => [base, exp]

def isInteger : Node → Bool
  | integer _ => true
  | _ => false

def isRational : Node → Bool
  | rational _ => true
  | _ => false

def isPow : Node → Bool
  | pow _ _ => true
  | _ => false

mutual

def count : Node → ℕ
  | integer _ => 1
  | rational _ => 1
  | add args => 1 + countAll args
  | mul args => 1 + countAll args
  | pow base exp => 1 + (count base + count exp)

def countAll : List Node → ℕ
  | [] => 0
  | arg :: args => count arg + countAll args

end

end Node

section FactorMultiset

/-- Base to net exponent, in the order of insertion. -/
abbrev Terms := List (ℕ × ℤ)

namespace Terms

/-- `net = terms.get(base, 0) + exp`, and the entry goes when `net` is zero. -/
def bump : Terms → ℕ → ℤ → Terms
  | [], base, exp => if exp = 0 then [] else [(base, exp)]
  | (key, old) :: rest, base, exp =>
    if key = base then if old + exp = 0 then rest else (key, old + exp) :: rest
    else (key, old) :: bump rest base exp

def merge (terms sub : Terms) : Terms :=
  sub.foldl (fun merged entry => merged.bump entry.1 entry.2) terms

def scale (terms : Terms) (exp : ℤ) : Terms := terms.map fun entry => (entry.1, entry.2 * exp)

end Terms

/-- The loop over the arguments of a product. -/
def mergeFactors : Terms → ℤ → List (Option (Terms × ℤ)) → Option (Terms × ℤ)
  | terms, sign, [] => some (terms, sign)
  | _, _, none :: _ => none
  | terms, sign, some (subTerms, subSign) :: rest =>
    if subSign = 0 then some ([], 0)
    else mergeFactors (terms.merge subTerms) (sign * subSign) rest

def powFactors (base : Option (Terms × ℤ)) (exp : ℤ) : Option (Terms × ℤ) :=
  if exp = 0 then some ([], 1)
  else match base with
    | none => none
    | some (terms, sign) =>
      if sign = 0 then if 0 < exp then some ([], 0) else none
      else some (terms.scale exp, if exp % 2 = 0 then 1 else sign)

mutual

/-- The value as a sign and an exact product of powers of integers. -/
def factorMultiset : Node → Option (Terms × ℤ)
  | .integer n =>
    some (if n = 0 then ([], 0) else (if n.natAbs = 1 then [] else [(n.natAbs, 1)], n.sign))
  | .rational _ => none
  | .add _ => none
  | .mul args => mergeFactors [] 1 (factorMultisets args)
  | .pow base (.integer exp) => powFactors (factorMultiset base) exp
  | .pow _ _ => none

def factorMultisets : List Node → List (Option (Terms × ℤ))
  | [] => []
  | arg :: args => factorMultiset arg :: factorMultisets args

end

def coeffMaxBase : ℕ := 1000
def coeffMaxExp : ℤ := 20

def splitCoefficient : Terms → ℤ × Terms
  | [] => (1, [])
  | (base, exp) :: entries =>
    let split := splitCoefficient entries
    if 0 < exp ∧ exp ≤ coeffMaxExp ∧ base ≤ coeffMaxBase then
      ((base : ℤ) ^ exp.toNat * split.1, split.2)
    else (split.1, (base, exp) :: split.2)

/-- The terms of a sum that agree up to an integer coefficient. -/
structure Group (α : Type) where
  key : Terms
  members : List (ℤ × α)

variable {α : Type}

/-- `groups.setdefault(key, []).append(member)`: the key is a `frozenset` of the
entries, so their order does not count. -/
def addMember (key : Terms) (member : ℤ × α) : List (Group α) → List (Group α)
  | [] => [⟨key, [member]⟩]
  | group :: groups =>
    if group.key.Perm key then ⟨group.key, group.members ++ [member]⟩ :: groups
    else group :: addMember key member groups

def sortTerm (multiset : α → Option (Terms × ℤ)) (sorted : List α × List (Group α)) (arg : α) :
    List α × List (Group α) :=
  match multiset arg with
  | none => (sorted.1 ++ [arg], sorted.2)
  | some (terms, sign) =>
    if sign = 0 then sorted
    else
      let split := splitCoefficient terms
      (sorted.1, addMember split.2 (sign * split.1, arg) sorted.2)

/-- The terms of a sum less the groups whose coefficients add up to zero. -/
def cancelAdditiveInverses (multiset : α → Option (Terms × ℤ)) (args : List α) : List α :=
  let sorted := args.foldl (sortTerm multiset) ([], [])
  sorted.1 ++ (sorted.2.filter fun group => (group.members.map Prod.fst).sum ≠ 0).flatMap
    fun group => group.members.map Prod.snd

end FactorMultiset

section Bounds

local instance ten_atLeastTwo : Nat.AtLeastTwo 10 := ⟨by decide⟩

noncomputable def log10 (x : ℝ) : ℝ := Real.logb 10 x

/-- Logarithms that bound the printed numerator and denominator, and whether the
account is complete. -/
structure NumDen where
  num : ℝ
  den : ℝ
  resolved : Bool

noncomputable section

open Classical in
def digitCeilingText (magnitude : ℝ) (location : String) : Option String :=
  if magnitude ≤ 0 then none
  else if magnitude > 1e15 then
    some (s!"the result would have an unbounded number of digits{location}, over the limit of " ++
      s!"{maxNumericDigits}: it cannot be rendered as a decimal string")
  else if ⌊magnitude⌋₊ + 1 > maxNumericDigits then
    some (s!"the result would have about {⌊magnitude⌋₊ + 1} digits{location}, over the limit of " ++
      s!"{maxNumericDigits}: it cannot be rendered as a decimal string")
  else none

def ceilingMessageNumDen (num den : ℝ) : Option String :=
  match digitCeilingText num " in its numerator" with
  | some text => some text
  | none => digitCeilingText den " in its denominator"

def safeLog10Pow (baseMag : ℝ) (exp : ℤ) : ℝ := baseMag * exp

def expUpperBoundValue (expNum expDen : ℝ) : ℝ := (10 : ℝ) ^ (expNum - expDen)

open Classical in
def safeScaleLog10 (baseLog expUpper : ℝ) : ℝ := if baseLog ≤ 0 then 0 else baseLog * expUpper

def multisetLogNumDen (terms : Terms) : NumDen where
  num := ((terms.filter fun entry => 0 < entry.2).map fun entry =>
    safeLog10Pow (log10 entry.1) entry.2).sum
  den := ((terms.filter fun entry => entry.2 < 0).map fun entry =>
    safeLog10Pow (log10 entry.1) (-entry.2)).sum
  resolved := true

def maxOf : List ℝ → ℝ
  | [] => 0
  | first :: rest => rest.foldl max first

def NumDen.magnitude (bound : NumDen) : ℝ := bound.num - bound.den

/-- What the resolvers make of a node: `_log10_num_den`, `_resolve_arg_magnitude`
and `_resolved_table_aware_magnitude`. -/
structure Measured where
  node : Node
  numDen : NumDen
  arg : NumDen
  tableAware : NumDen

/-- The two sides of a rational literal. -/
def literalNumDen (value : ℚ) : NumDen where
  num := if value.num = 0 then 0 else log10 |(value.num : ℝ)|
  den := if value.den = 1 then 0 else log10 value.den
  resolved := true

def mulNumDen (args : List Measured) : NumDen where
  num := (args.map (·.numDen.num)).sum
  den := (args.map (·.numDen.den)).sum
  resolved := args.all (·.numDen.resolved)

def addNumDen (args : List Measured) : NumDen :=
  let surviving := cancelAdditiveInverses (fun arg => factorMultiset arg.node) args
  if surviving.isEmpty then ⟨0, 0, true⟩
  else
    let logDen := (surviving.map (·.numDen.den)).sum
    ⟨maxOf (surviving.map (·.numDen.num)) + logDen + log10 surviving.length, logDen,
      surviving.all (·.numDen.resolved)⟩

def powNumDen (base : NumDen) (exp : ℤ) : NumDen :=
  if exp = 0 then ⟨0, 0, true⟩
  else if !base.resolved && 1000 < exp.natAbs.size then ⟨0, 0, false⟩
  else if 0 < exp then ⟨safeLog10Pow base.num exp, safeLog10Pow base.den exp, base.resolved⟩
  else ⟨safeLog10Pow base.den (-exp), safeLog10Pow base.num (-exp), base.resolved⟩

/-- The base is a number of magnitude one, confirmed. -/
def NumDen.IsUnit (base : NumDen) : Prop := base.resolved ∧ base.num = 0 ∧ base.den = 0

open Classical in
def compoundPowNumDen (base exp : NumDen) : NumDen :=
  if base.IsUnit then ⟨0, 0, true⟩
  else if !exp.resolved || (ceilingMessageNumDen exp.num exp.den).isSome then ⟨0, 0, false⟩
  else if !base.resolved && 300 < exp.num - exp.den then ⟨0, 0, false⟩
  else
    let upper := expUpperBoundValue exp.num exp.den
    ⟨safeScaleLog10 base.num upper, safeScaleLog10 base.den upper, base.resolved⟩

def mulArgMagnitude (args : List Measured) : Option NumDen :=
  if args.all (·.arg.resolved) then some ⟨(args.map (·.arg.magnitude)).sum, 0, true⟩ else none

def addArgMagnitude (args : List Measured) : Option NumDen :=
  if args.all (·.arg.resolved) && !args.isEmpty then
    some ⟨maxOf (args.map (·.arg.magnitude)) + log10 args.length, 0, true⟩
  else none

open Classical in
/-- `_safe_pow10` gives up above 50. -/
def powArgMagnitude (base exp : NumDen) : Option NumDen :=
  if base.resolved ∧ 0 ≤ base.magnitude ∧ exp.resolved ∧ exp.magnitude ≤ 50 then
    some ⟨base.magnitude * (10 : ℝ) ^ exp.magnitude, 0, true⟩
  else none

def exactOr (node : Node) (otherwise : NumDen) : NumDen :=
  match factorMultiset node with
  | some (terms, _) => multisetLogNumDen terms
  | none => otherwise

def NumDen.orElse (first : NumDen) (second : NumDen) : NumDen :=
  if first.resolved then first else if second.resolved then second else first

/-- A product of one factor is that factor, so `Mul(*factors)` is read there. -/
def numerator (whole : NumDen) : List Measured → NumDen
  | [only] => only.arg
  | _ => whole

section Measure

variable (isNonnegative : Node → Bool)

mutual

/-- `isNonnegative` is SymPy's own verdict on the exponent of a power. -/
def measure : Node → Measured
  | .integer n =>
    let numDen := exactOr (.integer n) ⟨0, 0, false⟩
    ⟨.integer n, numDen, numDen, numDen⟩
  | .rational q =>
    let numDen := exactOr (.rational q) (literalNumDen q)
    ⟨.rational q, numDen, numDen, numDen⟩
  | .mul args =>
    let parts := measureAll args
    let numDen := exactOr (.mul args) (mulNumDen parts)
    let arg := numDen.orElse ((mulArgMagnitude parts).getD numDen)
    ⟨.mul args, numDen, arg, numDen.orElse (numerator arg parts)⟩
  | .add args =>
    let parts := measureAll args
    let numDen := exactOr (.add args) (addNumDen parts)
    let arg := numDen.orElse ((addArgMagnitude parts).getD numDen)
    ⟨.add args, numDen, arg, numDen.orElse arg⟩
  | .pow base (.integer exp) =>
    let numDen := exactOr (.pow base (.integer exp)) (powNumDen (measure base).numDen exp)
    let arg := numDen.orElse
      ((powArgMagnitude (measure base).arg (measure (.integer exp)).arg).getD numDen)
    ⟨.pow base (.integer exp), numDen, arg,
      if isNonnegative (.integer exp) then numDen.orElse arg else numDen⟩
  | .pow base exp =>
    let numDen := compoundPowNumDen (measure base).numDen (measure exp).tableAware
    let arg := numDen.orElse
      ((powArgMagnitude (measure base).arg (measure exp).arg).getD numDen)
    ⟨.pow base exp, numDen, arg, if isNonnegative exp then numDen.orElse arg else numDen⟩

def measureAll : List Node → List Measured
  | [] => []
  | arg :: args => measure arg :: measureAll args

end

def log10NumDen (node : Node) : NumDen := (measure isNonnegative node).numDen

end Measure

end
end Bounds

section Reject

variable (isNonnegative : Node → Bool)

/-- Both walks stop after this many nodes. -/
def walkBudget : ℕ := 20000

/-- The exponent of a power with a literal exponent is a count, not a number
that is printed. -/
def Node.scanned : Node → List Node
  | .pow base (.integer _) => [base]
  | .pow base exp => [base, exp]
  | node => node.args

noncomputable section

def nodeCeiling (node : Node) : Option String :=
  ceilingMessageNumDen (log10NumDen isNonnegative node).num (log10NumDen isNonnegative node).den

/-- The last argument is popped first.  A literal that is no integer is not looked
at. -/
def scanLoop : ℕ → List Node → Option String
  | 0, _ => none
  | _, [] => none
  | budget + 1, node :: stack =>
    if node.isRational then scanLoop budget stack
    else match nodeCeiling isNonnegative node with
    | some text => some text
    | none =>
      if (log10NumDen isNonnegative node).resolved then scanLoop budget stack
      else scanLoop budget (node.scanned.reverse ++ stack)

def numericCeilingScan (tree : Node) : Option String :=
  scanLoop isNonnegative walkBudget [tree]

def towerMessage : String :=
  "a power tower (an exponent that is itself a power) is not evaluated: the result grows " ++
    "faster than any useful bound"

open Classical in
def digitCountOverCap (magnitude : ℝ) (cap : ℕ) : Bool :=
  decide (1e15 < magnitude) || decide (cap < ⌊magnitude⌋₊ + 1)

def rootName : ℕ → String
  | 2 => "square root"
  | 3 => "cube root"
  | degree => s!"{degree}-th root"

/-- The rule for a unit fraction as the exponent, which is how a root is spelt. -/
def rootViolation (base : NumDen) (exp : ℚ) : Option String :=
  if exp.num = 1 ∧ 2 ≤ exp.den ∧ base.resolved ∧
      (digitCountOverCap base.num maxRootArgDigits || digitCountOverCap base.den maxRootArgDigits) then
    some (s!"the base of a {rootName exp.den} has more digits than the limit of " ++
      s!"{maxRootArgDigits}: computing the root is not safely bounded")
  else none

/-- One turn of the loop over the powers: what `base ** abs(exp)` costs before
the sides are swapped for a negative exponent. -/
def powViolation : Node → Option String
  | .pow base exp =>
    if exp.isPow then some towerMessage
    else match exp with
      | .integer exp =>
        let bound := log10NumDen isNonnegative base
        if |exp| ≤ 1 then none
        else if !bound.resolved then none
        else ceilingMessageNumDen (safeLog10Pow bound.num |exp|) (safeLog10Pow bound.den |exp|)
      | .rational exp => rootViolation (measure isNonnegative base).arg exp
      | _ => none
  | _ => none

def walkLoop : ℕ → List Node → Option String
  | 0, _ => none
  | _, [] => none
  | budget + 1, node :: stack =>
    match powViolation isNonnegative node with
    | some text => some text
    | none => walkLoop budget (node.args.reverse ++ stack)

def rejectExplosive (tree : Node) : Option String :=
  match numericCeilingScan isNonnegative tree with
  | some text => some text
  | none => walkLoop isNonnegative walkBudget [tree]

end
end Reject
end CodeCalc.SafeExpr
