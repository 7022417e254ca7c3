import Mathlib.Data.Int.Bitwise
import Mathlib.Data.List.Sort
import Mathlib.Data.Nat.Choose.Basic
import Mathlib.Data.Nat.Factorial.Basic
import Mathlib.Data.Nat.Size
import CodeCalc.Exact.Screen
import CodeCalc.Lib.Effect
import CodeCalc.Lib.Fraction

/-! The exact evaluator.  Values are exact rationals, except that a comparison
is a boolean and `//` leaves Python's `int`; what was approximated on the way
is recorded in two lists, and the result says so. -/
namespace CodeCalc.Exact
open Lib Errors

inductive ParseFailure where
  | syntaxError (message : String)
  | raised (exc : Exc)

/-- What the evaluator gets from the interpreter it runs in. -/
structure Interpreter where
  tokenize : String → Except TokenizeFailure (List Token)
  /-- The body of `ast.parse(expr, mode="eval")`. -/
  parse : String → Except ParseFailure Node
  ceilings : List Token → Option String
  /-- The public callables of `math`. -/
  mathFunctions : List String
  /-- A function on the float path, its result as a `Fraction`. -/
  floatCall : String → List ℚ → Except Exc ℚ
  /-- `Fraction(str(math.pow(float(a), float(b))))`. -/
  floatPow : ℚ → ℚ → Except Exc ℚ
  /-- What a function raises for arguments it does not take. -/
  complaint : String → List ℚ → Exc
  /-- `f"{Decimal(n) / Decimal(d):.12f}"` in the thread's decimal context. -/
  decimalText : ℚ → Except Exc String
  /-- `int(bits * 0.301029995663981) + 1`. -/
  digitEstimate : ℕ → ℕ
  /-- Positions in the tree are positions in the source. -/
  located : ∀ expr tree, parse expr = .ok tree →
    tree.Everywhere (Node.LocatedIn (sourceLines expr))
  equalsSign : ∀ expr tree tokens, parse expr = .ok tree → tokenize expr = .ok tokens →
    ⟨.op, "="⟩ ∉ tokens → tree.Everywhere Node.NoNamedKeyword

section Formatting

def intMaxStrDigits : ℕ := 4300

/-- `str(value)` of an integer. -/
def strInt (value : ℤ) : Except Exc String :=
  if (Nat.toDigits 10 value.natAbs).length ≤ intMaxStrDigits then .ok (toString value)
  else .error (.valueError ("Exceeds the limit (4300 digits) for integer string conversion; " ++
    "use sys.set_int_max_str_digits() to increase the limit"))

/-- `str(value)` of a fraction. -/
def strFraction (value : ℚ) : Except Exc String :=
  if value.den = 1 then strInt value.num
  else do
    let numerator ← strInt value.num
    let denominator ← strInt value.den
    .ok (numerator ++ "/" ++ denominator)

theorem short_iff (value : ℕ) :
    (Nat.toDigits 10 value).length ≤ intMaxStrDigits ↔ value < 10 ^ intMaxStrDigits :=
  Nat.length_toDigits_le_iff (by decide) (by decide)

theorem strInt_of_lt {value : ℤ} (below : value.natAbs < 10 ^ intMaxStrDigits) :
    strInt value = .ok (toString value) := by
  rw [strInt, if_pos ((short_iff _).mpr below)]

theorem strInt_ok {value : ℤ} {text : String} (shown : strInt value = .ok text) :
    value.natAbs < 10 ^ intMaxStrDigits ∧ text = toString value := by
  rw [strInt] at shown
  split at shown
  · rename_i short
    exact ⟨(short_iff _).mp short, (Except.ok.inj shown).symm⟩
  · cases shown

/-- A fraction whose two parts have at most as many digits as `str` writes. -/
def Printable (value : ℚ) : Prop :=
  value.num.natAbs < 10 ^ intMaxStrDigits ∧ value.den < 10 ^ intMaxStrDigits

theorem strFraction_of_printable {value : ℚ} (printable : Printable value) :
    ∃ text, strFraction value = .ok text := by
  have den : (value.den : ℤ).natAbs < 10 ^ intMaxStrDigits := printable.2
  rw [strFraction, strInt_of_lt printable.1, strInt_of_lt den]
  split
  · exact ⟨_, rfl⟩
  · exact ⟨_, rfl⟩

theorem printable_of_strFraction {value : ℚ} {text : String} (shown : strFraction value = .ok text) :
    Printable value := by
  rw [strFraction] at shown
  split at shown
  · rename_i whole
    refine ⟨(strInt_ok shown).1, ?_⟩
    rw [whole]
    exact Nat.one_lt_pow (by decide) (by decide)
  · rcases numerator : strInt value.num with exc | first
    · rw [numerator] at shown
      cases shown
    · rw [numerator] at shown
      rcases denominator : strInt value.den with exc | second
      · rw [denominator] at shown
        cases shown
      · exact ⟨(strInt_ok numerator).1, (strInt_ok denominator).1⟩

def raiseWith {α : Type} (exception : String → Exc) (text : Except Exc String) : Except Exc α :=
  match text with
  | .ok message => .error (exception message)
  | .error exc => .error exc

end Formatting

section Operators

def maxPowExponent : ℕ := 10000

def maxPowResultBits : ℕ := 50000

def bitLength (value : ℤ) : ℕ := value.natAbs.size

def BinOp.symbol : BinOp → String
  | .add => "+"
  | .sub => "-"
  | .mult => "*"
  | .div => "/"
  | .floorDiv => "//"
  | .mod => "%"
  | .pow => "**"
  | .bitAnd => "&"
  | .bitOr => "|"
  | .bitXor => "^"
  | .lShift => "<<"
  | .rShift => ">>"
  | .matMult => "@"

def asInt (value : ℚ) (op operand : String) : Except Exc ℤ :=
  if value.den ≠ 1 then
    raiseWith .valueError ((strFraction value).map fun text =>
      "bitwise " ++ op ++ " needs integers; " ++ operand ++ " is " ++ text)
  else .ok value.num

/-- The refusals of `_int_op` once both sides are integers. -/
def checkShift (left right : ℤ) (op : BinOp) : Except Exc Unit :=
  if (op = .lShift ∨ op = .rShift) ∧ right < 0 then
    raiseWith .valueError ((strInt right).map ("negative shift count " ++ ·))
  else if op = .lShift ∧ left ≠ 0 ∧ (maxPowResultBits : ℤ) < bitLength left + right then
    raiseWith .ceilingExceeded (do
      let leftText ← strInt left
      let rightText ← strInt right
      let bits ← strInt (bitLength left + right)
      .ok (leftText ++ " << " ++ rightText ++ " would need ~" ++ bits ++
        " bits to represent, exceeding the limit (50000) for exact arithmetic"))
  else .ok ()

/-- The five operators of `_INT_OPS`. -/
def bitwise (left right : ℤ) : BinOp → ℤ
  | .lShift => left <<< right.toNat
  | .rShift => left >>> right.toNat
  | .bitOr => left.lor right
  | .bitXor => left.xor right
  | _ => left.land right

def intOp (left right : ℚ) (op : BinOp) : Except Exc ℚ := do
  let leftInt ← asInt left op.symbol "left operand"
  let rightInt ← asInt right op.symbol "right operand"
  checkShift leftInt rightInt op
  .ok (bitwise leftInt rightInt op : ℚ)

/-- The two ceilings of `_pow_exact`. -/
def checkPow (base exponent : ℚ) : Except Exc Unit :=
  let bits := max (bitLength base.num) (bitLength base.den) * exponent.num.natAbs
  if (maxPowExponent : ℚ) < |exponent| then
    raiseWith .ceilingExceeded ((strFraction exponent).map fun text =>
      "exponent " ++ text ++ " exceeds the limit (10000) for exact exponentiation")
  else if exponent.den = 1 ∧ base ≠ 0 ∧ maxPowResultBits < bits then
    raiseWith .ceilingExceeded (do
      let baseText ← strFraction base
      let exponentText ← strFraction exponent
      .ok (baseText ++ "**" ++ exponentText ++ " would need ~" ++ toString bits ++
        " bits to represent, exceeding the limit (50000) for exact exponentiation"))
  else .ok ()

/-- `a ** b` of two fractions when the exponent is an integer. -/
def fractionPow (base : ℚ) (exponent : ℤ) : Except Exc ℚ :=
  if base = 0 ∧ exponent < 0 then .error (.zeroDivisionError "Fraction(1, 0)")
  else .ok (Fraction.power base exponent)

def exactSqrt (value : ℚ) : Option ℚ :=
  if value < 0 then none
  else
    let numerator := value.num.natAbs.sqrt
    let denominator := value.den.sqrt
    if numerator * numerator = value.num.natAbs ∧ denominator * denominator = value.den then
      some ((numerator : ℚ) / denominator)
    else none

end Operators

section Functions

def exactFuncs : List String := ["abs", "min", "max", "int", "round", "floor", "ceil", "trunc"]

def intFuncs : List String := ["factorial", "comb", "perm", "gcd", "lcm", "isqrt"]

/-- The functions added to those of `math` in `_FUNCS`. -/
def builtinFuncs : List String := ["abs", "min", "max", "round", "int", "float"]

/-- A function of `_EXACT_FUNCS` on fractions; `none` when it raises. -/
def exactCall : String → List ℚ → Option ℚ
  | "abs", [value] => some |value|
  | "min", first :: second :: rest => some ((second :: rest).foldl min first)
  | "max", first :: second :: rest => some ((second :: rest).foldl max first)
  | "int", [] => some 0
  | "int", [value] => some (Fraction.trunc value : ℚ)
  | "round", [value] => some (Fraction.round value : ℚ)
  | "floor", [value] => some (Fraction.floor value : ℚ)
  | "ceil", [value] => some (Fraction.ceil value : ℚ)
  | "trunc", [value] => some (Fraction.trunc value : ℚ)
  | _, _ => none

/-- The largest argument `math` counts up to, a signed 64-bit integer. -/
def maxCount : ℤ := 2 ^ 63 - 1

/-- A function of `_INT_FUNCS` on integers; `none` when it raises. -/
def intCall : String → List ℤ → Option ℕ
  | "factorial", [n] => if 0 ≤ n ∧ n ≤ maxCount then some n.toNat.factorial else none
  | "comb", [n, k] =>
      if 0 ≤ n ∧ 0 ≤ k ∧ min (n - k) k ≤ maxCount then some (n.toNat.choose k.toNat) else none
  | "perm", [n] => if 0 ≤ n ∧ n ≤ maxCount then some n.toNat.factorial else none
  | "perm", [n, k] =>
      if 0 ≤ n ∧ 0 ≤ k ∧ (n < k ∨ k ≤ maxCount) then some (n.toNat.descFactorial k.toNat) else none
  | "gcd", values => some (values.foldl (fun result value => result.gcd value.natAbs) 0)
  | "lcm", values => some (values.foldl (fun result value => result.lcm value.natAbs) 1)
  | "isqrt", [n] => if 0 ≤ n then some n.toNat.sqrt else none
  | _, _ => none

end Functions

section Evaluation

inductive Value where
  | bool (value : Bool)
  | rational (value : ℚ)
  /-- The `int` that `//` on two fractions returns. -/
  | int (value : ℤ)
  deriving DecidableEq

/-- `_APPROX_CONSTS_USED` and `_FLOAT_FUNCS_USED`. -/
structure Provenance where
  approxConsts : List String
  floatFuncs : List String
  deriving DecidableEq

abbrev Eval := Effect Provenance Exc

def useConst (name : String) : Eval Unit :=
  .modify fun used => { used with approxConsts := used.approxConsts ++ [name] }

def useFloat (name : String) : Eval Unit :=
  .modify fun used => { used with floatFuncs := used.floatFuncs ++ [name] }

def num : Value → Except Exc ℚ
  | .bool value => .ok (if value then 1 else 0)
  | .rational value => .ok value
  | .int _ => .error (.typeError "internal: expected an exact rational, got int")

/-- A value as a number, for the comparisons, which take any of them. -/
def Value.number : Value → ℚ
  | .bool value => if value then 1 else 0
  | .rational value => value
  | .int value => value

/-- `_CONSTS`: the exact value of each binary64 approximation. -/
def consts : List (String × ℚ) :=
  [("pi", 884279719003555 / 281474976710656), ("e", 6121026514868073 / 2251799813685248),
    ("tau", 884279719003555 / 140737488355328)]

/-- `Fraction(text.replace("_", ""))` of a float literal. -/
def readFraction (text : String) : Except Exc ℚ :=
  match fractionOfText (withoutUnderscores text.toList) with
  | some value => .ok value
  | none => .error (.valueError ("Invalid literal for Fraction: " ++ reprStr text))

def evLiteral (lines : List (List UInt8)) : Constant → Except Exc Value
  | .int value => (strInt value).map fun _ => .rational value
  | .float _ span => do
      let text ← literalText span lines
      (readFraction text).map .rational
  | .other repr => .error (.typeError ("unsupported literal " ++ repr))

def evName (id : String) : Eval Value :=
  match consts.lookup id with
  | some value => do
      useConst id
      pure (.rational value)
  | none => .raise (.valueError ("unknown name " ++ reprStr id))

def evUnary (op : UnaryOp) (operand : ℚ) : Except Exc Value :=
  match op with
  | .uAdd => .ok (.rational operand)
  | .uSub => .ok (.rational (-operand))
  | .invert => (asInt operand "~" "operand").map fun value => .rational (~~~value : ℤ)
  | .not => .error (.valueError "unsupported unary op")

/-- `_pow_exact`.  The root of a perfect square goes round once more with an
integer exponent; any other fractional power is a float. -/
def powExact (interpreter : Interpreter) (base exponent : ℚ) : Eval ℚ := do
  .ofExcept (checkPow base exponent)
  if exponent.den = 1 then .ofExcept (fractionPow base exponent.num)
  else
    match if exponent.den = 2 then exactSqrt base else none with
    | some root => do
        .ofExcept (checkPow root exponent.num)
        .ofExcept (fractionPow root exponent.num)
    | none => do
        useFloat "**"
        .ofExcept (interpreter.floatPow base exponent)

def evBinary (interpreter : Interpreter) (op : BinOp) (left right : ℚ) : Eval Value :=
  match op with
  | .add => pure (.rational (left + right))
  | .sub => pure (.rational (left - right))
  | .mult => pure (.rational (left * right))
  | .div =>
      if right = 0 then .raise (.zeroDivisionError "Fraction(1, 0)")
      else pure (.rational (left / right))
  | .floorDiv =>
      if right = 0 then .raise (.zeroDivisionError "division by zero")
      else pure (.int (Fraction.floorDiv left right))
  | .mod =>
      if right = 0 then .raise (.zeroDivisionError "division by zero")
      else pure (.rational (Fraction.modulo left right))
  | .pow => .rational <$> powExact interpreter left right
  | .matMult => .raise (.valueError "unsupported operator MatMult")
  | op => .ofExcept ((intOp left right op).map .rational)

def evCompare (op : CmpOp) (left right : Value) : Except Exc Value :=
  match op with
  | .gt => .ok (.bool (decide (right.number < left.number)))
  | .gtE => .ok (.bool (decide (right.number ≤ left.number)))
  | .lt => .ok (.bool (decide (left.number < right.number)))
  | .ltE => .ok (.bool (decide (left.number ≤ right.number)))
  | .eq => .ok (.bool (decide (left.number = right.number)))
  | .notEq => .ok (.bool (decide (left.number ≠ right.number)))
  | .other typeName => .error (.valueError ("unsupported comparison " ++ typeName))

/-- The result of a library function, or what it raises. -/
def orComplaint (interpreter : Interpreter) (name : String) (args : List ℚ) (result : Option ℚ) :
    Except Exc Value :=
  match result with
  | some value => .ok (.rational value)
  | none => .error (interpreter.complaint name args)

/-- `round(value, ndigits)`. -/
def roundTo (value ndigits : ℚ) : Except Exc Value :=
  if ndigits.den ≠ 1 then .error (.typeError "round() ndigits must be an integer")
  else
    let scale := Fraction.power 10 ndigits.num
    .ok (.rational (Fraction.round (value * scale) / scale))

def floatPath (interpreter : Interpreter) (name : String) (args : List ℚ) : Eval Value := do
  useFloat name
  .rational <$> .ofExcept (interpreter.floatCall name args)

/-- `_ev_call` once the arguments are evaluated. -/
def evFunction (interpreter : Interpreter) (name : String) (args : List ℚ) : Eval Value :=
  match name, args with
  | "round", [value, ndigits] => .ofExcept (roundTo value ndigits)
  | name, args =>
      if name ∈ exactFuncs then
        .ofExcept (orComplaint interpreter name args (exactCall name args))
      else if name ∈ intFuncs ∧ args.all (fun arg => arg.den = 1) = true then
        .ofExcept (orComplaint interpreter name args
          ((intCall name (args.map fun arg => arg.num)).map fun result : ℕ => (result : ℚ)))
      else
        match name, args with
        | "sqrt", [value] =>
            match exactSqrt value with
            | some root => pure (.rational root)
            | none => floatPath interpreter name args
        | name, args => floatPath interpreter name args

/-- `node.func.id in _FUNCS`, with the name when it is. -/
def callable (interpreter : Interpreter) : Node → Except Exc String
  | .name id =>
      if id ∈ interpreter.mathFunctions ∨ id ∈ builtinFuncs then .ok id
      else .error (.valueError "only whitelisted math functions are callable")
  | _ => .error (.valueError "only whitelisted math functions are callable")

mutual

def ev (interpreter : Interpreter) (lines : List (List UInt8)) : Node → Eval Value
  | .constant value => .ofExcept (evLiteral lines value)
  | .name id => evName id
  | .unaryOp .not _ => .raise (.valueError "unsupported unary op")
  | .unaryOp op operand => do
      let value ← ev interpreter lines operand
      let operand ← .ofExcept (num value)
      .ofExcept (evUnary op operand)
  | .binOp _ .matMult _ => .raise (.valueError "unsupported operator MatMult")
  | .binOp left op right => do
      let leftValue ← ev interpreter lines left
      let left ← .ofExcept (num leftValue)
      let rightValue ← ev interpreter lines right
      let right ← .ofExcept (num rightValue)
      evBinary interpreter op left right
  | .compare _ [(.other typeName, _)] =>
      .raise (.valueError ("unsupported comparison " ++ typeName))
  | .compare left [(op, right)] => do
      let leftValue ← ev interpreter lines left
      let rightValue ← ev interpreter lines right
      .ofExcept (evCompare op leftValue rightValue)
  | .compare _ _ => .raise (.valueError "chained comparisons not supported")
  /- The keywords are not looked at. -/
  | .call func args _ => do
      let name ← .ofExcept (callable interpreter func)
      let values ← evArgs interpreter lines args
      evFunction interpreter name values
  | .unsupported typeName => .raise (.valueError ("unsupported syntax: " ++ typeName))

def evArgs (interpreter : Interpreter) (lines : List (List UInt8)) : List Node → Eval (List ℚ)
  | [] => pure []
  | arg :: args => do
      let value ← ev interpreter lines arg
      let first ← .ofExcept (num value)
      let rest ← evArgs interpreter lines args
      pure (first :: rest)

end

end Evaluation

section Reporting

/-- `sorted(set(names))`. -/
def sortedSet (names : List String) : List String := names.dedup.insertionSort (· ≤ ·)

def commaSeparated : List String → String
  | [] => ""
  | [name] => name
  | name :: names => name ++ ", " ++ commaSeparated names

def disclosure (approxConsts floatFuncs : List String) : Fields :=
  if approxConsts = [] ∧ floatFuncs = [] then []
  else
    [("approximated", .arr ((floatFuncs ++ approxConsts).map .str)),
      ("note", .str (
        if approxConsts = [] then
          commaSeparated floatFuncs ++ " has no exact rational form; " ++
            "the value shown is the exact rational of a binary64 " ++
            "approximation, so this result is NOT exact"
        else
          commaSeparated approxConsts ++ " is irrational; the value " ++
            "used is the exact rational form of its binary64 " ++
            "approximation, so this result is NOT exact"))]

/-- `text.rstrip(char)`. -/
def rstrip (char : Char) (text : String) : String :=
  String.ofList (text.toList.reverse.dropWhile (· = char)).reverse

def formatResult (interpreter : Interpreter) (value : ℚ) : Except Exc (String × String) := do
  let decimal ← interpreter.decimalText value
  let exact ← strFraction value
  .ok (rstrip '.' (rstrip '0' decimal), exact)

/-- An exception as a result; one whose `str` raises gets away. -/
def failureResult (code : Exc → String → Code) (message : String → String) (exc : Exc) :
    Except Exc Fields :=
  match exc.message with
  | some text => .ok (errorResult (code exc text) (message text) [])
  | none => .error exc.unprintable

def tooManyDigits (interpreter : Interpreter) (value : ℚ) : String :=
  "the result has about " ++
    toString (interpreter.digitEstimate (max (bitLength value.num) (bitLength value.den))) ++
    " digits and is too large to format as a decimal string; reduce the size of the operands"

def reportRational (interpreter : Interpreter) (value : ℚ) (approxConsts floatFuncs : List String) :
    Except Exc Fields :=
  match formatResult interpreter value with
  | .ok (approx, exact) =>
      .ok ([("ok", .bool true), ("value", .str exact), ("approx", .str approx),
        ("exact", .bool (decide (approxConsts = [] ∧ floatFuncs = []))),
        ("differs_from_decimal", .bool (decide (exact ≠ approx))), ("type", .str "rational")] ++
        disclosure approxConsts floatFuncs)
  | .error exc =>
      if exc.isInstance .valueError then
        failureResult classify (fun _ => tooManyDigits interpreter value) exc
      else .error exc

def reportBool (value : Bool) (approxConsts floatFuncs : List String) : Fields :=
  [("ok", .bool true), ("value", .bool value), ("type", .str "bool")] ++
    if approxConsts = [] ∧ floatFuncs = [] then []
    else ("exact", .bool false) :: disclosure approxConsts floatFuncs

def report (interpreter : Interpreter) (value : Value) (used : Provenance) : Except Exc Fields :=
  match value with
  | .bool value => .ok (reportBool value (sortedSet used.approxConsts) (sortedSet used.floatFuncs))
  | .rational value =>
      reportRational interpreter value (sortedSet used.approxConsts) (sortedSet used.floatFuncs)
  | .int value => (strInt value).map fun text =>
      [("ok", .bool true), ("value", .str text), ("type", .str "int"), ("exact", .bool false)]

/-- The handlers of `_eval_exact`. -/
def reportFailure (exc : Exc) : Except Exc Fields :=
  if exc.isInstance .ceilingExceeded then failureResult (fun _ _ => .resourceExhausted) id exc
  else if exc.isInstance .zeroDivisionError then
    .ok (errorResult .validation "division by zero" [])
  else if exc.isInstance .exception then failureResult classify id exc
  else .error exc

def maxExprLen : ℕ := 2000

def refusal (message : String) : Fields := [("ok", .bool false), ("error", .str message)]

def evalExact (interpreter : Interpreter) (expr : String) : Except Exc Fields :=
  if maxExprLen < expr.length then .ok (refusal "expression too long (max 2000 chars)")
  else
    match classifyUnsafe interpreter.tokenize interpreter.ceilings expr with
    | some (category, message) => .ok (errorResult category.code message [])
    | none =>
        match interpreter.parse expr with
        | .error (.syntaxError message) => .ok (refusal ("parse error: " ++ message))
        | .error (.raised exc) => .error exc
        | .ok tree =>
            match (ev interpreter (sourceLines expr) tree).run ⟨[], []⟩ with
            | (.ok value, used) => report interpreter value used
            | (.error exc, _) => reportFailure exc

end Reporting

end CodeCalc.Exact
