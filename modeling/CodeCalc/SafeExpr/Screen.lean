import CodeCalc.Lib.Text
import CodeCalc.Python

/-! The screen every caller string passes before it reaches SymPy: the table of
bounded argument positions, and the checks made on the tokens alone. -/
namespace CodeCalc.SafeExpr
open Lib

section Tables

inductive CapKind where
  | value
  | digits
  deriving DecidableEq, Repr

structure Cap where
  kind : CapKind
  limit : Nat
  deriving DecidableEq, Repr

def maxFactorArgDigits : Nat := 25
def maxRootArgDigits : Nat := 1200
def maxHeavyArg : Nat := 1463
def maxHermiteOrder : Nat := 700
def maxHermiteProbOrder : Nat := 750
def maxChebyshevTOrder : Nat := 800
def maxChebyshevUOrder : Nat := 900
def maxGegenbauerOrder : Nat := 850
def maxLegendreOrder : Nat := 300
def maxAssocLegendreOrder : Nat := 300
def maxJacobiOrder : Nat := 300
def maxLaguerreOrder : Nat := 140
def maxAssocLaguerreOrder : Nat := 140
def maxNumericDigits : Nat := 4000
def maxIthPrimeSkip : Nat := 1000

def heavyFunctions : List String :=
  ["factorial", "factorial2", "subfactorial", "binomial", "fibonacci", "lucas", "tribonacci",
    "catalan", "bernoulli", "euler", "harmonic", "primorial", "prime", "primepi", "gamma",
    "loggamma", "rf", "ff", "RisingFactorial", "FallingFactorial", "npartitions", "totient",
    "divisor_sigma", "bell", "genocchi", "motzkin", "andre", "partition", "digamma", "zeta",
    "polygamma"]

/-- `dict.fromkeys(names, cap)`. -/
def fromKeys {κ α : Type} (names : List κ) (value : α) : List (κ × α) :=
  names.map fun name => (name, value)

def functionArgCaps : List (String × Cap) :=
  fromKeys heavyFunctions ⟨.value, maxHeavyArg⟩ ++
  fromKeys ["factorint", "primefactors", "divisors", "mobius", "nextprime", "isprime"]
    ⟨.digits, maxFactorArgDigits⟩ ++
  fromKeys ["sqrt", "root", "cbrt"] ⟨.digits, maxRootArgDigits⟩ ++
  [("hermite", ⟨.value, maxHermiteOrder⟩), ("hermite_prob", ⟨.value, maxHermiteProbOrder⟩),
    ("chebyshevt", ⟨.value, maxChebyshevTOrder⟩), ("chebyshevu", ⟨.value, maxChebyshevUOrder⟩),
    ("gegenbauer", ⟨.value, maxGegenbauerOrder⟩), ("legendre", ⟨.value, maxLegendreOrder⟩),
    ("assoc_legendre", ⟨.value, maxAssocLegendreOrder⟩), ("jacobi", ⟨.value, maxJacobiOrder⟩),
    ("jacobi_normalized", ⟨.value, maxJacobiOrder⟩), ("laguerre", ⟨.value, maxLaguerreOrder⟩),
    ("assoc_laguerre", ⟨.value, maxAssocLaguerreOrder⟩)]

/-- The caps of the positions after the first. -/
def extraBoundedPositions : List (String × List (Nat × Cap)) :=
  fromKeys ["rf", "ff", "RisingFactorial", "FallingFactorial", "polygamma", "divisor_sigma"]
    [(1, ⟨.value, maxHeavyArg⟩)] ++
  [("nextprime", [(1, ⟨.value, maxIthPrimeSkip⟩)])] ++
  fromKeys ["bell", "bernoulli", "euler", "fibonacci", "genocchi", "harmonic", "tribonacci",
    "zeta"] [(1, ⟨.value, maxHeavyArg⟩)] ++
  [("N", [(1, ⟨.value, maxNumericDigits⟩)]), ("series", [(3, ⟨.value, 100⟩)]),
    ("fps", [(5, ⟨.value, 100⟩)])] ++
  fromKeys ["hermite", "hermite_prob", "chebyshevt", "chebyshevu", "legendre", "laguerre"]
    [(1, ⟨.value, maxHeavyArg⟩)] ++
  fromKeys ["gegenbauer", "assoc_legendre"]
    [(1, ⟨.value, maxHeavyArg⟩), (2, ⟨.value, maxHeavyArg⟩)] ++
  fromKeys ["jacobi", "jacobi_normalized"]
    [(1, ⟨.value, maxHeavyArg⟩), (2, ⟨.value, maxHeavyArg⟩), (3, ⟨.value, maxHeavyArg⟩)] ++
  [("assoc_laguerre", [(1, ⟨.value, maxHeavyArg⟩), (2, ⟨.value, maxHeavyArg⟩)])]

def unboundedPositions : List (String × List Nat) :=
  [("binomial", [1]), ("bell", [2]), ("primorial", [1]), ("npartitions", [1]),
    ("factorint", [1, 2, 3, 4, 5, 6, 7, 8]), ("primefactors", [1, 2]), ("divisors", [1, 2]),
    ("root", [1, 2, 3]), ("sqrt", [1]), ("cbrt", [1])]

def positionSpec (name : String) (position : Nat) : Option Cap :=
  if position ∈ (unboundedPositions.lookup name).getD [] then none
  else if position = 0 then functionArgCaps.lookup name
  else ((extraBoundedPositions.lookup name).getD []).lookup position

/-- The names screened by a table of their own. -/
def tabled (name : String) : Bool :=
  (functionArgCaps.lookup name).isSome || (extraBoundedPositions.lookup name).isSome

end Tables

section Tokens

inductive TokenType where
  | name
  | number
  /-- `STRING`, and `FSTRING_START` where Python has it. -/
  | string
  | op
  | other
  deriving DecidableEq, Repr

structure Token where
  type : TokenType
  string : String
  deriving DecidableEq, Repr

namespace Token

def isOp (token : Token) (spelling : String) : Bool :=
  token.type == .op && token.string == spelling

end Token

/-- The digits of a run with single underscores between them. -/
def groupedDigits (isDigit : Char → Bool) (chars : List Char) : Option (List Char) :=
  let groups := chars.splitOn '_'
  if groups.all fun group => !group.isEmpty && group.all isDigit then some groups.flatten else none

def isHexDigit (char : Char) : Bool :=
  char.isDigit || ('a' ≤ char && char ≤ 'f') || ('A' ≤ char && char ≤ 'F')

def hexValue (char : Char) : Nat :=
  if char.isDigit then char.toNat - 48
  else if 'a' ≤ char then char.toNat - 87
  else char.toNat - 55

def ofDigits (base : Nat) (digits : List Char) : Nat :=
  digits.foldl (fun value digit => base * value + hexValue digit) 0

def maxStrDigits : Nat := 4300

/-- `int(string, 0)`: `none` is `ValueError`, which a decimal literal of more
than 4300 digits raises as well. -/
def intLiteral (string : String) : Option Nat :=
  match string.toList with
  | '0' :: 'x' :: rest | '0' :: 'X' :: rest => prefixed 16 isHexDigit rest
  | '0' :: 'o' :: rest | '0' :: 'O' :: rest => prefixed 8 (fun char => '0' ≤ char && char ≤ '7') rest
  | '0' :: 'b' :: rest | '0' :: 'B' :: rest => prefixed 2 (fun char => char == '0' || char == '1') rest
  | chars =>
    match groupedDigits Char.isDigit chars with
    | none => none
    | some digits =>
      if digits.head? = some '0' ∧ digits.any (· ≠ '0') then none
      else if maxStrDigits < digits.length then none
      else some (ofDigits 10 digits)
where
  prefixed (base : Nat) (isDigit : Char → Bool) (rest : List Char) : Option Nat :=
    (groupedDigits isDigit (if rest.head? = some '_' then rest.tail else rest)).map (ofDigits base)

/-- `str(value)`, which raises past 4300 digits. -/
def strOfInt (value : Nat) : Option String :=
  if maxStrDigits < (Nat.toDigits 10 value).length then none else some (Nat.repr value)

end Tokens

section Literals

/- `approxDecimalDigits` is `_approx_decimal_digits`, computed in double
precision. -/
variable (approxDecimalDigits : Nat → Nat)

def exactDecimalDigitCount (string : String) : Option Nat :=
  let chars := string.toList.filter (· ≠ '_')
  match chars with
  | '0' :: mark :: _ =>
    if mark ∈ ['x', 'X', 'o', 'O', 'b', 'B'] then none else some (stripped chars)
  | _ => some (stripped chars)
where
  stripped (chars : List Char) : Nat := max 1 (chars.dropWhile (· = '0')).length

def literalDigits (string : String) (value : Nat) : Nat :=
  (exactDecimalDigitCount string).getD (approxDecimalDigits value)

def describeValue (value : Nat) : String :=
  (strOfInt value).getD ("(~" ++ Nat.repr (approxDecimalDigits value) ++ " digits)")

def oversizedMessage (value : Nat) (name : String) (limit : Nat) : String :=
  "argument " ++ describeValue approxDecimalDigits value ++ " to " ++ name ++
    "() exceeds the limit of " ++ Nat.repr limit ++
    ": computing it would take an unbounded amount of time and memory"

/-- One call of a heavy function, from its opening parenthesis on. -/
def heavyCall (name : String) (position : Nat) (depth : Int) : List Token → Option String
  | [] => none
  | token :: rest =>
    if token.isOp "(" then heavyCall name position (depth + 1) rest
    else if token.isOp ")" then
      if depth = 1 then none else heavyCall name position (depth - 1) rest
    else if token.isOp "," && depth == 1 then heavyCall name (position + 1) depth rest
    else if token.type = .number then
      match positionSpec name position, intLiteral token.string with
      | some cap, some value =>
        if cap.limit < value then some (oversizedMessage approxDecimalDigits value name cap.limit)
        else heavyCall name position depth rest
      | _, _ => heavyCall name position depth rest
    else heavyCall name position depth rest

def atCalls (names : String → Bool) (check : String → List Token → Option String) :
    List Token → Option String
  | [] => none
  | token :: rest =>
    let here :=
      if token.type = .name ∧ names token.string then
        match rest with
        | next :: _ => if next.string = "(" then check token.string rest else none
        | [] => none
      else none
    match here with
    | some message => some message
    | none => atCalls names check rest

def heavyCallViolation (tokens : List Token) : Option String :=
  atCalls (fun name => decide (name ∈ heavyFunctions))
    (fun name => heavyCall approxDecimalDigits name 0 0) tokens

def callArgCapViolation (name : String) (cap : Cap) (literals : List (Nat × Nat)) :
    Option String :=
  match literals with
  | [] => none
  | (value, _) :: others =>
    match cap.kind with
    | .value =>
      if others ≠ [] then none
      else if value ≤ cap.limit then none
      else some (oversizedMessage approxDecimalDigits value name cap.limit)
    | .digits =>
      let totalDigits := (literals.map Prod.snd).sum
      if totalDigits ≤ cap.limit then none
      else if others = [] then
        some ("an argument to " ++ name ++ "() has about " ++ Nat.repr totalDigits ++
          " digits, over the limit of " ++ Nat.repr cap.limit ++
          ": computing it is not safely bounded")
      else
        some ("the sum of the literal digits combined in one argument to " ++ name ++
          "() is about " ++ Nat.repr totalDigits ++ ", over the limit of " ++
          Nat.repr cap.limit ++ ": computing their product is not safely bounded")

/-- One call of a tabled function, from its opening parenthesis on, with the
literals of the argument it is in. -/
def boundedCall (name : String) (position : Nat) (depth : Int) (literals : List (Nat × Nat)) :
    List Token → Option String
  | [] => none
  | token :: rest =>
    let finding := (positionSpec name position).bind fun cap =>
      callArgCapViolation approxDecimalDigits name cap literals
    if token.isOp "(" then boundedCall name position (depth + 1) literals rest
    else if token.isOp ")" then
      if depth = 1 then finding else boundedCall name position (depth - 1) literals rest
    else if token.isOp "," && depth == 1 then
      match finding with
      | some message => some message
      | none => boundedCall name (position + 1) depth [] rest
    else if token.type = .number then
      match intLiteral token.string with
      | some value =>
        boundedCall name position depth
          (literals ++ [(value, literalDigits approxDecimalDigits token.string value)]) rest
      | none => boundedCall name position depth literals rest
    else boundedCall name position depth literals rest

def oversizedCallArgViolation (tokens : List Token) : Option String :=
  atCalls (fun name => (functionArgCaps.lookup name).isSome)
    (fun name => boundedCall approxDecimalDigits name 0 0 []) tokens

/-- The rest of a literal behind its `e`, read as an exponent. -/
def exponentDigits (chars : List Char) : Option (List Char) :=
  let body := match chars.getLast? with
    | some 'j' | some 'J' => chars.dropLast
    | _ => chars
  groupedDigits Char.isDigit <|
    match body with
    | '+' :: digits | '-' :: digits => digits
    | digits => digits

/-- The magnitude of the exponent of a literal in scientific notation. -/
def scientificExponent (string : String) : Option Nat :=
  let digits := string.toList.tails.findSome? fun tail =>
    match tail with
    | 'e' :: rest | 'E' :: rest => exponentDigits rest
    | _ => none
  digits.bind fun digits =>
    if maxStrDigits < digits.length then none else some (ofDigits 10 digits)

def hasRadixPrefix (string : String) : Bool :=
  match string.toList with
  | '0' :: mark :: _ => decide (mark ∈ ['x', 'X', 'o', 'O', 'b', 'B'])
  | _ => false

def oversizedScientificLiteralViolation (tokens : List Token) : Option String :=
  tokens.findSome? fun token =>
    if token.type ≠ .number ∨ hasRadixPrefix token.string then none
    else
      match scientificExponent token.string with
      | none => none
      | some exponent =>
        if maxNumericDigits < exponent then
          some ("the exponent of '" ++ token.string ++ "' has a magnitude of " ++
            Nat.repr exponent ++ ", over the limit of " ++ Nat.repr maxNumericDigits ++
            ": constructing it is not safely bounded")
        else none

end Literals

section Classify

inductive Category where
  | validation
  | security
  | ceiling
  deriving DecidableEq, Repr

structure Refusal where
  category : Category
  message : String
  deriving DecidableEq, Repr

def deniedKeywords : List String :=
  ["lambda", "import", "from", "for", "while", "if", "else", "elif", "class", "def", "return",
    "yield", "await", "async", "global", "nonlocal", "with", "as", "assert", "del", "raise",
    "try", "except", "finally", "pass", "break", "continue", "is", "in"]

def deniedOps : List String :=
  [".", "[", "]", "\x7b", "\x7d", ":", ";", "=", ":=", "@", "->", "..."]

def internalScanFailureMessage : String :=
  "this expression cannot be safely bounded: an unexpected internal error occurred while " ++
    "scanning it"

def quoted (string : String) : String := "'" ++ string ++ "'"

/-- A control character that is no whitespace of the source grammar. -/
def isControl (code : CodePoint) : Bool :=
  (code.val < 0x20 || code.val == 0x7f) && !decide (code.val ∈ [9, 10, 12, 13])

/-- The `:04X` spelling of a code point below 256. -/
def hexCode (code : CodePoint) : String :=
  String.ofList ('0' :: '0' :: (Nat.toDigits 16 (code.val / 16)).map Char.toUpper ++
    (Nat.toDigits 16 (code.val % 16)).map Char.toUpper)

def controlCharacterViolation (expression : Text) : Option Refusal :=
  (expression.find? isControl).map fun code =>
    if code.val = 0 then
      ⟨.validation,
        "expression could not be tokenised: source code cannot contain null bytes"⟩
    else
      ⟨.validation,
        "expression could not be tokenised: invalid non-printable character U+" ++ hexCode code⟩

def tokenViolation (token : Token) : Option Refusal :=
  match token.type with
  | .name =>
    if token.string.toList.head? = some '_' then
      some ⟨.security, "identifier " ++ quoted token.string ++
        " is not permitted: leading underscores reach Python internals"⟩
    else if token.string ∈ deniedKeywords then
      some ⟨.security, "keyword " ++ quoted token.string ++ " is not permitted in an expression"⟩
    else none
  | .string => some ⟨.security, "string literals are not permitted in an expression"⟩
  | .op =>
    if token.string ∈ deniedOps then
      if token.string = "." then
        some ⟨.security, "attribute access is not permitted in an expression"⟩
      else if token.string ∈ ["[", "]"] then
        some ⟨.security, "matrices can't be written in evaluate_expression (the [ ] used for a " ++
          "subscript escape are refused here for the same reason a list literal is); use the " ++
          "matrix tool instead (det/inverse/eigenvalues/transpose/rank/trace)"⟩
      else some ⟨.security, quoted token.string ++ " is not permitted in an expression"⟩
    else none
  | _ => none

/-- What `tokenize` raises on a source it cannot read. -/
structure TokenizeFailure where
  isSystemError : Bool
  message : String

def classifyUnsafe (approxDecimalDigits : Nat → Nat)
    (tokenize : Text → Except TokenizeFailure (List Token)) (expression : Text) :
    Option Refusal :=
  match controlCharacterViolation expression with
  | some refusal => some refusal
  | none =>
    match tokenize expression with
    | .error failure =>
      if failure.isSystemError then some ⟨.ceiling, internalScanFailureMessage⟩
      else some ⟨.validation, "expression could not be tokenised: " ++ failure.message⟩
    | .ok tokens =>
      match tokens.findSome? tokenViolation with
      | some refusal => some refusal
      | none =>
        ((heavyCallViolation approxDecimalDigits tokens).or
          ((oversizedCallArgViolation approxDecimalDigits tokens).or
            (oversizedScientificLiteralViolation tokens))).map fun message => ⟨.ceiling, message⟩

end Classify

end CodeCalc.SafeExpr
