import CodeCalc.Errors
import CodeCalc.Exact.Syntax

/-! The screen in front of every expression evaluator (`safe_expr`): what it
refuses by its characters and tokens alone.  Its three size checks on calls and
literals only ever refuse more, and stand here as one parameter. -/
namespace CodeCalc.Exact
open Errors

inductive TokenKind where
  | name
  /-- `STRING` or `FSTRING_START`. -/
  | string
  | op
  | other
  deriving DecidableEq

structure Token where
  kind : TokenKind
  string : String
  deriving DecidableEq

inductive Category where
  | validation
  | security
  | ceiling
  deriving DecidableEq

/-- `errors.code_for_safe_expr_category`. -/
def Category.code : Category → Code
  | .validation => .validation
  | .security => .permissionDenied
  | .ceiling => .resourceExhausted

/-- What the tokenizer raised; a `SystemError` is reported apart. -/
structure TokenizeFailure where
  systemError : Bool
  message : String

def deniedKeywords : List String :=
  ["lambda", "import", "from", "for", "while", "if", "else", "elif", "class", "def", "return",
    "yield", "await", "async", "global", "nonlocal", "with", "as", "assert", "del", "raise", "try",
    "except", "finally", "pass", "break", "continue", "is", "in"]

def deniedOps : List String :=
  [".", "[", "]", "\x7b", "\x7d", ":", ";", "=", ":=", "@", "->", "..."]

/-- A C0 control character or DEL that is no whitespace of the grammar. -/
def isHazard (char : Char) : Bool :=
  (decide (char.toNat < 0x20) || char == '\x7f') &&
    !(char == '\t' || char == '\n' || char == '\x0c' || char == '\r')

/-- `f"{value:04X}"`. -/
def hexFour (value : ℕ) : String :=
  String.ofList (((Nat.toDigits 16 value).map Char.toUpper).leftpad 4 '0')

def controlCharacterViolation (expression : String) : Option String :=
  (expression.toList.find? isHazard).map fun char =>
    if char = '\x00' then
      "expression could not be tokenised: source code cannot contain null bytes"
    else "expression could not be tokenised: invalid non-printable character U+" ++
      hexFour char.toNat

def tokenViolation (token : Token) : Option String :=
  match token.kind with
  | .name =>
      if token.string.startsWith "_" then
        some ("identifier " ++ reprStr token.string ++
          " is not permitted: leading underscores reach Python internals")
      else if token.string ∈ deniedKeywords then
        some ("keyword " ++ reprStr token.string ++ " is not permitted in an expression")
      else none
  | .string => some "string literals are not permitted in an expression"
  | .op =>
      if token.string ∈ deniedOps then
        if token.string = "." then some "attribute access is not permitted in an expression"
        else if token.string = "[" ∨ token.string = "]" then
          some ("matrices can't be written in evaluate_expression " ++
            "(the [ ] used for a subscript escape are refused here " ++
            "for the same reason a list literal is); use the " ++
            "matrix tool instead (det/inverse/eigenvalues/transpose/rank/trace)")
        else some (reprStr token.string ++ " is not permitted in an expression")
      else none
  | .other => none

def internalScanFailureMessage : String :=
  "this expression cannot be safely bounded: an unexpected internal error occurred " ++
    "while scanning it"

/-- `classify_unsafe(expression)`.  `ceilings` is the first complaint of the
checks on heavy calls, call arguments and scientific literals. -/
def classifyUnsafe (tokenize : String → Except TokenizeFailure (List Token))
    (ceilings : List Token → Option String) (expression : String) : Option (Category × String) :=
  match controlCharacterViolation expression with
  | some message => some (.validation, message)
  | none =>
      match tokenize expression with
      | .error failure =>
          if failure.systemError then some (.ceiling, internalScanFailureMessage)
          else some (.validation, "expression could not be tokenised: " ++ failure.message)
      | .ok tokens =>
          match tokens.findSome? tokenViolation with
          | some message => some (.security, message)
          | none => (ceilings tokens).map fun message => (.ceiling, message)

/-- An expression that passes has no token the screen objects to. -/
theorem classifyUnsafe_none {tokenize : String → Except TokenizeFailure (List Token)}
    {ceilings : List Token → Option String} {expression : String}
    (h : classifyUnsafe tokenize ceilings expression = none) :
    ∃ tokens, tokenize expression = .ok tokens ∧ ∀ token ∈ tokens, tokenViolation token = none := by
  unfold classifyUnsafe at h
  split at h
  · cases h
  · split at h
    · split at h <;> cases h
    · rename_i tokens htokens
      split at h
      · cases h
      · rename_i hnone
        exact ⟨tokens, htokens, List.findSome?_eq_none_iff.mp hnone⟩

theorem equalsSign_refused {tokens : List Token}
    (accepted : ∀ token ∈ tokens, tokenViolation token = none) : ⟨.op, "="⟩ ∉ tokens := by
  intro member
  have hviolation : tokenViolation ⟨.op, "="⟩ ≠ none := by decide
  exact hviolation (accepted _ member)

end CodeCalc.Exact
