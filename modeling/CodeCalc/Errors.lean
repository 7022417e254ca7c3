import CodeCalc.Python

/-! The failing half of the result contract: stable codes, the remedy each one
carries, and the version stamp every result leaves with. -/
namespace CodeCalc.Errors
open Lib

inductive Code where
  | validation
  | runtimeUnavailable
  | timeout
  | resourceExhausted
  | permissionDenied
  | dependencyMissing
  | workerFailure
  | internal
  deriving DecidableEq, Repr

def Code.name : Code → String
  | .validation => "validation"
  | .runtimeUnavailable => "runtime_unavailable"
  | .timeout => "timeout"
  | .resourceExhausted => "resource_exhausted"
  | .permissionDenied => "permission_denied"
  | .dependencyMissing => "dependency_missing"
  | .workerFailure => "worker_failure"
  | .internal => "internal"

def remedies : Code → String
  | .validation => "fix the arguments and retry; the message names the field"
  | .runtimeUnavailable =>
      "install the runtime, or call list_languages to see what this host has"
  | .timeout => "raise `timeout`, or reduce the work; a partial result is not returned"
  | .resourceExhausted =>
      "raise the relevant ceiling (max_memory_mb, max_output_kb) or reduce the work"
  | .permissionDenied =>
      "the path or operation is outside what this server permits; it will not succeed on retry"
  | .dependencyMissing => "install the named extra; the message gives the exact pip command"
  | .workerFailure => "the session is unusable — call session_stop and start a new one"
  | .internal => "a defect in codecalc; the message is worth reporting verbatim"

def errorResult (code : Code) (message : String) (extra : Fields) : Fields :=
  mergeFields [("ok", .bool false), ("code", .str code.name), ("error", .str message),
    ("remedy", .str (remedies code))] extra

def messageHints : List (String × Code) :=
  [("timed out", .timeout), ("timeout", .timeout), ("memory ceiling", .resourceExhausted),
    ("memory", .resourceExhausted), ("too long", .resourceExhausted),
    ("too deeply nested", .resourceExhausted), ("too many", .resourceExhausted),
    ("resource limit", .resourceExhausted), ("exceeded", .resourceExhausted),
    ("stack overflow", .resourceExhausted), ("not installed", .dependencyMissing),
    ("ships in the", .dependencyMissing), ("permission", .permissionDenied),
    ("escapes", .permissionDenied), ("outside", .permissionDenied), ("refus", .permissionDenied),
    ("worker", .workerFailure), ("session is", .workerFailure), ("desync", .workerFailure),
    ("runtime unavailable", .runtimeUnavailable), ("not found in path", .runtimeUnavailable),
    ("unknown language", .validation), ("unknown session", .validation),
    ("no such file", .validation), ("no such directory", .validation),
    ("parse error", .validation), ("could not parse", .validation),
    ("could not be tokenised", .validation), ("sympify", .validation),
    ("unexpected character", .validation), ("invalid", .validation), ("must be", .validation),
    ("empty", .validation), ("at least", .validation), ("is zero", .validation),
    ("negative", .validation), (">=", .validation), ("unknown", .validation)]

/-- `message.lower()` as far as an ASCII needle can tell. -/
def lower (message : String) : String :=
  message.map fun char => if char = '\u212A' then 'k' else char.toLower

def fromMessage (message : String) : Code :=
  match messageHints.find? fun hint => isIn hint.1 (lower message) with
  | some hint => hint.2
  | none => .internal

/-- `classify(exc)` of an exception whose `str` is `message`. -/
def classify (exc : Exc) (message : String) : Code :=
  if exc.isInstance .missingExtra then .dependencyMissing
  else if exc.isInstance .timeoutError then .timeout
  else if exc.isInstance .memoryError then .resourceExhausted
  else if exc.isInstance .recursionError then .resourceExhausted
  else if exc.isInstance .permissionError then .permissionDenied
  else if exc.isInstance .fileNotFoundError then .runtimeUnavailable
  else if exc.isInstance .importError then .dependencyMissing
  else if exc.isInstance .valueError && isIn "integer string conversion" message &&
      isIn "int_max_str_digits" message then .resourceExhausted
  else if exc.caughtBy [.valueError, .typeError, .keyError, .indexError, .arithmeticError] then
    .validation
  else if exc.isInstance .osError then .internal
  else fromMessage message

def contractVersion : String := "1.20.0"

/-- `contract.stamp`: a version already present is kept. -/
def stamp (result : Fields) : Fields :=
  setDefault result "contract_version" (.str contractVersion)

end CodeCalc.Errors
