import CodeCalc.Errors
import CodeCalc.Lib.JsonPrefix
import CodeCalc.Lib.Utf8

/-! `guarded_call`: a function runs in a child that may be killed at any moment and
answers over a pipe; the parent reads what comes until the pipe closes or the time is
over. -/
namespace CodeCalc.Guarded

open Lib JsonCodec Utf8

abbrev Members := List (Text × JsonValue)

section Contract

def okKey : Text := Text.ofString "ok"

def codeKey : Text := Text.ofString "code"

def errorKey : Text := Text.ofString "error"

def remedyKey : Text := Text.ofString "remedy"

def valueKey : Text := Text.ofString "value"

def unenforcedKey : Text := Text.ofString "unenforced"

def codeInferredKey : Text := Text.ofString "code_inferred"

def errorResult (code : Errors.Code) (message : Text) : Members :=
  [(okKey, .bool false), (codeKey, .str (Text.ofString code.name)), (errorKey, .str message),
    (remedyKey, .str (Text.ofString (Errors.remedies code)))]

/-- `error_result` as `json.dumps` is given it. -/
def errorDoc (code : Errors.Code) (message : Text) : Doc :=
  .obj [(okKey, .bool false), (codeKey, .str (Text.ofString code.name)), (errorKey, .str message),
    (remedyKey, .str (Text.ofString (Errors.remedies code)))]

end Contract

/-- The interpreter and the ceilings of a call. -/
structure Guard where
  /-- The limits of `json.loads`. -/
  limits : Limits
  nests : 0 < limits.nesting
  cpuSeconds : Int
  memoryMb : Int
  wallSeconds : Int

section Child

/-- What `json.dumps` wrote for a result that the decoder takes. -/
structure Returned (limits : Limits) extends ObjectText limits where
  ascii : Ascii text
  result : JsonValue
  same : value = .obj [(okKey, .bool true), (valueKey, result)]

/-- How the function ends in the child. -/
inductive Outcome (limits : Limits) where
  | returned (answer : Returned limits)
  | memoryError
  /-- Any other exception: `errors.classify(exc)` and `f"{type(exc).__name__}: {exc}"` -/
  | raised (code : Errors.Code) (shown : Text)
  /-- An exception that cannot be shown -/
  | unshown

def maxPayloadBytes : Nat := 4 * 1024 * 1024

variable {limits : Limits}

def failureDoc : Outcome limits → Doc
  | .returned _ => .null
  | .memoryError => errorDoc .resourceExhausted (Text.ofString "expression exhausted the memory ceiling")
  | .raised code shown => errorDoc code (shown.take 2000)
  | .unshown => .obj [(okKey, .bool false), (errorKey, .str (Text.ofString "evaluation failed"))]

def payload : Outcome limits → Text
  | .returned answer => answer.text
  | outcome => dumps (failureDoc outcome)

/-- What the child writes when nothing stops it. -/
def data (outcome : Outcome limits) : Bytes := (encodeText (payload outcome)).take maxPayloadBytes

end Child

section Parent

/-- One turn of the parent's loop. -/
inductive Poll where
  /-- `remaining <= 0` -/
  | overdue
  /-- `select` comes back with nothing ready -/
  | quiet
  | chunk (bytes : Bytes)
  /-- `os.read` gives nothing: the pipe is closed -/
  | closed

/-- The pipe gives the parent what the child wrote, piece by piece, and is closed only
after the last of it. -/
inductive Conveys : Bytes → List Poll → Prop
  | still (pending : Bytes) : Conveys pending []
  | overdue (pending : Bytes) (later : List Poll) : Conveys pending (.overdue :: later)
  | quiet (pending : Bytes) (later : List Poll) : Conveys pending (.quiet :: later)
  | chunk {bytes rest : Bytes} {later : List Poll} (some : bytes ≠ []) (short : bytes.length ≤ 65536)
      (conveys : Conveys rest later) : Conveys (bytes ++ rest) (.chunk bytes :: later)
  | closed (later : List Poll) : Conveys [] (.closed :: later)

/-- The loop of `run_guarded`: whether the time ran out, and what was read. -/
def listen (chunks : Bytes) : List Poll → Option (Bool × Bytes)
  | [] => none
  | .overdue :: _ => some (true, chunks)
  | .quiet :: _ => some (true, chunks)
  | .closed :: _ => some (false, chunks)
  | .chunk bytes :: later =>
      if maxPayloadBytes < (chunks ++ bytes).length then some (false, chunks ++ bytes)
      else listen (chunks ++ bytes) later

variable (guard : Guard)

def timeoutMessage : Text :=
  Text.ofString "expression exceeded the " ++ integer guard.wallSeconds ++
    Text.ofString "s evaluation limit and was killed"

def exhaustedMessage : Text :=
  Text.ofString "expression was terminated by a resource limit (CPU " ++ integer guard.cpuSeconds ++
    Text.ofString "s / memory " ++ integer guard.memoryMb ++
    Text.ofString "MB) before producing a result"

def unusableMessage : Text := Text.ofString "the guarded evaluation returned no usable result"

/-- The end of `run_guarded`; a text nested too deep raises what is no `ValueError`. -/
def settle (timedOut : Bool) (raw : Bytes) : Except Failure JsonValue :=
  if timedOut then .ok (.obj (errorResult .timeout (timeoutMessage guard)))
  else if raw = [] then .ok (.obj (errorResult .resourceExhausted (exhaustedMessage guard)))
  else match loads guard.limits (lossy raw) with
    | .value value => .ok value
    | .failed .recursion => .error .recursion
    | _ => .ok (.obj (errorResult .internal unusableMessage))

def carriedOnFailure : List Text := [okKey, codeKey, errorKey, remedyKey, codeInferredKey]

/-- What a failed call passes on. -/
def carried (outcome : Members) : Members :=
  let kept := carriedOnFailure.filterMap fun key => (entryOf key outcome).map fun value => (key, value)
  let marked := setEntry okKey (.bool false) kept
  if (entryOf errorKey marked).isSome then marked
  else setEntry errorKey (.str (Text.ofString "evaluation failed")) marked

/-- `bool(value)`. -/
def truthy : JsonValue → Bool
  | .null => false
  | .bool value => value
  | .int value => decide (value ≠ 0)
  | .float value => !value.isZero
  | .nan => true
  | .infinity _ => true
  | .str value => !value.isEmpty
  | .arr items => !items.isEmpty
  | .obj members => !members.isEmpty

/-- `{**result, "unenforced": existing + list(unenforced)}`; `none` where the result is
no dictionary or what it reports is no list. -/
def report : JsonValue → JsonValue → Option JsonValue
  | .obj result, .arr unenforced =>
      let merged (existing : List JsonValue) :=
        JsonValue.obj (setEntry unenforcedKey (.arr (existing ++ unenforced)) result)
      match entryOf unenforcedKey result with
      | none => some (merged [])
      | some (.arr existing) => some (merged existing)
      | some other => if truthy other then none else some (merged [])
  | _, _ => none

/-- `guarded_call` from `run_guarded`'s answer on; `none` for an answer that is no
dictionary, or has no value. -/
def unwrap : JsonValue → Option JsonValue
  | .obj outcome => do
      let result ←
        if (entryOf okKey outcome).any truthy then entryOf valueKey outcome
        else some (.obj (carried outcome))
      match entryOf unenforcedKey outcome with
      | some unenforced => if truthy unenforced then report result unenforced else some result
      | none => some result
  | _ => none

end Parent

/-- One call: what the child wrote before it ended, and how the parent read it. -/
structure Session (guard : Guard) where
  outcome : Outcome guard.limits
  written : Bytes
  isFront : written <+: data outcome
  polls : List Poll
  conveys : Conveys written polls
  timedOut : Bool
  raw : Bytes
  ends : listen [] polls = some (timedOut, raw)

def Session.call {guard : Guard} (session : Session guard) : Except Failure (Option JsonValue) :=
  (settle guard session.timedOut session.raw).map unwrap

section InProcess

def unenforcedNoFork : JsonValue :=
  .str (Text.ofString "expression_bound_not_enforced_without_fork")

/-- How the function ends where it cannot be run in a child. -/
inductive Ending where
  | returned (result : JsonValue)
  | raised (code : Errors.Code) (shown : Text)

/-- `run_guarded` without `fork`. -/
def runInProcess : Ending → JsonValue
  | .returned result =>
      .obj [(okKey, .bool true), (valueKey, result), (unenforcedKey, .arr [unenforcedNoFork])]
  | .raised code shown =>
      .obj (errorResult code (shown.take 2000) ++ [(unenforcedKey, .arr [unenforcedNoFork])])

end InProcess

end CodeCalc.Guarded
