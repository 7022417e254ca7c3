import CodeCalc.Python
import CodeCalc.Lib.Effect

/-! `StrictService`, one definition for each method.  A record is an object the
table and the thread that made it share, so the table maps a run id to the
record's address.  `_execute`, `_cancel` and `_cleanup` leave the lock to call
the runtime and are given in the halves before and after that call. -/
namespace CodeCalc.Strict
open Lib Lib.Effect

def maxTrackedRuns : Nat := 512

def maxConcurrentRuns : Nat := 8

def maxTimeoutSeconds : Nat := 300

def maxCpuCount : Nat := 4

inductive HTTPStatus where
  | ok
  | badRequest
  | unauthorized
  | notFound
  | conflict
  | tooManyRequests
  | internalServerError
  deriving DecidableEq, Repr

/-- What ends a method early: an `_HttpError`, or any other exception. -/
inductive Raised where
  | http (status : HTTPStatus) (payload : Fields)
  | other (exc : Exc)

/-- The `"status"` of a record. -/
inductive Status where
  | running
  | failed
  | completed
  | cancelled
  deriving DecidableEq, Repr

def Status.name : Status → String
  | .running => "running"
  | .failed => "failed"
  | .completed => "completed"
  | .cancelled => "cancelled"

structure Record where
  runId : String
  status : Status
  language : String
  createdAt : ℚ
  error : Option String := none
  result : Option Fields := none

namespace Record

/-- `dict(record)`, as `_inspect` answers it. -/
def snapshot (record : Record) : Fields :=
  [("run_id", .str record.runId), ("status", .str record.status.name),
    ("language", .str record.language), ("created_at", .float record.createdAt)] ++
  (record.error.map fun message => ("error", Json.str message)).toList ++
  (record.result.map fun result => ("result", Json.obj result)).toList

def settle (record : Record) (status : Status) : Record := { record with status := status }

end Record

/-- Where a record lives; a record is never moved. -/
abbrev Ref := Nat

structure Service where
  runs : Dict String Ref
  records : List Record
  known : ∀ runId ref, runs.get runId = some ref → ref < records.length

namespace Service

def empty : Service := ⟨.empty, [], by simp⟩

/-- `record["status"] == "running"`. -/
def isRunning (service : Service) (ref : Ref) : Bool :=
  decide (service.records[ref]?.map Record.status = some .running)

/-- `sum(1 for r in self._runs.values() if r.get("status") == "running")`. -/
def inFlight (service : Service) : Nat := service.runs.count service.isRunning

/-- `self._runs[run_id] = record`, for a record nobody holds yet. -/
def insert (service : Service) (runId : String) (record : Record) : Service where
  runs := service.runs.set runId service.records.length
  records := service.records ++ [record]
  known other ref found := by
    rw [Dict.get_set] at found
    rw [List.length_append, List.length_singleton]
    split at found
    · cases found
      exact Nat.lt_succ_self _
    · exact Nat.lt_succ_of_lt (service.known other ref found)

/-- `self._runs.pop(run_id, None)`. -/
def drop (service : Service) (runId : String) : Service where
  runs := service.runs.erase runId
  records := service.records
  known other ref found := by
    rw [Dict.get_erase] at found
    split at found
    · cases found
    · exact service.known other ref found

/-- Assignments to keys of the record itself. -/
def update (service : Service) (ref : Ref) (change : Record → Record) : Service where
  runs := service.runs
  records := service.records.modify ref change
  known other found := by
    rw [List.length_modify]
    exact service.known other found

/-- The loop of `_evict_oldest_locked` over the snapshot of the items. -/
def evictLoop : List (String × Ref) → Service → Service
  | [], service => service
  | (staleId, ref) :: rest, service =>
      if service.runs.entries.length ≤ maxTrackedRuns then service
      else if service.isRunning ref then evictLoop rest service
      else evictLoop rest (service.drop staleId)

def evictOldestLocked (service : Service) : Service :=
  if service.runs.entries.length ≤ maxTrackedRuns then service
  else evictLoop service.runs.entries service

end Service

/-- What one service is built with, and the two readings of Python values that
have no counterpart here. -/
structure Host where
  token : String
  /-- `int(text)`, or nothing where it raises `ValueError`. -/
  intOfText : String → Option Int
  keyText : Json → String

namespace Host

def expected (host : Host) : String := "Bearer " ++ host.token

/-- `self._secrets`: the header value is longer than the token inside it. -/
def secrets (host : Host) : List String := [host.expected, host.token]

def redactText (host : Host) (text : String) : String :=
  host.secrets.foldl (fun value secret => value.replace secret "[REDACTED]") text

mutual

/-- `_redact_secrets`. -/
def redact (host : Host) : Json → Json
  | .str value => .str (host.redactText value)
  | .arr items => .arr (host.redactItems items)
  | .obj members => .obj (host.redactMembers members)
  | value => value

def redactItems (host : Host) : List Json → List Json
  | [] => []
  | item :: rest => host.redact item :: host.redactItems rest

def redactMembers (host : Host) : List (String × Json) → List (String × Json)
  | [] => []
  | (key, item) :: rest => (key, host.redact item) :: host.redactMembers rest

end

end Host

/-- `_RUN_ID.fullmatch(run_id)`. -/
def validRunId (runId : String) : Bool :=
  match runId.toList with
  | [] => false
  | first :: rest => first.isAlphanum && decide (rest.length ≤ 127) &&
      rest.all fun char => char.isAlphanum || char ∈ ['_', '.', '-']

variable (host : Host)

def checkRunId (runId : String) : Except Raised Unit :=
  if validRunId runId then .ok ()
  else .error (.http .badRequest
    [("ok", .bool false), ("error", .str "run_id is not a safe strict identity")])

/-- `_parse_spec`, given what `json.loads(body or b"\x7b\x7d")` does: a text that is
no JSON, another exception, or a value. -/
inductive Decoded where
  | invalid
  | raised (exc : Exc)
  | value (json : Json)

def parseSpec : Decoded → Except Raised Fields
  | .invalid => .error (.http .badRequest
      [("ok", .bool false), ("error", .str "request body is not valid JSON")])
  | .raised exc => .error (.other exc)
  | .value (.obj spec) => .ok spec
  | .value _ => .error (.http .badRequest
      [("ok", .bool false), ("error", .str "request body must be a JSON object")])

def overflowError (message : String) : Exc :=
  ⟨"OverflowError", [.arithmeticError, .exception], some message, none, none⟩

/-- `_positive_int(spec.get(field))`. -/
def positiveInt (spec : Fields) (field : String) : Except Raised Nat :=
  match entryOf field spec with
  | some (.bool value) => .ok value.toNat
  | some (.int value) => .ok value.toNat
  | some (.float value) => .ok (value.num.tdiv value.den).toNat
  | some (.nonfinite "NaN") => .ok 0
  | some (.nonfinite _) => .error (.other (overflowError "cannot convert float infinity to integer"))
  | some (.str text) => .ok ((host.intOfText text).getD 0).toNat
  | _ => .ok 0

/-- The arguments of `runtime.execute`. -/
structure Launch where
  runId : String
  language : String
  source : String
  timeout : Nat
  stdin : String
  memoryMb : Option Nat
  cpuCount : Option Nat

/-- `value or default` on a count. -/
def orNat (value default : Nat) : Nat := if value = 0 then default else value

def positive (value : Nat) : Option Nat := if value = 0 then none else some value

/-- The part of `_execute` before it resolves the runtime. -/
def launchOf (runId : String) (body : Decoded) : Except Raised Launch := do
  checkRunId runId
  let spec ← parseSpec body
  match entryOf "language" spec, entryOf "code" spec with
  | some (.str language), some (.str code) =>
      match (entryOf "stdin" spec).getD (.str "") with
      | .str stdin =>
          match (entryOf "workdir" spec).getD .null with
          | .null | .str "" => do
              let memoryMb ← positiveInt host spec "max_memory_mb"
              let cpuCount ← positiveInt host spec "max_cpu"
              let timeout ← positiveInt host spec "timeout"
              pure ⟨runId, language, code, min (orNat timeout 10) maxTimeoutSeconds, stdin,
                positive memoryMb, (positive cpuCount).map fun count => min count maxCpuCount⟩
          | _ => .error (.http .badRequest [("ok", .bool false),
              ("error", .str "strict service assigns its own ephemeral workdir")])
      | _ => .error (.http .badRequest
          [("ok", .bool false), ("error", .str "spec 'stdin' must be a string")])
  | _, _ => .error (.http .badRequest [("ok", .bool false),
      ("error", .str "spec requires string 'language' and 'code'")])

abbrev Method := Effect Service Raised

/-- What a step reads outside the service: whether `_resolve_runtime` finds a
runtime, and the clock. -/
structure Env where
  resolve : Except Exc Unit
  time : ℚ

/-- `_execute` up to the call of `runtime.execute`; the address is that of the
new record. -/
def executeEnter (env : Env) (runId : String) (body : Decoded) : Method (Ref × Launch) := do
  let launch ← ofExcept (launchOf host runId body)
  ofExcept (env.resolve.mapError .other)
  let service ← get
  if maxConcurrentRuns ≤ service.inFlight then
    raise (.http .tooManyRequests [("ok", .bool false),
      ("error", .str "strict service is at its concurrent-run limit"), ("run_id", .str runId)])
  else do
    modify fun service => (service.insert runId
      { runId, status := .running, language := launch.language,
        createdAt := env.time }).evictOldestLocked
    pure (service.records.length, launch)

/-- The keys `dict.fromkeys(controls, True)` iterates over. -/
def controlKeys : Json → Except Exc (List String)
  | .arr items => items.mapM fun item =>
      match item with
      | .str name => .ok name
      | _ => if item.hashable then .ok (host.keyText item) else .error (.typeError "unhashable type")
  | .str text => .ok (text.toList.map Char.toString)
  | .obj members => .ok (members.map Prod.fst)
  | _ => .error (.typeError "object is not iterable")

/-- `value or default`. -/
def orJson (value : Option Json) (default : Json) : Json :=
  match value with
  | some value => if value.truthy then value else default
  | none => default

def receiptControls (result : Fields) : Except Exc (List String) :=
  match orJson (entryOf "strict_receipt" result) (.obj []) with
  | .obj receipt => controlKeys host (orJson (entryOf "controls" receipt) (.arr []))
  | _ => .error (.attributeError "object has no attribute 'get'")

/-- Both `except` clauses around `runtime.execute`. -/
def executeFailed (ref : Ref) (runId message : String) : Method Fields := do
  modify fun service => service.update ref fun record =>
    { record.settle .failed with error := some message }
  raise (.http .internalServerError
    [("ok", .bool false), ("error", .str message), ("run_id", .str runId)])

/-- The message of the `except` clause that catches the exception; nothing for
one that passes both. -/
def failureMessage (exc : Exc) : Except Exc String :=
  if exc.isInstance .exception then
    match exc.message with
    | some text =>
        if exc.isInstance .strictRuntimeUnavailable then .ok (host.redactText text)
        else .ok (host.redactText ("strict execution failed: " ++ text))
    | none => .error exc.unprintable
  else .error exc

/-- `_execute` after `runtime.execute` has returned or raised. -/
def executeReturn (ref : Ref) (runId : String) : Except Exc Fields → Method Fields
  | .ok result => do
      let controls ← ofExcept ((receiptControls host result).mapError .other)
      let enforcement := mergeFields [] (controls.map fun name => (name, Json.bool true))
      let answered := setDefault (setEntry "enforcement" (.obj enforcement) result) "run_id" (.str runId)
      modify fun service => service.update ref fun record =>
        { record.settle .completed with result := some answered }
      pure (host.redactMembers answered)
  | .error exc => do
      let message ← ofExcept ((failureMessage host exc).mapError .other)
      executeFailed ref runId message

def inspect (runId : String) : Method Fields := do
  ofExcept (checkRunId runId)
  let service ← get
  match (service.runs.get runId).bind fun ref => service.records[ref]? with
  | some record => pure (host.redactMembers record.snapshot)
  | none => raise (.http .notFound
      [("ok", .bool false), ("error", .str "no such run"), ("run_id", .str runId)])

/-- The `except StrictRuntimeUnavailable` of `_cancel` and `_cleanup`, whose
payloads differ in one field. -/
def conflict (runId : String) (field : Fields) (exc : Exc) : Raised :=
  match exc.message with
  | some message =>
      if exc.isInstance .strictRuntimeUnavailable then
        .http .conflict ([("ok", .bool false)] ++ field ++
          [("error", .str (host.redactText message)), ("run_id", .str runId)])
      else .other exc
  | none => if exc.isInstance .strictRuntimeUnavailable then .other exc.unprintable else .other exc

/-- `_cancel` up to `runtime.cancel`. -/
def cancelEnter (env : Env) (runId : String) : Method Unit := do
  ofExcept (checkRunId runId)
  ofExcept (env.resolve.mapError (conflict host runId [("cancelled", .bool false)]))

/-- `_cancel` after `runtime.cancel`. -/
def cancelReturn (runId : String) : Except Exc Unit → Method Fields
  | .ok () => do
      modify fun service =>
        match service.runs.get runId with
        | some ref => service.update ref fun record => record.settle .cancelled
        | none => service
      pure [("ok", .bool true), ("cancelled", .bool true), ("run_id", .str runId)]
  | .error exc => raise (conflict host runId [("cancelled", .bool false)] exc)

/-- `_cleanup` up to `runtime.cleanup`. -/
def cleanupEnter (env : Env) (runId : String) : Method Unit := do
  ofExcept (checkRunId runId)
  ofExcept (env.resolve.mapError (conflict host runId []))

/-- `_cleanup` after `runtime.cleanup`. -/
def cleanupReturn (runId : String) : Except Exc Unit → Method Fields
  | .ok () => do
      modify fun service => service.drop runId
      pure [("ok", .bool true), ("cleaned", .bool true), ("run_id", .str runId)]
  | .error exc => raise (conflict host runId [] exc)

/-- `dispatch` on how a method ended; nothing when the thread dies of an
exception that `except Exception` does not catch, or that cannot be rendered. -/
def reply : Except Raised Fields → Option (HTTPStatus × Fields)
  | .ok payload => some (.ok, payload)
  | .error (.http status payload) => some (status, host.redactMembers payload)
  | .error (.other exc) =>
      if exc.isInstance .exception then
        exc.message.map fun message => (.internalServerError,
          [("ok", .bool false), ("error", .str (host.redactText ("strict service error: " ++ message)))])
      else none

end CodeCalc.Strict
