import CodeCalc.Errors
import CodeCalc.Executor.Run
import CodeCalc.Providers.Payload

/-! `PistonExecutionProvider.execute`.  The dictionary is built over any kind of text,
so that one built of places and then filled with the credential is the one built of
what was received. -/
namespace CodeCalc.Providers
open Lib Lib.Utf8 Output
open Executor (Request Raised)

/-- The conversions of Python that are applied to what a transport answers. -/
structure Conversions where
  /-- `str(value)` of a value that is no string. -/
  str : Value Text → Except Raised Text
  /-- `int(value)`. -/
  int : Value Text → Except Raised Int

section Dictionaries

variable {σ : Type} [DecidableEq σ] (lit : Text → σ)

/-- A key of the source. -/
def named (name : String) : σ := lit (Text.ofString name)

/-- `data[name]` where it is a dictionary. -/
def stageAt (name : String) (data : Members σ) : Members σ :=
  match entryOf (named lit name) data with
  | some (.dict members) => members
  | _ => []

/-- The members of a dictionary; anything else counts as an empty one. -/
def membersOf : Value σ → Members σ
  | .dict members => members
  | _ => []

/-- The stage that is reported: the run, or the compilation where there was none. -/
def stageOf (response : Value σ) : Members σ :=
  let run := stageAt lit "run" (membersOf response)
  if run.isEmpty then stageAt lit "compile" (membersOf response) else run

/-- `errors.error_result(errors.INTERNAL, message, **extra)`. -/
def errorResult (message : σ) (extra : List (String × σ)) : Value σ :=
  .dict ([(named lit "ok", .bool false), (named lit "code", .text (named lit "internal")),
    (named lit "error", .text message),
    (named lit "remedy", .text (named lit (Errors.remedies .internal)))] ++
    extra.map fun entry => (named lit entry.1, .text entry.2))

end Dictionaries

def stamp : Value Text → Value Text
  | .dict members =>
      if (entryOf (named id "contract_version") members).isSome then .dict members
      else .dict (members ++ [(named id "contract_version", .text (named id Errors.contractVersion))])
  | value => value

/-- `UnsupportedCapability(provider_id, capability)`. -/
def unsupportedCapability (providerId capability : String) : Raised :=
  ⟨"UnsupportedCapability", [.runtimeError, .unsupportedCapability],
    Text.ofString ("provider '" ++ providerId ++ "' does not support capability '" ++ capability ++ "'")⟩

namespace Value

/-- `bool(value)`. -/
def truthy : Value Text → Bool
  | .null => false
  | .bool value => value
  | .int value => decide (value ≠ 0)
  | .float value => decide (value ≠ 0)
  | .nonfinite _ => true
  | .text value => !value.isEmpty
  | .list items => !items.isEmpty
  | .dict members => !members.isEmpty

/-- `value == 0`. -/
def isZero {σ : Type} : Value σ → Bool
  | .bool value => !value
  | .int value => decide (value = 0)
  | .float value => decide (value = 0)
  | _ => false

end Value

namespace Piston

variable (py : Conversions)

/-- `str(stage.get(name) or "")`. -/
def textAt (stage : Members Text) (name : String) : Except Raised Text :=
  match entryOf (named id name) stage with
  | some (.text value) => .ok value
  | some value => if value.truthy then py.str value else .ok []
  | none => .ok []

/-- `int(stage.get(name) or 0)`. -/
def intAt (stage : Members Text) (name : String) : Except Raised Int :=
  match entryOf (named id name) stage with
  | some value => if value.truthy then py.int value else .ok 0
  | none => .ok 0

/-- `status == "TO"` and `status in {"OL", "EL"}`; a list or a dictionary has no hash. -/
def statusOf : Option (Value Text) → Except Raised (Bool × Bool)
  | some (.text status) =>
      .ok (decide (status = Text.ofString "TO"),
        decide (status = Text.ofString "OL" ∨ status = Text.ofString "EL"))
  | some (.list _) => .error ⟨"TypeError", [.typeError], Text.ofString "unhashable type: 'list'"⟩
  | some (.dict _) => .error ⟨"TypeError", [.typeError], Text.ofString "unhashable type: 'dict'"⟩
  | _ => .ok (false, false)

/-- `int(memory_bytes) // 1024` of an int, a bool among them. -/
def peakMemoryKb {σ : Type} : Option (Value σ) → Value σ
  | some (.int bytes) => .int (bytes / 1024)
  | some (.bool _) => .int 0
  | _ => .null

/-- What the result is made of. -/
structure Outcome (σ : Type) where
  ran : Bool
  compiled : Bool
  stdout : σ
  stderr : σ
  stdoutBytes : Nat
  stderrBytes : Nat
  exitCode : Value σ
  compileMs : Int
  runMs : Int
  cpuMs : Int
  memory : Option (Value σ)
  statusTimedOut : Bool
  statusTruncated : Bool
  overflow : Bool

section Result

variable {σ : Type} (lit : Text → σ) (request : Request) (outcome : Outcome σ)

def timedOut : Bool :=
  outcome.statusTimedOut ||
    decide (request.timeout * 1000 < outcome.compileMs + outcome.runMs)

def verdict : String :=
  if timedOut request outcome then "TLE"
  else if outcome.statusTruncated || outcome.overflow then "OLE"
  else if outcome.exitCode.isZero then "OK"
  else "RTE"

def resultOf : Value σ :=
  .dict [
    (named lit "ok", .bool (decide (verdict request outcome = "OK"))),
    (named lit "language", .text (lit request.language)),
    (named lit "phase", .text (named lit (if outcome.ran then "run" else "compile"))),
    (named lit "backend", .text (named lit "python")),
    (named lit "platform", .text (named lit "remote")),
    (named lit "stdout", .text outcome.stdout),
    (named lit "stderr", .text outcome.stderr),
    (named lit "exit_code", outcome.exitCode),
    (named lit "timed_out", .bool (timedOut request outcome)),
    (named lit "verdict", .text (named lit (verdict request outcome))),
    (named lit "output_truncated", .bool (outcome.statusTruncated || outcome.overflow)),
    (named lit "output_error", .null),
    (named lit "duration_ms", .int (if outcome.ran then outcome.runMs else outcome.compileMs)),
    (named lit "compile_ms", .int outcome.compileMs),
    (named lit "total_ms", .int (outcome.compileMs + outcome.runMs)),
    (named lit "cpu_ms", .int outcome.cpuMs),
    (named lit "peak_memory_kb", peakMemoryKb outcome.memory),
    (named lit "unenforced", .list ([.text (named lit "max_output_kb_enforced_after_provider_response")] ++
      if outcome.compiled then [.text (named lit "timeout_enforced_after_provider_response")] else [])),
    (named lit "workdir", .text (named lit "piston:ephemeral")),
    (named lit "stdout_bytes", .int outcome.stdoutBytes),
    (named lit "stderr_bytes", .int outcome.stderrBytes)]

end Result

/-- From the response to what the result is made of. -/
def outcomeOf (request : Request) (response : Value Text) : Except Raised (Outcome Text) := do
  let compileStage := stageAt id "compile" (membersOf response)
  let runStage := stageAt id "run" (membersOf response)
  let stage := stageOf id response
  let stdout ← textAt py stage "stdout"
  let stderr ← textAt py stage "stderr"
  Executor.encode stdout
  Executor.encode stderr
  let streams := Fallback.cappedStreams (requestedCap request.maxOutputKb) (encodeText stdout)
    (encodeText stderr)
  let compileMs ← intAt py compileStage "wall_time"
  let runMs ← intAt py runStage "wall_time"
  let cpuMs ← intAt py stage "cpu_time"
  let status ← statusOf (entryOf (named id "status") stage)
  return {
    ran := !runStage.isEmpty
    compiled := !compileStage.isEmpty
    stdout := streams.1
    stderr := streams.2.1
    stdoutBytes := (encodeText stdout).length
    stderrBytes := (encodeText stderr).length
    exitCode := (entryOf (named id "code") stage).getD .null
    compileMs := compileMs
    runMs := runMs
    cpuMs := cpuMs
    memory := entryOf (named id "memory") stage
    statusTimedOut := status.1
    statusTruncated := status.2
    overflow := streams.2.2 }

/-- `execute`, on what the transport answers: an exception, by its text, or a response. -/
def execute (credential : Credential) (request : Request) (answer : Except Text (Value Text)) :
    Except Raised (Value Text) :=
  if request.noNet then .error (unsupportedCapability "piston" "network_control")
  else if request.workdir.isSome then .error (unsupportedCapability "piston" "workdir")
  else
    match answer with
    | .error text =>
        .ok (stamp (credential.redact (errorResult id (Text.ofString "Piston transport failed: " ++ text)
          [("provider_error", Text.ofString "provider_transport_failure")])))
    | .ok response => do
        let outcome ← outcomeOf py request response
        return stamp (credential.redact (resultOf id request outcome))

end Piston

end CodeCalc.Providers
