import Mathlib.Data.List.Sort
import CodeCalc.Errors

/-! The data a background run is made of: the request, the provider that
accepted it, the future of its worker, and the record the supervisor keeps. -/
namespace CodeCalc.Supervision
open Lib Errors

/-- The canonical request.  Only `timeout` is read here; the rest travels to
the provider and into the receipt. -/
structure ComputationSpec where
  language : String
  code : String
  stdin : String := ""
  timeout : Int := 10
  workdir : Option String := none
  maxMemoryMb : Int := 0
  maxOutputKb : Int := 0
  maxCpu : Int := 0
  noNet : Bool := false

/-- The entries of `describe()["capabilities"]` that the supervisor reads. -/
structure Capabilities where
  managedRuns : Bool := false
  cancel : Bool := false
  cleanup : Bool := false

structure Provider where
  providerId : String
  capabilities : Capabilities

structure ProviderRegistry where
  defaultProviderId : String
  policy : Option (ComputationSpec → List Provider → Except Exc (Option String))
  providers : Dict String Provider

def unknownProvider (providerId : String) (available : List String) : Exc :=
  let choices := if available.isEmpty then "none" else ", ".intercalate available
  ⟨"UnknownProvider", [.unknownProvider, .exception],
    some ("unknown execution provider " ++ reprStr providerId ++ "; available: " ++ choices),
    some "unknown_provider", none⟩

def unsupportedCapability (providerId capability : String) : Exc :=
  ⟨"UnsupportedCapability", [.unsupportedCapability, .runtimeError, .exception],
    some ("provider " ++ reprStr providerId ++ " does not support capability " ++
      reprStr capability), some "unsupported_capability", none⟩

def providerOperationFailure (providerId operation : String) : Exc :=
  ⟨"ProviderOperationFailure", [.providerOperationFailure, .runtimeError, .exception],
    some ("provider " ++ reprStr providerId ++ " " ++ operation ++ " failed"),
    some ("provider_" ++ operation ++ "_failed"), none⟩

namespace ProviderRegistry

def sortedKeys (registry : ProviderRegistry) : List String :=
  registry.providers.keys.insertionSort (· ≤ ·)

def descriptors (registry : ProviderRegistry) : List Provider :=
  registry.sortedKeys.filterMap registry.providers.get

/-- The last step of `select`: an empty name means the default. -/
def resolve (registry : ProviderRegistry) (selected : Option String) : Except Exc Provider :=
  let name := match selected with
    | none => registry.defaultProviderId
    | some name => if name = "" then registry.defaultProviderId else name
  match registry.providers.get name with
  | some provider => .ok provider
  | none => .error (unknownProvider name registry.sortedKeys)

/-- `select`: the policy is consulted only for a request that names nobody. -/
def select (registry : ProviderRegistry) (providerId : Option String)
    (spec : Option ComputationSpec) : Except Exc Provider :=
  match providerId, registry.policy, spec with
  | none, some policy, some spec =>
      match policy spec registry.descriptors with
      | .ok selected => registry.resolve selected
      | .error raised => .error raised
  | selected, _, _ => registry.resolve selected

end ProviderRegistry

inductive RunState where
  | running
  | cancelling
  | finished
  | cleaned
  | recovered
  deriving DecidableEq, Repr

namespace RunState

def name : RunState → String
  | running => "running"
  | cancelling => "cancelling"
  | finished => "finished"
  | cleaned => "cleaned"
  | recovered => "recovered"

def isActive : RunState → Bool
  | running | cancelling => true
  | _ => false

def isTerminal (state : RunState) : Bool := !state.isActive

end RunState

def activeNames : List String := ["running", "cancelling"]

def terminalNames : List String := ["finished", "cleaned", "recovered"]

theorem RunState.name_mem_terminalNames (state : RunState) :
    state.name ∈ terminalNames ↔ state.isTerminal = true := by
  cases state <;> decide

/-- How a worker's operation ends.  A returned value is represented by what
`dict(value)` gives, since nothing else is ever done with it. -/
inductive Outcome where
  | returned (asDict : Except Exc Fields)
  | raised (exception : Exc)

inductive Future where
  | pending
  | done (outcome : Outcome)

def Future.isDone : Future → Bool
  | pending => false
  | done _ => true

abbrev Identity := Int × Int

structure RunHandle where
  runId : String
  providerId : String
  startedAt : ℚ
  deadline : ℚ

structure Run where
  handle : RunHandle
  provider : Provider
  spec : ComputationSpec
  future : Option Future := none
  state : RunState := .running
  result : Option Fields := none
  cleaned : Bool := false
  capabilityDecision : Option Fields := none
  receiptSpec : Option ComputationSpec := none
  workdir : Option String := none
  workdirIdentity : Option Identity := none
  workdirCleaned : Bool := false

namespace Run

/-- Counted by the admission cap. -/
def isActive (run : Run) : Bool := run.state.isActive

/-- Submitted to the pool and not completed. -/
def isLive (run : Run) : Bool :=
  match run.future with
  | some .pending => true
  | _ => false

/-- `run.future is not None and run.future.done()`. -/
def isDone (run : Run) : Bool :=
  match run.future with
  | some future => future.isDone
  | none => false

theorem isLive_eq_false_of_isDone {run : Run} (done : run.isDone = true) :
    run.isLive = false := by
  unfold isDone at done
  unfold isLive
  rcases hfuture : run.future with _ | future
  · rfl
  · cases future with
    | pending => simp [hfuture, Future.isDone] at done
    | done outcome => rfl

end Run

/-- `asdict(handle)`. -/
def RunHandle.asDict (handle : RunHandle) : Fields :=
  [("run_id", .str handle.runId), ("provider_id", .str handle.providerId),
    ("started_at", .float handle.startedAt), ("deadline", .float handle.deadline)]

/-- The reply of `inspect`. -/
def Run.status (run : Run) : Fields :=
  run.handle.asDict ++ [("state", .str run.state.name), ("cleaned", .bool run.cleaned)]

/-- What the world answers during one call: the clock, whether each journal
write succeeds and the time the file then carries, whether removing a
directory tree removes it, and the receipt built for a result. -/
structure Env where
  time : ℚ
  write : String → RunState → Except Exc ℚ
  removes : String → Bool
  attachReceipt : Run → Fields → Except Exc Fields

/-- The `try` of `_collect`.  `future.result()` is only reached with the
future settled (or absent, after a failed journal write), so the pending row
stands for a call that never happens. -/
def receiptedResult (env : Env) (run : Run) : Except Exc Fields :=
  match run.future with
  | none => .error (.attributeError "'NoneType' object has no attribute 'result'")
  | some .pending => .error (.timeoutError "")
  | some (.done (.raised exception)) => .error exception
  | some (.done (.returned (.error exception))) => .error exception
  | some (.done (.returned (.ok result))) => env.attachReceipt run result

/-- `_failed_result`: a `CodedRunFailure` is passed on verbatim, anything else
becomes a coded internal failure. -/
def failedResult (run : Run) (exception : Exc) : Except Exc Fields :=
  match exception.coded, exception.message with
  | some result, _ => .ok (stamp result)
  | none, none => .error exception.unprintable
  | none, some message => .ok (stamp (errorResult .internal
      ("background run failed: " ++ message)
      [("provider_error", .str (exception.code.getD exception.typeName)),
        ("requested_provider", .str run.handle.providerId),
        ("run_id", .str run.handle.runId)]))

/-- The result `_collect` stores, or what escapes from it. -/
def collectedResult (env : Env) (run : Run) : Except Exc Fields :=
  match receiptedResult env run with
  | .ok result => .ok result
  | .error exception =>
      if exception.isInstance .exception then failedResult run exception
      else .error exception

end CodeCalc.Supervision
