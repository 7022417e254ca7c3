import CodeCalc.Supervision.Journal

/-! `RunSupervisor`, one definition for each method.  A method is a computation
on the supervisor's state; what it changed before raising stays changed.  The
bodies of `with self._lock` are the computations here; `wait` and `cancel`,
which leave the lock in the middle, are given in the pieces they fall into. -/
namespace CodeCalc.Supervision
open Lib Lib.Effect

structure Config where
  registry : ProviderRegistry
  maxCompleted : Nat := 128
  maxActiveRuns : Nat := 64
  /-- `__init__` refuses a cap below one. -/
  positive : 1 ≤ maxActiveRuns := by decide

structure Supervisor where
  runs : Dict String Run
  stateDir : StateDir
  /-- Directories on disk, by path, with the identity `_dir_identity` reports. -/
  workdirs : Dict String Identity
  /-- Calls of `_rmtree_checked`, each under the run it was made for. -/
  released : List String

abbrev Method := Effect Supervisor Exc

namespace Supervisor

def active (supervisor : Supervisor) : Nat := supervisor.runs.count Run.isActive

/-- Runs whose operation is on the pool and has not completed. -/
def live (supervisor : Supervisor) : Nat := supervisor.runs.count Run.isLive

end Supervisor

def getRun (runId : String) : Method Run := do
  let supervisor ← get
  match supervisor.runs.get runId with
  | some run => pure run
  | none => raise (.keyError ("unknown run " ++ reprStr runId))

def store (runId : String) (run : Run) : Method Unit :=
  modify fun supervisor => { supervisor with runs := supervisor.runs.set runId run }

/-- `_write`: the file is replaced whole, or not at all. -/
def write (env : Env) (run : Run) : Method Unit := do
  let mtime ← ofExcept (env.write run.handle.runId run.state)
  modify fun supervisor => { supervisor with
    stateDir := supervisor.stateDir.set (journalPath run.handle.runId)
      ⟨.json (.obj (journalRecord env run)), mtime⟩ }

def prune (config : Config) : Method Unit := do
  let supervisor ← get
  let dir ← ofExcept (pruneDir config.maxCompleted supervisor.stateDir)
  modify fun supervisor => { supervisor with stateDir := dir }

/-- The directories after `_rmtree_checked`: refused without an identity, or
when the path now holds another directory. -/
def removeTree (env : Env) (workdirs : Dict String Identity) (path : String)
    (created : Option Identity) : Dict String Identity :=
  if created.isSome ∧ workdirs.get path = created ∧ env.removes path then workdirs.erase path
  else workdirs

/-- `_rmtree_checked`, whose answer every caller in this class ignores. -/
def rmtreeChecked (env : Env) (runId path : String) (created : Option Identity) : Method Unit :=
  modify fun supervisor => { supervisor with
    workdirs := removeTree env supervisor.workdirs path created
    released := runId :: supervisor.released }

/-- The release step of `_collect`. -/
def releaseWorkdir (env : Env) (runId : String) (run : Run) : Method Run :=
  match run.workdir with
  | some path =>
      if run.workdirCleaned then pure run
      else do
        rmtreeChecked env runId path run.workdirIdentity
        pure { run with workdirCleaned := true }
  | none => pure run

def collect (config : Config) (env : Env) (runId : String) : Method Fields := do
  let run ← getRun runId
  match run.result with
  | some result => pure result
  | none =>
      let result ← ofExcept (collectedResult env run)
      let released ← releaseWorkdir env runId run
      let finished := { released with result := some result, state := .finished }
      store runId finished
      write env finished
      prune config
      pure result

/-- Collection by a caller that only looks: `inspect` and the reaper. -/
def collectIfDone (config : Config) (env : Env) (runId : String) : Method Unit := do
  let run ← getRun runId
  if run.isActive && run.isDone then
    let _ ← collect config env runId
    pure ()
  else pure ()

def reapCompletedLocked (config : Config) (env : Env) : Method Unit := do
  let supervisor ← get
  forEach (collectIfDone config env) supervisor.runs.keys

def inspect (config : Config) (env : Env) (runId : String) : Method Fields := do
  collectIfDone config env runId
  let run ← getRun runId
  pure run.status

def tooManyActiveRuns (active limit : Nat) : Exc :=
  ⟨"TooManyActiveRuns", [.tooManyActiveRuns, .runtimeError, .exception],
    some (toString active ++ " runs are already active against a limit of " ++ toString limit),
    none, none⟩

/-- The arguments of `start`, the `uuid4` it draws, and whether the pool takes
the operation. -/
structure StartCall where
  spec : ComputationSpec
  providerId : Option String := none
  capabilityDecision : Option Fields := none
  receiptSpec : Option ComputationSpec := none
  workdir : Option String := none
  workdirIdentity : Option Identity := none
  uuid : String
  submit : Except Exc Unit := .ok ()

def startHandle (env : Env) (call : StartCall) (provider : Provider) : RunHandle where
  runId := call.uuid
  providerId := provider.providerId
  startedAt := env.time
  deadline := env.time + max 0 call.spec.timeout

def newRun (env : Env) (call : StartCall) (provider : Provider) : Run where
  handle := startHandle env call provider
  provider := provider
  spec := call.spec
  capabilityDecision := call.capabilityDecision
  receiptSpec := call.receiptSpec
  workdir := call.workdir
  workdirIdentity := call.workdirIdentity

/-- The handler of a failed `submit`. -/
def undoStart (env : Env) (call : StartCall) (run : Run) : Method Unit := do
  modify fun supervisor => { supervisor with runs := supervisor.runs.erase call.uuid }
  match call.workdir with
  | some path => rmtreeChecked env call.uuid path call.workdirIdentity
  | none => pure ()
  write env { run with state := .finished, workdirCleaned := true }

/-- The locked half of `start`, once a provider is chosen. -/
def startLocked (config : Config) (env : Env) (call : StartCall) (provider : Provider) :
    Method RunHandle := do
  reapCompletedLocked config env
  let supervisor ← get
  if config.maxActiveRuns ≤ supervisor.active then
    raise (tooManyActiveRuns supervisor.active config.maxActiveRuns)
  else
    let run := newRun env call provider
    store call.uuid run
    write env run
    match call.submit with
    | .ok _ =>
        store call.uuid { run with future := some .pending }
        pure run.handle
    | .error exception =>
        if exception.isInstance .exception then
          undoStart env call run
          raise exception
        else raise exception

def start (config : Config) (env : Env) (call : StartCall) : Method RunHandle := do
  let provider ← ofExcept (config.registry.select call.providerId (some call.spec))
  startLocked config env call provider

/-- `run.future.result(timeout=timeout)` with the handlers `wait` puts around
it, at the moment it ends: the timeout passed with the future still pending,
or the future is settled.  On a missing future the attribute error lands in
`except Exception: pass`. -/
def awaitFuture (runId : String) (run : Run) : Except Exc Unit :=
  let timedOut := Exc.timeoutError ("run " ++ reprStr runId ++ " did not finish before wait timeout")
  match run.future with
  | none => .ok ()
  | some .pending => .error timedOut
  | some (.done (.returned _)) => .ok ()
  | some (.done (.raised exception)) =>
      if exception.isInstance .timeoutError then .error timedOut
      else if exception.isInstance .exception then .ok ()
      else .error exception

/-- `wait` after its first locked region has found the run. -/
def waitResume (config : Config) (env : Env) (runId : String) : Method Fields := do
  let run ← getRun runId
  ofExcept (awaitFuture runId run)
  collect config env runId

/-- The first locked region of `cancel`: a reply at once, or `none` when the
provider has to be asked. -/
def cancelEnter (env : Env) (runId : String) : Method (Option Fields) := do
  let run ← getRun runId
  if !run.isActive then
    pure (some [("run_id", .str runId), ("cancelled", .bool false),
      ("state", .str run.state.name)])
  else if !run.provider.capabilities.cancel then
    raise (unsupportedCapability run.provider.providerId "cancel")
  else
    let cancelling := { run with state := .cancelling }
    store runId cancelling
    write env cancelling
    pure none

/-- `cancel` after `provider.cancel` returned or raised. -/
def cancelReturn (env : Env) (runId : String) (answer : Except Exc Unit) : Method Fields :=
  match answer with
  | .ok _ => pure [("run_id", .str runId), ("cancelled", .bool true),
      ("state", .str RunState.cancelling.name)]
  | .error exception =>
      if exception.isInstance .exception then do
        let run ← getRun runId
        if run.state = .cancelling then
          let reverted := { run with state := .running }
          store runId reverted
          write env reverted
          raise exception
        else raise exception
      else raise exception

def cleanup (config : Config) (env : Env) (runId : String) (answer : Except Exc Unit) :
    Method Fields := do
  let run ← getRun runId
  if run.cleaned then
    pure [("run_id", .str runId), ("cleaned", .bool true), ("already_cleaned", .bool true)]
  else
    ofExcept (if run.provider.capabilities.cleanup then answer else .ok ())
    let cleaned := { run with cleaned := true, state := .cleaned }
    store runId cleaned
    write env cleaned
    prune config
    pure [("run_id", .str runId), ("cleaned", .bool true), ("already_cleaned", .bool false)]

/-- A worker finishes: `set_result` or `set_exception` on its future. -/
def complete (runId : String) (outcome : Outcome) : Method Unit := do
  let run ← getRun runId
  if run.isLive then store runId { run with future := some (.done outcome) }
  else pure ()

end CodeCalc.Supervision
