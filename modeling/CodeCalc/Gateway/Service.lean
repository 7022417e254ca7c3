import CodeCalc.Supervision.Supervisor
import CodeCalc.Gateway.Dependencies

/-! The five ways to start a run: `ExecutionService.execute`, `execute_session`
and `execute_stream`, `SessionService.run_file`, and `run_submit` with the job
it leaves to a worker thread.  Each is a computation that logs what it does and
either returns a reply, refuses, or raises.  The world answers everything that
is not decided here, and may let its answers depend on the log so far. -/
namespace CodeCalc.Execution
open Lib Lib.Effect Errors Supervision Capabilities Dependencies

/-- The arguments of one `packages.install`. -/
structure InstallCall where
  language : String
  spec : String
  sessionId : Option String
  workdir : Option String
  timeout : Int

inductive Event where
  /-- `audit.emit`, with the event's name and its `decision`. -/
  | emitted (name decision : String)
  | brokered (spec : ComputationSpec) (decision : BrokerDecision)
  | install (call : InstallCall)
  /-- An executor is handed the request. -/
  | started (providerId : String) (spec : ComputationSpec)
  /-- `w.run(code, stdin=stdin, timeout=timeout)` on the worker of a session. -/
  | worker (sessionId code stdin : String) (timeout : Int)
  /-- `_rmtree_checked`. -/
  | removed (workdir : String)

abbrev Log := List Event

def installs (log : Log) : List InstallCall :=
  log.filterMap fun event => match event with
    | .install call => some call
    | _ => none

/-- How a path ends early. -/
inductive Stop where
  | refused (fields : Fields)
  | raised (exception : Exc)

abbrev Step := Effect Log Stop

/-- `provider.execute`, `execute_stream`, `supervisor.wait` or
`supervisor.cleanup`; `UnsupportedCapability` is told apart by its fields. -/
inductive Answer where
  | returned (result : Fields)
  | unsupported (providerId capability : String)
  | raised (exception : Exc)

inductive Admission where
  | accepted (handle : RunHandle)
  /-- `TooManyActiveRuns`. -/
  | full (active limit : Nat)
  | failed (exception : Exc)

inductive WorkerState where
  | absent
  | live (language : String)
  | expired (window : String)

structure World where
  registry : ProviderRegistry
  /-- The `network_control` entry of each provider's description. -/
  networkControl : String → Bool
  /-- `CODECALC_CAPABILITY_POLICY`. -/
  environ : Option String
  reader : Reader
  /-- The clock: its readings in order, counted from the last event. -/
  monotonic : Log → Nat → ℚ
  /-- The answer to the `packages.install` that the log ends with. -/
  install : Log → Except Exc Fields
  workdirSize : Log → Int
  workdirQuota : Log → Int
  mkdtemp : Log → Except Exc String
  admission : Log → Admission
  /-- The pool gets to the submitted job. -/
  picked : Log → Bool
  provider : Log → Answer
  wait : Log → Answer
  cleanup : Log → Answer
  executor : Log → Except Exc Fields
  worker : Log → Except Exc Fields
  /-- The spill and the quota disclosure after a run in a session. -/
  postcheck : Log → Fields → Except Exc Fields
  /-- `_session_dir(session_id).is_dir()`, after what has been installed. -/
  sessionDir : List InstallCall → String → Except Exc Bool
  sessionPath : String → String
  quotaPrecheck : List InstallCall → String → Except Exc (Option Fields)
  workerOf : List InstallCall → String → WorkerState
  /-- Landlock confined the worker of the session when it was spawned. -/
  confined : String → Bool
  /-- What `_session_unenforced` says about file-system confinement. -/
  confinement : String → List String
  resourceRead : List InstallCall → String → String → Except Exc (Option String)
  /-- The entries of a receipt other than `capabilities`. -/
  identity : Log → ComputationSpec → Provider → Option String → Fields → Except Exc Fields

/-- An `ExecutionService`, and `run_submit`'s module globals. -/
structure Service where
  supervisor : Bool := true
  explicitPolicy : Option CapabilityPolicy := none
  policyFromEnv : Bool := true

def Service.policy (service : Service) (world : World) : Option CapabilityPolicy :=
  match service.explicitPolicy with
  | some policy => some policy
  | none => if service.policyFromEnv then Capabilities.policyFromEnv world.environ else none

structure Receipt where
  providerId : String
  identity : Fields
  capabilities : CapabilityReceipt

structure Reply where
  result : Fields
  receipt : Option Receipt

section Pieces

variable {α : Type}

def refuse (fields : Fields) : Step α := raise (.refused fields)

def refuseOn : Option Fields → Step Unit
  | none => pure ()
  | some fields => refuse fields

def raising : Except Exc α → Step α
  | .ok value => pure value
  | .error exception => raise (.raised exception)

def guardError (message : String) : Fields :=
  let code := if isIn "invalid session id" message then .validation
    else if isIn "too long" message || isIn "too many segments" message then .resourceExhausted
    else .permissionDenied
  errorResult code message []

/-- `except ValueError as exc: return _guard_error(exc)`. -/
def guarded : Except Exc α → Step α
  | .ok value => pure value
  | .error exception =>
      if exception.isInstance .valueError then refuse (guardError (exception.message.getD ""))
      else raise (.raised exception)

def failure (message : String) : Fields := [("ok", .bool false), ("error", .str message)]

def unknownSession (sessionId : String) : Fields :=
  failure ("unknown session " ++ reprStr sessionId)

variable (world : World)

def unsupportedResult (providerId capability : String) : Fields :=
  errorResult .validation ((unsupportedCapability providerId capability).message.getD "")
    [("provider_error", .str "unsupported_capability"), ("requested_provider", .str providerId),
      ("capability", .str capability)]

def noDependencies (providerId : String) : Fields :=
  errorResult .validation
    ("provider " ++ reprStr providerId ++ " does not support per-run dependencies")
    [("provider_error", .str "unsupported_capability"), ("requested_provider", .str providerId),
      ("capability", .str "dependencies")]

def selectedName (spec : ComputationSpec) (providerId : Option String) : Except Exc String :=
  let named (selected : Option String) : String := match selected with
    | none | some "" => world.registry.defaultProviderId
    | some name => name
  match providerId, world.registry.policy with
  | none, some policy => (policy spec world.registry.descriptors).map named
  | selected, _ => .ok (named selected)

/-- `registry.select` with the handler around it; `close` is what the path does
to a refusal. -/
def select (close : Fields → Fields) (spec : ComputationSpec) (providerId : Option String) :
    Step Provider := do
  let name ← raising (selectedName world spec providerId)
  match world.registry.providers.get name with
  | some provider => pure provider
  | none =>
      let raised := unknownProvider name world.registry.sortedKeys
      refuse (close (errorResult .validation (raised.message.getD "")
        [("provider_error", .str "unknown_provider"), ("requested_provider", .str name),
          ("available_providers", .arr (world.registry.sortedKeys.map Json.str))]))

/-- Parse and merge, with the audit of an install that source alone asks for. -/
def declared (close : Fields → Fields) (language code : String) (dependencies : List String) :
    Step (List String) := do
  let resolution ← raising (resolve world.reader language code dependencies)
  refuseOn (resolution.error.map close)
  if resolution.specs ≠ [] ∧ resolution.implicit = true then
    record (.emitted "dependency_install_implicit" "detected")
    pure resolution.specs
  else pure resolution.specs

def brokerRun (spec : ComputationSpec) (provider : Provider) (policy : Option CapabilityPolicy) :
    Step (ComputationSpec × BrokerDecision × Option Fields) := do
  let decision := Capabilities.decision spec (world.networkControl provider.providerId) policy
  record (.brokered spec decision)
  if decision.rejected then
    record (.emitted "capability_rejected" "rejected")
    pure (spec, decision, some (stamp (rejectionResult decision provider.providerId)))
  else if decision.brokered then
    record (if decision.denied = ∅ then .emitted "capability_approved" "approved"
      else .emitted "capability_denied" "denied")
    pure (enforcedSpec spec decision, decision, none)
  else pure (enforcedSpec spec decision, decision, none)

end Pieces

section Installing

variable (world : World)

def installBudget : ℚ := 120

/-- `int(value)`. -/
def truncate (value : ℚ) : Int := value.num.tdiv value.den

def installerName (language : String) : String :=
  if language = "python3" then "uv" else if language = "node" then "npm" else language

def budgetExceeded (installed total : Nat) (spec : String) : Fields :=
  errorResult .timeout
    ("dependency install budget of 120s exceeded after installing " ++ toString installed ++
      " of " ++ toString total ++ " dependencies; " ++ reprStr spec ++ " was not attempted")
    [("provider_error", .str "dependency_install_budget_exceeded"),
      ("budget_seconds", .int 120)]

def workdirQuotaExceeded (spec : String) (size quota : Int) : Fields :=
  errorResult .resourceExhausted
    ("the run's dependency workdir reached " ++ toString size ++ " bytes after installing " ++
      reprStr spec ++ ", over the " ++ toString quota ++ "-byte per-run quota " ++
      "(CODECALC_SESSION_DISK_QUOTA_MB, shared with the session workspace cap)")
    [("provider_error", .str "dependency_workdir_quota_exceeded"), ("quota_bytes", .int quota),
      ("measured_bytes", .int size)]

def installEntry (language spec : String) (raw : Fields) (elapsed : ℚ) : Fields :=
  let truth (key : String) : Bool := ((raw.lookup key).map Json.truthy).getD false
  let entry := [("spec", .str spec), ("language", .str language), ("ok", .bool (truth "ok")),
    ("installer", .str (installerName language)),
    ("elapsed_ms", .int (truncate (elapsed * 1000)))]
  if truth "unenforced" then entry ++ [("unenforced", (raw.lookup "unenforced").getD .null)] else entry

/-- `None if session_id else workdir`. -/
def installTarget (sessionId workdir : Option String) : Option String :=
  match sessionId with
  | none | some "" => workdir
  | some _ => none

/-- One turn of the loop of `install_dependencies`: the attempts so far, and
what ends the loop. -/
def installOne (language : String) (started : ℚ) (total : Nat) (sessionId workdir : Option String)
    (entries : List Fields) (spec : String) : Step (List Fields × Option Fields) := do
  let now ← ask (world.monotonic · 1)
  if installBudget ≤ now - started then
    pure (entries, some (budgetExceeded entries.length total spec))
  else
    let depStarted ← ask (world.monotonic · 2)
    record (.install ⟨language, spec, sessionId, installTarget sessionId workdir,
      max 1 (truncate (installBudget - (now - started)))⟩)
    let raw ← ask world.install
    let raw ← raising raw
    let ended ← ask (world.monotonic · 0)
    let attempted := entries ++ [installEntry language spec raw (ended - depStarted)]
    if ((raw.lookup "ok").map Json.truthy).getD false = false then pure (attempted, some raw)
    else if workdir.isSome ∧ sessionId = none then
      let size ← ask world.workdirSize
      let quota ← ask world.workdirQuota
      if quota < size then pure (attempted, some (workdirQuotaExceeded spec size quota))
      else pure (attempted, none)
    else pure (attempted, none)

def installEach (language : String) (started : ℚ) (total : Nat) (sessionId workdir : Option String)
    (entries : List Fields) : List String → Step (List Fields × Option Fields)
  | [] => pure (entries, none)
  | spec :: rest => do
      let (attempted, failed) ← installOne world language started total sessionId workdir entries spec
      match failed with
      | some fields => pure (attempted, some fields)
      | none => installEach language started total sessionId workdir attempted rest

def installDependencies (language : String) (specs : List String)
    (sessionId workdir : Option String) : Step (List Fields × Option Fields) := do
  let started ← ask (world.monotonic · 0)
  installEach world (canonicalOr language) started specs.length sessionId workdir [] specs

def withDependencies (result : Fields) : Option (List Fields) → Fields
  | none => result
  | some entries => setEntry "dependencies" (.arr (entries.map Json.obj)) result

end Installing

section Paths

variable (world : World) (service : Service)

def attachReceipt (spec : ComputationSpec) (provider : Provider) (sessionId : Option String)
    (decision : BrokerDecision) (result : Fields) : Step Reply := do
  let identity ← ask (world.identity · spec provider sessionId result)
  let identity ← raising identity
  pure ⟨stamp result, some ⟨provider.providerId, identity, decision.toReceipt⟩⟩

/-- A workdir for a sessionless run, with the dependencies in it. -/
def fetched (spec : ComputationSpec) (provider : Provider) :
    List String → Step (Option (String × List Fields))
  | [] => pure none
  | specs => do
      if provider.providerId ≠ "local" then refuse (stamp (noDependencies provider.providerId))
      else if networkRefused spec.noNet (service.policy world) then
        refuse (stamp (refusalResult spec.noNet))
      else
        let workdir ← ask world.mkdtemp
        let workdir ← raising workdir
        let (entries, failed) ← installDependencies world spec.language specs none (some workdir)
        match failed with
        | none => pure (some (workdir, entries))
        | some fields =>
            record (.removed workdir)
            refuse (stamp (withDependencies fields (some entries)))

def provided (provider : Provider) (spec : ComputationSpec) : Step Answer := do
  record (.started provider.providerId spec)
  ask world.provider

def resultOf : Answer → Step Fields
  | .returned result => pure result
  | .unsupported providerId capability => refuse (stamp (unsupportedResult providerId capability))
  | .raised exception => raise (.raised exception)

def managedRun (provider : Provider) (spec : ComputationSpec) : Step Fields := do
  if service.supervisor = false then
    refuse (stamp (errorResult .internal "managed execution provider requires a run supervisor"
      [("provider_error", .str "run_supervisor_unavailable"),
        ("requested_provider", .str provider.providerId)]))
  else
    let admission ← ask world.admission
    match admission with
    | .full active limit => raise (.raised (tooManyActiveRuns active limit))
    | .failed exception => raise (.raised exception)
    | .accepted _ =>
        record (.started provider.providerId spec)
        let waited ← ask world.wait
        let cleaned ← ask world.cleanup
        match cleaned with
        | .returned _ =>
            record (.emitted "cleanup" "cleaned")
            resultOf waited
        | .unsupported providerId capability => resultOf (.unsupported providerId capability)
        | .raised exception =>
            if exception.isInstance .providerOperationFailure then
              record (.emitted "cleanup" "cleanup_failed")
              let result ← resultOf waited
              pure (setEntry "cleanup_error" (.str (exception.message.getD "")) result)
            else raise (.raised exception)

def executeOn (provider : Provider) (spec : ComputationSpec) : Step Fields := do
  if provider.capabilities.managedRuns then managedRun world service provider spec
  else
    let execution ← provided world provider spec
    resultOf execution

/-- `finally: if dep_workdir is not None: _rmtree_checked(...)`. -/
def release : Option (String × List Fields) → Step Unit
  | none => pure ()
  | some (workdir, _) => record (.removed workdir)

def withWorkdir (spec : ComputationSpec) : Option (String × List Fields) → ComputationSpec
  | none => spec
  | some (workdir, _) => { spec with workdir := some workdir }

def execute (spec : ComputationSpec) (providerId : Option String) (dependencies : List String) :
    Step Reply := do
  let provider ← select world stamp spec providerId
  let specs ← declared world stamp spec.language spec.code dependencies
  let (runSpec, decision, rejection) ← brokerRun world spec provider (service.policy world)
  refuseOn rejection
  let prepared ← fetched world service spec provider specs
  let result ← ensuring (executeOn world service provider (withWorkdir runSpec prepared))
    (release prepared)
  attachReceipt world spec provider none decision (withDependencies result (prepared.map Prod.snd))

def executeStream (spec : ComputationSpec) (providerId : Option String)
    (dependencies : List String) : Step Reply := do
  let provider ← select world stamp spec providerId
  let specs ← declared world stamp spec.language spec.code dependencies
  let (runSpec, decision, rejection) ← brokerRun world spec provider (service.policy world)
  refuseOn rejection
  let prepared ← fetched world service spec provider specs
  let streamed := provided world provider (withWorkdir runSpec prepared) >>= resultOf
  let result ← ensuring streamed (release prepared)
  attachReceipt world spec provider none decision (withDependencies result (prepared.map Prod.snd))

section Sessions

def workerCannotEnforce : List (String × String) :=
  [("max_memory_mb", "fixed at worker start; use a workspace session or omit session_id"),
    ("max_cpu", "cumulative across a long-lived worker; the per-call wall clock applies instead"),
    ("no_net", "enforcement (seccomp where the Linux kernel supports it, a symbol shim otherwise) " ++
      "is applied at exec; start the session without a worker to use it"),
    ("max_output_kb", "the worker caps at 64 KiB; a custom cap needs a fresh process")]

def sessionStructuralGaps : List (String × String) :=
  [("sandbox_backend", "the worker is a plain subprocess, not codecalc-exec: the Rust executor's " ++
      "ceilings, argv/env handling and its own unenforced reporting do not apply to this call"),
    ("no_net", "enforcement (seccomp where the Linux kernel supports it, a symbol shim otherwise) " ++
      "is applied at exec and a worker is long-lived, so this session reaches the network"),
    ("process_group_kill", "applied per call on the one-shot path; here the worker's group is " ++
      "reaped at timeout or session_stop, so a background child outlives the call that started it"),
    ("peak_memory_kb", "not measured for worker calls; the field is null rather than zero")]

/-- What a worker leaves undone: first what was asked for, then what the
session lacks and has not been named yet. -/
def workerUnenforced (sessionId : String) (spec : ComputationSpec) : List String :=
  let asked (limit : String) : Bool :=
    (limit = "max_memory_mb" && spec.maxMemoryMb != 0) || (limit = "max_cpu" && spec.maxCpu != 0) ||
      (limit = "no_net" && spec.noNet) || (limit = "max_output_kb" && spec.maxOutputKb != 0)
  let named := workerCannotEnforce.filter fun entry => asked entry.1
  let gaps := sessionStructuralGaps.filter fun entry => !(named.map Prod.fst).contains entry.1
  (named ++ gaps).map (fun entry => entry.1 ++ ": " ++ entry.2) ++ world.confinement sessionId

/-- `out.setdefault("unenforced", []).extend(more)`. -/
def extendUnenforced (result : Fields) (more : List String) : Fields :=
  let present := match result.lookup "unenforced" with
    | some (.arr items) => items
    | _ => []
  setEntry "unenforced" (.arr (present ++ more.map Json.str)) result

def spillCaptureKb : Int := 4096

/-- A call on the worker of a session, which has no say in its ceilings. -/
def workerRun (sessionId : String) (spec : ComputationSpec) : Step Fields := do
  record (.worker sessionId spec.code spec.stdin spec.timeout)
  let out ← ask world.worker
  let out ← raising out
  let out := setEntry "confined" (.bool (world.confined sessionId))
    (setEntry "backend" (.str "session-worker")
      (extendUnenforced out (workerUnenforced world sessionId spec)))
  let checked ← ask (world.postcheck · out)
  raising checked

def workspaceRun (sessionId : String) (spec : ComputationSpec) : Step Fields := do
  record (.started "local" { spec with
    language := if spec.language = "" then "python3" else (canonical spec.language).getD ""
    workdir := some (world.sessionPath sessionId)
    maxOutputKb := if 0 < spec.maxOutputKb then spec.maxOutputKb else spillCaptureKb })
  let result ← ask world.executor
  let result ← raising result
  let checked ← ask (world.postcheck · result)
  raising checked

def sessionsExecute (sessionId : String) (spec : ComputationSpec) : Step Fields := do
  let present ← ask fun log => world.sessionDir (installs log) sessionId
  match present with
  | .error exception =>
      if exception.isInstance .valueError then pure (guardError (exception.message.getD ""))
      else raise (.raised exception)
  | .ok false => pure (unknownSession sessionId)
  | .ok true =>
      let refusal ← ask fun log => world.quotaPrecheck (installs log) sessionId
      let refusal ← raising refusal
      match refusal with
      | some fields => pure fields
      | none =>
          let state ← ask fun log => world.workerOf (installs log) sessionId
          match state with
          | .expired window => pure (errorResult .workerFailure
              ("session " ++ reprStr sessionId ++ " expired after sitting idle past " ++ window ++
                "; call session_stop and start a new one") [])
          | .live language =>
              if spec.language ≠ "" ∧ canonical spec.language ≠ some language then
                pure (failure ("session is " ++ language ++ ", not " ++ spec.language))
              else workerRun world sessionId spec
          | .absent => workspaceRun world sessionId spec

/-- The dependencies of a run in a session, in the session's own workspace. -/
def fetchedInto (close : Fields → Fields) (sessionId language : String) (noNet : Bool)
    (policy : Option CapabilityPolicy) : List String → Step (Option (List Fields))
  | [] => pure none
  | specs => do
      if networkRefused noNet policy then refuse (close (refusalResult noNet))
      else
        let (entries, failed) ← installDependencies world language specs (some sessionId) none
        match failed with
        | none => pure (some entries)
        | some fields => refuse (close (withDependencies fields (some entries)))

def executeSession (sessionId : String) (spec : ComputationSpec) (providerId : Option String)
    (dependencies : List String) : Step Reply := do
  let provider ← select world stamp spec providerId
  if provider.providerId ≠ "local" then
    refuse (stamp (unsupportedResult provider.providerId "sessions"))
  else
    let specs ← declared world stamp spec.language spec.code dependencies
    let (runSpec, decision, rejection) ← brokerRun world spec provider (service.policy world)
    refuseOn rejection
    let entries ← fetchedInto world stamp sessionId spec.language spec.noNet
      (service.policy world) specs
    let result ← sessionsExecute world sessionId runSpec
    attachReceipt world spec provider (some sessionId) decision (withDependencies result entries)

def extensions : List (String × String) :=
  [("python3", "py"), ("node", "js"), ("bun", "ts"), ("deno", "ts"), ("typescript", "ts"),
    ("ruby", "rb"), ("php", "php"), ("perl", "pl"), ("lua", "lua"), ("tcl", "tcl"), ("r", "R"),
    ("elixir", "exs"), ("erlang", "erl"), ("bash", "sh"), ("zsh", "zsh"), ("mojo", "mojo"),
    ("swift", "swift"), ("c", "c"), ("cpp", "cpp"), ("c++", "cpp"), ("rust", "rs"), ("go", "go"),
    ("fortran", "f90"), ("zig", "zig"), ("java", "java"), ("kotlin", "kt"), ("csharp", "cs"),
    ("gleam", "gleam"), ("haskell", "hs"), ("sqlite", "sql"), ("jq", "jq"), ("awk", "awk")]

/-- The language of an entry file: the last one with the file's extension. -/
def fileLanguage (entryFile : String) (language : Option String) : String :=
  match language with
  | some language => language
  | none =>
      let parts := entryFile.toList.splitOn '.'
      let extension := if parts.length < 2 then "" else String.ofList (parts.getLast?.getD [])
      ((extensions.reverse.find? fun entry => entry.2 = extension).map Prod.fst).getD "python3"

def sourceRun (sessionId entryFile language source stdin : String) (timeout : Int)
    (entries : Option (List Fields)) : Step Reply := do
  record (.started "local" {
    language := language, code := source, stdin := stdin, timeout := timeout,
    workdir := some (world.sessionPath sessionId), maxOutputKb := spillCaptureKb })
  let result ← ask world.executor
  let result ← raising result
  let named := setEntry "language" (.str language) (setEntry "entry_file" (.str entryFile) result)
  let checked ← ask (world.postcheck · (withDependencies named entries))
  let checked ← raising checked
  pure ⟨checked, none⟩

def runFile (sessionId entryFile : String) (language : Option String) (stdin : String)
    (timeout : Int) (dependencies : List String) : Step Reply := do
  let present ← ask fun log => world.sessionDir (installs log) sessionId
  let present ← guarded present
  if present = false then refuse (unknownSession sessionId)
  else
    let refusal ← ask fun log => world.quotaPrecheck (installs log) sessionId
    let refusal ← guarded refusal
    refuseOn refusal
    let resource ← ask fun log => world.resourceRead (installs log) sessionId entryFile
    let resource ← guarded resource
    match resource with
    | none => refuse (failure ("no such file or file too large: " ++ entryFile))
    | some source =>
        let language := fileLanguage entryFile language
        let specs ← declared world id language source dependencies
        let entries ← fetchedInto world id sessionId language false
          (Capabilities.policyFromEnv world.environ) specs
        sourceRun world sessionId entryFile language source stdin timeout entries

end Sessions

section Background

/-- The reply of `run_submit`, and what it leaves to the pool. -/
structure Submission where
  reply : Fields
  job : Step Reply

/-- A provider's work on the pool's thread, with the receipt that collecting it
attaches.  No handler stands around it. -/
def collected (spec runSpec : ComputationSpec) (provider : Provider) (decision : BrokerDecision)
    (entries : Option (List Fields)) : Step Reply := do
  let execution ← provided world provider runSpec
  match execution with
  | .returned result =>
      attachReceipt world spec provider none decision (withDependencies result entries)
  | .unsupported providerId capability => raise (.raised (unsupportedCapability providerId capability))
  | .raised exception => raise (.raised exception)

def installThenExecute (spec runSpec : ComputationSpec) (provider : Provider)
    (decision : BrokerDecision) (workdir : String) (specs : List String) : Step Reply := do
  let (entries, failed) ← installDependencies world spec.language specs none (some workdir)
  match failed with
  | some fields => refuse (stamp (withDependencies fields (some entries)))
  | none => collected world spec runSpec provider decision (some entries)

/-- The job of a run with dependencies; its workdir goes when it is collected. -/
def installJob (spec runSpec : ComputationSpec) (provider : Provider) (decision : BrokerDecision)
    (workdir : String) (specs : List String) : Step Reply :=
  ensuring (installThenExecute world spec runSpec provider decision workdir specs)
    (record (.removed workdir))

def submitted (provider : Provider) (workdir : Option String) : Step Fields := do
  let admission ← ask world.admission
  match admission with
  | .accepted handle => pure [("ok", .bool true), ("run_id", .str handle.runId),
      ("provider_id", .str provider.providerId), ("started_at", .float handle.startedAt),
      ("deadline", .float handle.deadline), ("state", .str "running")]
  | .full active limit =>
      release (workdir.map fun path => (path, []))
      refuse (errorResult .resourceExhausted
        (toString active ++ " runs are already active against a limit of " ++ toString limit ++
          "; call run_inspect/run_cancel to free one up, or wait for one to finish, then retry")
        [("active_runs", .int active), ("limit", .int limit)])
  | .failed exception =>
      release (workdir.map fun path => (path, []))
      raise (.raised exception)

/-- The request that `run_submit` makes of its arguments. -/
def clamped (spec : ComputationSpec) : ComputationSpec :=
  { spec with timeout := min spec.timeout 120, maxOutputKb := min spec.maxOutputKb 240 }

def runSubmit (arguments : ComputationSpec) (providerId : Option String)
    (dependencies : List String) : Step Submission := do
  if service.supervisor = false then
    refuse (errorResult .internal "run supervisor unavailable"
      [("provider_error", .str "run_supervisor_unavailable")])
  else
    let spec := clamped arguments
    let provider ← select world id spec providerId
    let specs ← declared world id spec.language spec.code dependencies
    let (runSpec, decision, rejection) ← brokerRun world spec provider
      (Capabilities.policyFromEnv world.environ)
    refuseOn rejection
    if specs = [] then
      let reply ← submitted world provider none
      pure ⟨reply, collected world spec runSpec provider decision none⟩
    else if provider.providerId ≠ "local" then refuse (noDependencies provider.providerId)
    else if networkRefused spec.noNet (Capabilities.policyFromEnv world.environ) then
      refuse (refusalResult spec.noNet)
    else
      let workdir ← ask world.mkdtemp
      let workdir ← raising workdir
      let reply ← submitted world provider (some workdir)
      pure ⟨reply, installJob world spec { runSpec with workdir := some workdir } provider decision
        workdir specs⟩

/-- A submitted run to its end: the reply, and then the job once the pool gets
to it. -/
def runInBackground (arguments : ComputationSpec) (providerId : Option String)
    (dependencies : List String) : Step Reply := do
  let submission ← runSubmit world service arguments providerId dependencies
  let picked ← ask world.picked
  if picked then submission.job else pure ⟨submission.reply, none⟩

end Background

end Paths

/-- A call that can start a run. -/
inductive Entry where
  | execute (spec : ComputationSpec) (providerId : Option String) (dependencies : List String)
  | executeSession (sessionId : String) (spec : ComputationSpec) (providerId : Option String)
      (dependencies : List String)
  | executeStream (spec : ComputationSpec) (providerId : Option String) (dependencies : List String)
  | runFile (sessionId entryFile : String) (language : Option String) (stdin : String)
      (timeout : Int) (dependencies : List String)
  | runSubmit (arguments : ComputationSpec) (providerId : Option String) (dependencies : List String)

namespace Entry

/-- The request asks for no network; `run_file` has no way to. -/
def noNet : Entry → Bool
  | execute spec _ _ | executeSession _ spec _ _ | executeStream spec _ _ => spec.noNet
  | runFile .. => false
  | runSubmit arguments _ _ => arguments.noNet

def policy (world : World) (service : Service) : Entry → Option CapabilityPolicy
  | runFile .. | runSubmit .. => policyFromEnv world.environ
  | _ => service.policy world

/-- The call from its start to the end of its run. -/
def perform (world : World) (service : Service) : Entry → Step Reply
  | execute spec providerId dependencies => Execution.execute world service spec providerId dependencies
  | executeSession sessionId spec providerId dependencies =>
      Execution.executeSession world service sessionId spec providerId dependencies
  | executeStream spec providerId dependencies =>
      Execution.executeStream world service spec providerId dependencies
  | runFile sessionId entryFile language stdin timeout dependencies =>
      Execution.runFile world sessionId entryFile language stdin timeout dependencies
  | runSubmit arguments providerId dependencies =>
      runInBackground world service arguments providerId dependencies

end Entry

end CodeCalc.Execution
