import Mathlib.Algebra.Order.Floor.Ring
import Mathlib.Data.Rat.Floor
import CodeCalc.Lib.Effect
import CodeCalc.Output.Paths
import CodeCalc.Python

/-! `executor.execute` on both backends, followed through every exit: which
exceptions its handlers catch, which processes it leaves running and what
becomes of the directory it made. -/
namespace CodeCalc.Executor
open Lib Lib.Utf8 Output

/-- The arguments of `execute`. -/
structure Request where
  language : Text
  code : Text
  stdin : Text := []
  timeout : Int := 10
  workdir : Option Text := none
  maxMemoryMb : Int := 0
  maxOutputKb : Int := 0
  maxCpu : Int := 0
  noNet : Bool := false

/-- The paths that a plan's `{file}`, `{exe}` and `{work}` become. -/
structure Scratch where
  file : Text
  exe : Text
  work : Text

/-- One argv of a plan, as its placeholders are filled in. -/
structure Command where
  program : Scratch → Text
  arguments : Scratch → List Text

/-- What the registry holds of a language. -/
structure Plan where
  name : Text
  ext : Text
  shellWrapped : Bool := false
  posixArgv : Bool := false
  compile : Option Command := none
  run : Command

inductive Phase where
  | compile
  | run
  deriving DecidableEq

def Phase.text : Phase → Text
  | .compile => Text.ofString "compile"
  | .run => Text.ofString "run"

section Encoding

/-- An `Exception` as the handlers of the executor see it; an interrupt, which
derives from `BaseException` only, can end any call and is left out. -/
structure Raised where
  typeName : String
  bases : List ExcClass
  text : Text

/-- Caught by `except OSError`. -/
def Raised.isOs (exc : Raised) : Bool := decide (.osError ∈ exc.bases)

def unicodeEncodeError : Raised :=
  ⟨"UnicodeEncodeError", [.valueError],
    Text.ofString "'utf-8' codec can't encode character: surrogates not allowed"⟩

def valueError (message : String) : Raised :=
  ⟨"ValueError", [.valueError], Text.ofString message⟩

def overflowError (message : String) : Raised :=
  ⟨"OverflowError", [.arithmeticError], Text.ofString message⟩

def osError (message : Text) : Raised := ⟨"OSError", [.osError], message⟩

def subprocessError : Raised :=
  ⟨"SubprocessError", [], Text.ofString "Exception occurred in preexec_fn."⟩

def Surrogate (code : CodePoint) : Prop := 0xD800 ≤ code.val ∧ code.val ≤ 0xDFFF

instance (code : CodePoint) : Decidable (Surrogate code) := inferInstanceAs (Decidable (_ ∧ _))

/-- `text.encode()`: no surrogate is in the way. -/
def Encodable (text : Text) : Prop := ∀ code ∈ text, ¬ Surrogate code

instance (text : Text) : Decidable (Encodable text) := List.decidableBAll _ text

def encode (text : Text) : Except Raised Unit :=
  if Encodable text then .ok () else .error unicodeEncodeError

/-- What `surrogateescape` maps back to a byte. -/
def Escaped (code : CodePoint) : Prop := 0xDC80 ≤ code.val ∧ code.val ≤ 0xDCFF

instance (code : CodePoint) : Decidable (Escaped code) := inferInstanceAs (Decidable (_ ∧ _))

/-- A path or an argument that can be handed to the system: `os.fsencode` takes
every character (on Windows it takes them all) and there is no NUL. -/
def FsEncodable (windows : Bool) (path : Text) : Prop :=
  ∀ code ∈ path, code.val ≠ 0 ∧ (windows = true ∨ ¬ Surrogate code ∨ Escaped code)

instance (windows : Bool) (path : Text) : Decidable (FsEncodable windows path) :=
  List.decidableBAll _ path

def fsEncode (windows : Bool) (path : Text) : Except Raised Unit :=
  if FsEncodable windows path then .ok ()
  else if path.all fun code => windows || decide (¬ Surrogate code ∨ Escaped code) then
    .error (valueError "embedded null byte")
  else .error unicodeEncodeError

/-- An int that `float` takes: it rounds to no more than the largest double. -/
def Floatable (value : Int) : Prop := value.natAbs < 2 ^ 1024 - 2 ^ 970

instance (value : Int) : Decidable (Floatable value) := inferInstanceAs (Decidable (_ < _))

/-- `str(value)`, which refuses an int of more than 4300 digits. -/
def strInt (value : Int) : Except Raised Text :=
  if value.natAbs < 10 ^ 4300 then .ok (Text.ofString (toString value))
  else .error (valueError "Exceeds the limit (4300 digits) for integer string conversion")

end Encoding

section Host

/-- `os.lstat`, as far as it is looked at. -/
structure Stat where
  directory : Bool
  regular : Bool := false
  dev : Nat
  ino : Nat

/-- The resources that `_limits` sets, in its order. -/
inductive Resource where
  | cpu
  | addressSpace
  | fileSize
  | openFiles
  | processes
  | core
  deriving DecidableEq

inductive ScratchFile where
  | source
  | shim
  deriving DecidableEq

/-- What stands at the scratch directory's path already: what `rglob` meets inside
it, how it looks when its identity is taken and when it is removed, and whether
that works. -/
structure Leftover where
  stat : Stat
  entries : List (Text × Except Raised Stat) := []
  scanned : Except Raised Stat
  removing : Except Raised Stat
  removable : Bool := true

/-- A process, its three feeding and draining threads and what it wrote. -/
structure Child where
  nprocLimit : Except Raised Int := .ok 4096
  fork : Except Raised Unit := .ok ()
  exec : Except Raised Unit := .ok ()
  threadStarts : List (Except Raised Unit) := [.ok (), .ok (), .ok ()]
  /-- The status that `poll` sees before the deadline; `none` when the clock gets
  there first. -/
  exit : Option Int
  out : Bytes := []
  err : Bytes := []
  outSeen : Option Nat := some out.length
  errSeen : Option Nat := some err.length
  drainError : Option Text := none
  cpuMs : Nat := 0

/-- `proc.communicate` of the native executor. -/
inductive Communicated where
  | ended (out err : Bytes)
  | timeoutExpired (drained : Except Raised Bytes)
  | raised (exc : Raised)

/-- The readings of the monotonic clock, in seconds. -/
inductive Reading where
  | started
  | compiled
  | budget
  | runStarted
  | runEnded
  | ended
  deriving DecidableEq

/-- What the system answers in the course of one call. -/
structure Host where
  windows : Bool := false
  platform : Text := Text.ofString "linux"
  euid : Option Nat := some 1000
  plan : Text → Option Plan
  known : Text := []
  /-- `executor._rust`. -/
  rust : Option Text := none
  clock : Reading → ℚ := fun _ => 0
  mkdtemp : Except Raised { path : Text // FsEncodable windows path }
  /-- The directory that `mkdtemp` made, as it was then and as it is at the end. -/
  workdirMade : Except Raised Stat
  workdirLeft : Except Raised Stat
  workdirRemovable : Bool := true
  leftover : Except Raised Leftover
  mkdir : Except Raised Unit := .ok ()
  openFile : ScratchFile → Except Raised Unit := fun _ => .ok ()
  writeFile : ScratchFile → Except Raised Unit := fun _ => .ok ()
  which : Text → Option Text := some
  setrlimit : Resource → Int → Except Raised Unit := fun _ _ => .ok ()
  child : Phase → Child
  stdinFile : Except Raised Text := .ok (Text.ofString "/tmp/codecalc-stdin-0.txt")
  stdinFlush : Except Raised Unit := .ok ()
  stdinUnlink : Except Raised Unit := .ok ()
  nativeSpawn : Except Raised Unit := .ok ()
  communicate : Communicated := .ended [] []
  loads : Text → Except Raised Json := fun _ => .error (valueError "Expecting value")
  strJson : Json → String := fun _ => ""
  reprBytes : Bytes → Text := lossy

end Host

inductive Process where
  | native
  | step (phase : Phase)
  deriving DecidableEq

/-- What the call holds: the processes it started that are neither reaped nor
killed, the directory it made and has not removed, the file that carries stdin. -/
structure Held where
  alive : List Process := []
  workdir : Option Text := none
  stdinPath : Option Text := none
  deriving DecidableEq

abbrev Action := Effect Held Raised

section Directories

def dirIdentity : Except Raised Stat → Option (Nat × Nat)
  | .error _ => none
  | .ok stat => if stat.directory = false ∨ stat.ino = 0 then none else some (stat.dev, stat.ino)

/-- `_rmtree_checked`: whether the directory is gone. -/
def rmtreeChecked (created : Option (Nat × Nat)) (now : Except Raised Stat) (removable : Bool) : Bool :=
  if created = none then false
  else if dirIdentity now ≠ created then false
  else removable

def runScratchDirname : Text := Text.ofString ".codecalc-run"

def joinPath (windows : Bool) (directory name : Text) : Text :=
  directory ++ Text.ofString (if windows then "\\" else "/") ++ name

/-- The scan of `_reset_run_scratch_dir`: plain files and directories only. -/
def scanEntries : List (Text × Except Raised Stat) → Except Raised Unit
  | [] => .ok ()
  | (_, .error exc) :: _ => .error exc
  | (entry, .ok stat) :: rest =>
      if stat.regular = false ∧ stat.directory = false then
        .error (osError (Text.ofString "refusing to run: " ++ entry ++ Text.ofString
          " inside the runner scratch directory is not a plain file or directory (symlink, device, FIFO or socket) — this session's own workspace may have been tampered with between calls"))
      else scanEntries rest

def resetRunScratchDir (host : Host) (workdir : Text) : Except Raised Text := do
  let directory := joinPath host.windows workdir runScratchDirname
  fsEncode host.windows workdir
  match host.leftover with
  | .error exc =>
      if .fileNotFoundError ∈ exc.bases then
        host.mkdir
        return directory
      else .error exc
  | .ok found =>
      if found.stat.directory = false then
        .error (osError (Text.ofString "refusing to use " ++ directory ++ Text.ofString
          " as the runner scratch directory: it already exists and is not a plain directory"))
      else
        scanEntries found.entries
        if rmtreeChecked (dirIdentity found.scanned) found.removing found.removable then
          host.mkdir
          return directory
        else
          .error (osError (Text.ofString "refusing to reset the runner scratch directory " ++
            directory ++ Text.ofString
            ": its identity changed between being scanned and being removed"))

def writeScratchNofollow (host : Host) (file : ScratchFile) (content : Text) : Except Raised Unit := do
  host.openFile file
  encode content
  host.writeFile file

end Directories

section Replies

/-- The dictionary with the documented keys, less `peak_memory_kb`, always
`None`, and `backend`, always `"python"`. -/
structure Envelope where
  ok : Bool
  language : Text
  phase : Phase
  stdout : Text := []
  stderr : Text
  exitCode : Option Int := none
  durationMs : Int
  workdir : Text
  compileMs : Int
  totalMs : Int
  timedOut : Bool := false
  outputTruncated : Bool := false
  verdict : String
  cpuMs : Nat := 0
  platform : Text
  unenforced : List String
  outputError : Option Text := none
  stdoutBytes : Option Nat := none
  stderrBytes : Option Nat := none
  error : Option Text := none

/-- The dictionaries that `_execute_uncontracted` returns. -/
inductive Reply where
  | refused (error : Text)
  | envelope (fields : Envelope)
  /-- The native executor outlived its own timeout by half a minute. -/
  | executorTimedOut (stderr : Text)
  | native (members : Fields)

def fallbackVerdict (exitCode : Int) (timedOut truncated : Bool) : String :=
  if timedOut then "TLE"
  else if truncated then "OLE"
  else if exitCode ≠ 0 then "RTE"
  else "OK"

def unmeasured (host : Host) (maxMemoryMb maxCpu : Int) : List String :=
  ["peak_memory_kb: ru_maxrss is a high-water mark and cannot be attributed to one run"] ++
  (if host.euid = some 0 then
    ["max_processes: RLIMIT_NPROC does not bind a process running as uid 0"] else []) ++
  (if host.windows then
    ["max_processes: the Python fallback applies no process ceiling on Windows"] ++
    (if 0 < maxMemoryMb then
      ["max_memory_mb: the Python fallback applies no memory ceiling on Windows"] else []) ++
    (if 0 < maxCpu then ["max_cpu: the Python fallback applies no CPU ceiling on Windows"] else [])
  else if host.platform = Text.ofString "darwin" ∧ 0 < maxMemoryMb then
    ["max_memory_mb: setrlimit(RLIMIT_AS) is accepted and then ignored on macOS"]
  else [])

def unenforced (host : Host) (noNet : Bool) (maxMemoryMb maxCpu : Int) : List String :=
  (if noNet then
    ["no_net: needs the native executor (seccomp where the Linux kernel supports it, a symbol shim otherwise)"]
  else []) ++ unmeasured host maxMemoryMb maxCpu

def elapsedMs (host : Host) (earlier later : Reading) : Int :=
  let span := (host.clock later - host.clock earlier) * 1000
  span.num.tdiv span.den

def runtimeUnavailableResult (host : Host) (request : Request) (plan : Plan) (phase : Phase)
    (program : Text) (workdir : Text) (exc : Raised) : Reply :=
  let detail := Text.ofString "runtime unavailable for the " ++ phase.text ++
    Text.ofString " phase of '" ++ plan.name ++ Text.ofString "': '" ++ program ++
    Text.ofString "' (" ++ exc.text ++ Text.ofString ")"
  let elapsed := elapsedMs host .started .ended
  .envelope
    { ok := false, language := plan.name, phase := phase, stderr := detail, durationMs := elapsed
      workdir := workdir, compileMs := if phase = .compile then elapsed else 0, totalMs := elapsed
      verdict := "RTE", platform := host.platform
      unenforced := unenforced host request.noNet 0 0, error := some detail }

structure StepResult where
  exitCode : Int
  out : Bytes
  err : Bytes
  timedOut : Bool
  cpuMs : Nat
  drainError : Option Text
  outSeen : Option Nat
  errSeen : Option Nat

def fallbackCompileFailure (host : Host) (request : Request) (plan : Plan) (workdir : Text)
    (step : StepResult) : Reply :=
  let (out, err, truncated) := Fallback.cappedStreams (requestedCap request.maxOutputKb)
    (if step.timedOut then [] else step.out) step.err
  let elapsed := elapsedMs host .started (if step.timedOut then .ended else .compiled)
  .envelope
    { ok := false, language := plan.name, phase := .compile
      stdout := if step.timedOut then [] else out
      stderr := err, exitCode := if step.timedOut then none else some step.exitCode
      durationMs := elapsed, workdir := workdir, compileMs := elapsed, totalMs := elapsed
      timedOut := step.timedOut, outputTruncated := truncated
      verdict := fallbackVerdict (if step.timedOut then -1 else step.exitCode) step.timedOut truncated
      platform := host.platform
      unenforced := unenforced host request.noNet request.maxMemoryMb request.maxCpu
      outputError := step.drainError, stdoutBytes := step.outSeen, stderrBytes := step.errSeen }

def fallbackBudgetExhausted (host : Host) (request : Request) (plan : Plan) (workdir : Text)
    (compileMs : Int) : Reply :=
  .envelope
    { ok := false, language := plan.name, phase := .run, stderr := Text.ofString killNotice
      durationMs := 0, workdir := workdir, compileMs := compileMs
      totalMs := elapsedMs host .started .ended, timedOut := true, verdict := "TLE"
      platform := host.platform
      unenforced := unenforced host request.noNet request.maxMemoryMb request.maxCpu }

def runResult (host : Host) (request : Request) (plan : Plan) (workdir : Text) (compileMs : Int)
    (step : StepResult) : Reply :=
  let (out, err, truncated) := Fallback.cappedStreams (requestedCap request.maxOutputKb)
    step.out step.err
  .envelope
    { ok := step.exitCode = 0 ∧ step.drainError = none, language := plan.name, phase := .run
      stdout := out, stderr := err, exitCode := some step.exitCode
      durationMs := elapsedMs host .runStarted .runEnded, workdir := workdir
      compileMs := compileMs, totalMs := elapsedMs host .started .ended
      timedOut := step.timedOut, outputTruncated := truncated
      verdict := fallbackVerdict step.exitCode step.timedOut truncated, cpuMs := step.cpuMs
      platform := host.platform
      unenforced := unenforced host request.noNet request.maxMemoryMb request.maxCpu
      outputError := step.drainError, stdoutBytes := step.outSeen, stderrBytes := step.errSeen }

end Replies

section Steps

def Held.spawn (process : Process) (held : Held) : Held :=
  { held with alive := process :: held.alive }

def Held.reap (process : Process) (held : Held) : Held :=
  { held with alive := held.alive.erase process }

/-- The ceilings of `_limits`, `CPU_GRACE_SECONDS` and the other constants filled in. -/
def limits (timeout : ℚ) (maxMemoryMb maxCpu nproc : Int) : List (Resource × Int) :=
  [(.cpu, if 0 < maxCpu then maxCpu else ⌈timeout⌉ + 8),
    (.addressSpace, if 0 < maxMemoryMb then maxMemoryMb * 1024 * 1024 else 2048 * 1024 ^ 3),
    (.fileSize, 256 * 1024 ^ 2), (.openFiles, 256), (.processes, nproc), (.core, 0)]

/-- `_apply`, in the child between `fork` and `exec`.  It swallows a `ValueError`
or an `OSError` and the ceilings after it; `Popen` reports anything else. -/
def applyLimits (setrlimit : Resource → Int → Except Raised Unit) :
    List (Resource × Int) → Except Raised Unit
  | [] => .ok ()
  | (resource, value) :: rest =>
      match setrlimit resource value with
      | .ok () => applyLimits setrlimit rest
      | .error exc =>
          if .valueError ∈ exc.bases ∨ .osError ∈ exc.bases then .ok () else .error subprocessError

/-- `subprocess.Popen` of a step with its `preexec_fn`; where it raises there is
no process left. -/
def popen (host : Host) (request : Request) (phase : Phase) (timeout : ℚ) : Except Raised Unit :=
  let child := host.child phase
  if host.windows then do
    child.fork
    child.exec
  else do
    let nproc ← child.nprocLimit
    child.fork
    applyLimits host.setrlimit (limits timeout request.maxMemoryMb request.maxCpu nproc)
    child.exec

def startThreads : List (Except Raised Unit) → Except Raised Unit
  | [] => .ok ()
  | start :: rest => start >>= fun _ => startThreads rest

def stepResult (child : Child) : StepResult :=
  match child.exit with
  | none =>
      { exitCode := -1, out := [], err := killNotice.toUTF8.toList, timedOut := true
        cpuMs := child.cpuMs, drainError := none, outSeen := child.outSeen, errSeen := child.errSeen }
  | some exitCode =>
      { exitCode := exitCode, out := child.out, err := child.err, timedOut := false
        cpuMs := child.cpuMs, drainError := child.drainError
        outSeen := child.outSeen, errSeen := child.errSeen }

/-- `_run_step`.  The child is there from `Popen` on; it is gone once the poll
loop has seen it exit or has killed it and `_reap_group` has swept its group. -/
def runStep (host : Host) (request : Request) (phase : Phase) (timeout : ℚ) (stdin : Text) :
    Action StepResult := do
  Effect.ofExcept (popen host request phase timeout)
  Effect.modify (Held.spawn (.step phase))
  Effect.ofExcept (encode stdin)
  Effect.ofExcept (startThreads (host.child phase).threadStarts)
  Effect.modify (Held.reap (.step phase))
  pure (stepResult (host.child phase))

end Steps

section Fallback

def nodeSiblingShimJs : Text :=
  Text.ofString <|
    "// Auto-generated by codecalc on every node run — see executor.py's\n" ++
    "// NODE_SIBLING_SHIM_JS / main.rs's NODE_SIBLING_SHIM_JS for why this exists.\n" ++
    "const Module = require(\"module\");\n" ++
    "const path = require(\"path\");\n" ++
    "const originalResolve = Module._resolveFilename;\n" ++
    "Module._resolveFilename = function (request, parent, isMain, options) \x7b\n" ++
    "  try \x7b\n" ++
    "    return originalResolve.call(this, request, parent, isMain, options);\n" ++
    "  \x7d catch (err) \x7b\n" ++
    "    const root = process.env.CODECALC_WORKDIR_ROOT;\n" ++
    "    if (root && (request.startsWith(\"./\") || request.startsWith(\"../\"))) \x7b\n" ++
    "      try \x7b\n" ++
    "        const alt = path.resolve(root, request);\n" ++
    "        return originalResolve.call(this, alt, parent, isMain, options);\n" ++
    "      \x7d catch (_fallbackErr) \x7b\n" ++
    "        // fall through to the original error below — the fallback failed too\n" ++
    "      \x7d\n" ++
    "    \x7d\n" ++
    "    throw err;\n" ++
    "  \x7d\n" ++
    "\x7d;\n"

/-- `try: body except OSError`, answered by a dictionary. -/
def orReply {α : Type} (body : Action α) (reply : Raised → Reply) (next : α → Action Reply) :
    Action Reply := do
  match ← Effect.attempt body with
  | .ok value => next value
  | .error exc => if exc.isOs then pure (reply exc) else Effect.raise exc

/-- The workdir of the caller; an empty one counts as none. -/
def callerWorkdir (request : Request) : Option Text :=
  match request.workdir with
  | some (first :: rest) => some (first :: rest)
  | _ => none

def takeWorkdir (host : Host) (request : Request) : Action Text :=
  match callerWorkdir request with
  | some workdir => pure workdir
  | none => do
      let path ← Effect.ofExcept host.mkdtemp
      Effect.modify fun held => { held with workdir := some path.val }
      pure path.val

/-- The `finally` of `_execute_python`. -/
def dropWorkdir (host : Host) (request : Request) : Action Unit :=
  match callerWorkdir request with
  | some _ => pure ()
  | none =>
      if rmtreeChecked (dirIdentity host.workdirMade) host.workdirLeft host.workdirRemovable then
        Effect.modify fun held => { held with workdir := none }
      else pure ()

def deadline (host : Host) (timeout : Int) : Except Raised ℚ :=
  if Floatable timeout then .ok (host.clock .started + timeout)
  else .error (overflowError "int too large to convert to float")

def remainingRunBudget (deadline now : ℚ) : Option ℚ :=
  if 0 < deadline - now then some (deadline - now) else none

def notOnPath (program : Text) : Raised :=
  ⟨"FileNotFoundError", [.fileNotFoundError, .osError],
    Text.ofString "[Errno 2] No such file or directory: '" ++ program ++ Text.ofString "'"⟩

def sourceArg (host : Host) (plan : Plan) (name path : Text) : Text :=
  if host.windows && plan.posixArgv then runScratchDirname ++ Text.ofString "/" ++ name else path

/-- `_execute_python` from the run step on. -/
def runPhase (host : Host) (request : Request) (plan : Plan) (workdir : Text) (scratch : Scratch)
    (deadline : ℚ) (compileMs : Int) : Action Reply :=
  match remainingRunBudget deadline (host.clock .budget) with
  | none => pure (fallbackBudgetExhausted host request plan workdir compileMs)
  | some budget =>
      match host.which (plan.run.program scratch) with
      | none =>
          pure (runtimeUnavailableResult host request plan .run (plan.run.program scratch) workdir
            (notOnPath (plan.run.program scratch)))
      | some resolved =>
          orReply (runStep host request .run budget request.stdin)
            (runtimeUnavailableResult host request plan .run resolved workdir) fun step =>
            pure (runResult host request plan workdir compileMs step)

/-- `_execute_python` from the compile step on, where there is one. -/
def compilePhase (host : Host) (request : Request) (plan : Plan) (workdir : Text)
    (scratch : Scratch) (deadline : ℚ) : Action Reply :=
  match plan.compile with
  | none => runPhase host request plan workdir scratch deadline 0
  | some command =>
      match host.which (command.program scratch) with
      | none =>
          pure (runtimeUnavailableResult host request plan .compile (command.program scratch)
            workdir (notOnPath (command.program scratch)))
      | some resolved =>
          orReply (runStep host request .compile request.timeout [])
            (runtimeUnavailableResult host request plan .compile resolved workdir) fun step =>
            if step.timedOut || step.exitCode ≠ 0 then
              pure (fallbackCompileFailure host request plan workdir step)
            else
              runPhase host request plan workdir scratch deadline
                (elapsedMs host .started .compiled)

def scratchIn (host : Host) (plan : Plan) (runDir : Text) : Scratch :=
  let name := Text.ofString "main." ++ plan.ext
  { file := sourceArg host plan name (joinPath host.windows runDir name)
    exe := joinPath host.windows runDir (Text.ofString (if host.windows then "a.exe" else "a.out"))
    work := runDir }

/-- The body of the `try` of `_execute_python`. -/
def runPlan (host : Host) (request : Request) (plan : Plan) (workdir : Text) (deadline : ℚ) :
    Action Reply :=
  orReply (Effect.ofExcept (resetRunScratchDir host workdir)) (fun exc => .refused exc.text)
    fun runDir =>
  let source := joinPath host.windows runDir (Text.ofString "main." ++ plan.ext)
  orReply (Effect.ofExcept (writeScratchNofollow host .source request.code))
    (fun exc => .refused (Text.ofString "failed to write source to " ++ source ++
      Text.ofString ": " ++ exc.text)) fun _ =>
  let shim := joinPath host.windows runDir (Text.ofString "_codecalc_node_sibling_shim.js")
  orReply (Effect.ofExcept (writeScratchNofollow host .shim nodeSiblingShimJs))
    (fun exc => .refused (Text.ofString "failed to write " ++ shim ++
      Text.ofString ": " ++ exc.text)) fun _ =>
  compilePhase host request plan workdir (scratchIn host plan runDir) deadline

def executePython (host : Host) (request : Request) : Action Reply :=
  match host.plan request.language with
  | none =>
      pure (.refused (Text.ofString "unknown language '" ++ request.language ++
        Text.ofString "'. Available: " ++ host.known))
  | some plan =>
      if host.windows && plan.shellWrapped then
        pure (.refused (Text.ofString "'" ++ plan.name ++ Text.ofString
          "' is unsupported on this platform: its plan needs a POSIX shell to scaffold a project"))
      else do
        let workdir ← takeWorkdir host request
        let deadline ← Effect.ofExcept (deadline host request.timeout)
        Effect.ensuring (runPlan host request plan workdir deadline) (dropWorkdir host request)

end Fallback

section Native

/-- `value is not None and bool(value)` of `result.get(key)`. -/
def truthyAt (members : Fields) (key : String) : Bool :=
  match members.lookup key with
  | some value => value.truthy
  | none => false

def isMinusTwo : Option Json → Bool
  | some (.int value) => decide (value = -2)
  | some (.float value) => decide (value = -2)
  | _ => false

/-- An answer of an older binary that could not spawn the program. -/
def spawnFailed (members : Fields) : Bool :=
  (match members.lookup "ok" with | some (.bool false) => true | _ => false) &&
  !truthyAt members "error" && (members.lookup "phase").isSome &&
  isMinusTwo (members.lookup "exit_code") && (members.lookup "spawn_error").isNone

/-- The `error` set for it, from its `stderr` where that says anything. -/
def spawnFailure (host : Host) (members : Fields) : String :=
  let stderr := if truthyAt members "stderr" then
    host.strJson ((members.lookup "stderr").getD .null) else ""
  if stderr ≠ "" then stderr
  else "runtime unavailable for the " ++ host.strJson ((members.lookup "phase").getD .null) ++ " phase"

def noNetBestEffort : String :=
  "no_net: best-effort LD_PRELOAD/dyld symbol shim — a dynamically-linked ctypes/dlsym or raw-syscall network call bypasses it, and on macOS a SIP-protected or hardened interpreter drops the DYLD insert entirely so even an ordinary socket is unblocked; use the strict (gVisor) backend, or run on a Linux kernel with seccomp, for a real egress block"

def isShimMarker : Json → Bool
  | .str value => decide (value = "no_net_best_effort_shim")
  | _ => false

/-- The `unenforced` list under `no_net`, the terse marker spelled out. -/
def discloseNoNet (members : Fields) : Fields :=
  let items := match members.lookup "unenforced" with
    | some (.arr items) => items
    | _ => []
  setEntry "unenforced" (.arr (if items.any isShimMarker then
    items.filter (fun item => !isShimMarker item) ++ [.str noNetBestEffort] else items)) members

/-- What is made of a dictionary that the binary printed. -/
def adoptResult (host : Host) (noNet : Bool) (members : Fields) : Fields :=
  let members := setEntry "backend" (.str "rust") members
  let members := if spawnFailed members then
      setEntry "exit_code" .null (setEntry "error" (.str (spawnFailure host members)) members)
    else members
  let members := if noNet then discloseNoNet members else members
  members.filter fun entry => entry.1 ≠ "spawn_error"

def positiveFlag (flag : String) (value : Int) : Except Raised (List Text) :=
  if 0 < value then (strInt value).map fun text => [Text.ofString flag, text] else .ok []

def nativeArgs (request : Request) (rust : Text) : Except Raised (List Text) := do
  let timeout ← strInt request.timeout
  let memory ← positiveFlag "--max-memory-mb" request.maxMemoryMb
  let output ← positiveFlag "--max-output-kb" request.maxOutputKb
  let cpu ← positiveFlag "--max-cpu" request.maxCpu
  return [rust, Text.ofString "--lang", request.language, Text.ofString "--timeout", timeout] ++
    (match callerWorkdir request with
      | some workdir => [Text.ofString "--workdir", workdir]
      | none => []) ++
    memory ++ output ++ cpu ++ (if request.noNet then [Text.ofString "--no-net"] else [])

/-- `NamedTemporaryFile` with the program's stdin; `stdin_path` is set between the
write and the close. -/
def writeStdinFile (host : Host) (stdin : Text) : Action (List Text) :=
  match stdin with
  | [] => pure []
  | _ => do
      let name ← Effect.ofExcept host.stdinFile
      Effect.ofExcept (encode stdin)
      Effect.modify fun held => { held with stdinPath := some name }
      Effect.ofExcept host.stdinFlush
      pure [Text.ofString "--stdin-file", name]

/-- The dictionary made of the executor's two streams. -/
def nativeReply (host : Host) (request : Request) (out err : Bytes) : Except Raised Reply := do
  match ← host.loads (lossy out) with
  | .obj members =>
      if (members.lookup "ok").isSome then return .native (adoptResult host request.noNet members)
      else return .refused (Text.ofString "executor produced invalid output: " ++
        host.reprBytes (err.take 200))
  | _ => return .refused (Text.ofString "executor produced invalid output: " ++
      host.reprBytes (err.take 200))

/-- `proc.communicate(input=code.encode(), timeout=timeout + 30)` and what follows. -/
def communicate (host : Host) (request : Request) : Action Reply := do
  Effect.ofExcept (encode request.code)
  Effect.ofExcept (if Floatable (request.timeout + 30) then .ok ()
    else .error (overflowError "int too large to convert to float"))
  match host.communicate with
  | .raised exc => Effect.raise exc
  | .timeoutExpired drained => do
      Effect.modify (Held.reap .native)
      let err ← Effect.ofExcept drained
      pure (.executorTimedOut ((lossy err).take 400))
  | .ended out err => do
      Effect.modify (Held.reap .native)
      Effect.ofExcept (nativeReply host request out err)

/-- The body of the `try` of the native path. -/
def nativeBody (host : Host) (request : Request) (rust : Text) : Action Reply := do
  let stdinArgs ← writeStdinFile host request.stdin
  let args ← Effect.ofExcept (nativeArgs request rust)
  Effect.ofExcept ((args ++ stdinArgs).forM (fsEncode host.windows))
  Effect.ofExcept host.nativeSpawn
  Effect.modify (Held.spawn .native)
  communicate host request

/-- `try: body except Exception`, answered by a dictionary. -/
def orFailure (body : Action Reply) : Action Reply := do
  match ← Effect.attempt body with
  | .ok reply => pure reply
  | .error exc => pure (.refused (Text.ofString "executor failed: " ++ exc.text))

/-- The `finally` of the native path. -/
def unlinkStdin (host : Host) : Action Unit := do
  let held ← Effect.get
  match held.stdinPath with
  | none => pure ()
  | some _ => Effect.ofExcept host.stdinUnlink

end Native

def executeUncontracted (host : Host) (request : Request) : Action Reply :=
  match host.rust with
  | some rust => Effect.ensuring (orFailure (nativeBody host request rust)) (unlinkStdin host)
  | none => executePython host request

structure Stamped where
  reply : Reply
  contractVersion : Json

def stamp (reply : Reply) : Stamped :=
  match reply with
  | .native members => ⟨reply, (members.lookup "contract_version").getD (.str "1.20.0")⟩
  | _ => ⟨reply, .str "1.20.0"⟩

def execute (host : Host) (request : Request) : Action Stamped :=
  stamp <$> executeUncontracted host request

end CodeCalc.Executor
