import Mathlib.Tactic.NormNum
import CodeCalc.Executor.Run

/-! When `execute` returns, and what it then holds.  A computation settles when
it returns and holds what it held before; one rule for each way the executor
sequences its steps carries that to whole calls. -/
namespace CodeCalc.Executor
open Lib Lib.Effect

/-- The call returns a dictionary, each process of `_run_step` is reaped or
killed, and a directory that the call made is removed unless another stands in
its place. -/
structure Clean (host : Host) (request : Request) : Prop where
  returns : ∃ result, (run (execute host request) {}).1 = .ok result
  reaped : ∀ phase, .step phase ∉ (run (execute host request) {}).2.alive
  removed : (run (execute host request) {}).2.workdir = none ∨
    dirIdentity host.workdirLeft ≠ dirIdentity host.workdirMade

section Conditions

/-- What it raises, if anything, is an `OSError`. -/
def Handled {α : Type} (outcome : Except Raised α) : Prop :=
  ∀ exc, outcome = .error exc → exc.isOs = true

/-- The system's part of `_reset_run_scratch_dir`. -/
def ResetHandled (host : Host) : Prop :=
  match host.leftover with
  | .error exc => if .fileNotFoundError ∈ exc.bases then Handled host.mkdir else exc.isOs = true
  | .ok found => found.stat.directory = true → Handled (scanEntries found.entries) ∧
      (scanEntries found.entries = .ok () →
        rmtreeChecked (dirIdentity found.scanned) found.removing found.removable = true →
        Handled host.mkdir)

def WriteHandled (host : Host) (file : ScratchFile) (content : Text) : Prop :=
  Handled (host.openFile file) ∧
    (host.openFile file = .ok () → Encodable content ∧ Handled (host.writeFile file))

/-- `Popen` of a step: the ceilings are taken, and what else goes wrong is an
`OSError`. -/
def SpawnHandled (host : Host) (request : Request) (phase : Phase) (timeout : ℚ) : Prop :=
  let child := host.child phase
  if host.windows then Handled child.fork ∧ (child.fork = .ok () → Handled child.exec)
  else Handled child.nprocLimit ∧ ∀ nproc, child.nprocLimit = .ok nproc →
    Handled child.fork ∧ (child.fork = .ok () →
      applyLimits host.setrlimit (limits timeout request.maxMemoryMb request.maxCpu nproc) = .ok () ∧
        Handled child.exec)

/-- Nothing but an `OSError` before there is a process, and nothing at all after. -/
def StepHandled (host : Host) (request : Request) (phase : Phase) (timeout : ℚ) (stdin : Text) :
    Prop :=
  SpawnHandled host request phase timeout ∧
    (popen host request phase timeout = .ok () →
      Encodable stdin ∧ ∀ start ∈ (host.child phase).threadStarts, start = .ok ())

def RunHandled (host : Host) (request : Request) (plan : Plan) (scratch : Scratch)
    (deadline : ℚ) : Prop :=
  ∀ budget, remainingRunBudget deadline (host.clock .budget) = some budget →
    (host.which (plan.run.program scratch)).isSome →
    StepHandled host request .run budget request.stdin

def CompileHandled (host : Host) (request : Request) (plan : Plan) (scratch : Scratch)
    (deadline : ℚ) : Prop :=
  match plan.compile with
  | none => RunHandled host request plan scratch deadline
  | some command => (host.which (command.program scratch)).isSome →
      StepHandled host request .compile request.timeout [] ∧
        (popen host request .compile request.timeout = .ok () →
          (host.child .compile).exit = some 0 → RunHandled host request plan scratch deadline)

/-- The body of the `try` of `_execute_python`. -/
def PlanHandled (host : Host) (request : Request) (plan : Plan) (workdir : Text) (deadline : ℚ) :
    Prop :=
  FsEncodable host.windows workdir ∧ ResetHandled host ∧
    ∀ runDir, resetRunScratchDir host workdir = .ok runDir →
      WriteHandled host .source request.code ∧
        (writeScratchNofollow host .source request.code = .ok () →
          WriteHandled host .shim nodeSiblingShimJs ∧
            (writeScratchNofollow host .shim nodeSiblingShimJs = .ok () →
              CompileHandled host request plan (scratchIn host plan runDir) deadline))

/-- The directory a call works in. -/
def workdirInUse (host : Host) (request : Request) : Option Text :=
  match callerWorkdir request with
  | some workdir => some workdir
  | none => host.mkdtemp.toOption.map Subtype.val

/-- The call's own directory is another one by now, or had an identity to check
and can be removed. -/
def WorkdirHandled (host : Host) : Prop :=
  dirIdentity host.workdirLeft ≠ dirIdentity host.workdirMade ∨
    dirIdentity host.workdirMade ≠ none ∧ host.workdirRemovable = true

def FallbackHandled (host : Host) (request : Request) : Prop :=
  ∀ plan, host.plan request.language = some plan → (host.windows && plan.shellWrapped) = false →
    Floatable request.timeout ∧ (callerWorkdir request = none → WorkdirHandled host) ∧
      ∃ workdir, workdirInUse host request = some workdir ∧
        PlanHandled host request plan workdir (host.clock .started + request.timeout)

/-- A file that was written for the native executor can be removed. -/
def NativeHandled (host : Host) (request : Request) : Prop :=
  request.stdin ≠ [] → Encodable request.stdin → host.stdinFile.isOk = true →
    host.stdinUnlink = .ok ()

/-- On the backend in use, every step that goes wrong is one that a handler is
there for. -/
def HandledCall (host : Host) (request : Request) : Prop :=
  if host.rust.isSome then NativeHandled host request else FallbackHandled host request

end Conditions

section Settling

variable {α : Type}

/-- It returns, and holds what it held before. -/
def Settles (action : Action Reply) (held : Held) : Prop :=
  ∃ reply, run action held = (.ok reply, held)

@[simp] theorem settles_pure (reply : Reply) (held : Held) : Settles (pure reply) held :=
  ⟨reply, rfl⟩

theorem settles_orReply_of_ok {body : Action α} {held : Held} {value : α}
    (returned : run body held = (.ok value, held)) (reply : Raised → Reply)
    (next : α → Action Reply) :
    Settles (orReply body reply next) held ↔ Settles (next value) held := by
  unfold Settles orReply
  rw [run_attempt_bind, returned]

theorem settles_orReply_of_error {body : Action α} {held after : Held} {exc : Raised}
    (raised : run body held = (.error exc, after)) (reply : Raised → Reply)
    (next : α → Action Reply) :
    Settles (orReply body reply next) held ↔ exc.isOs = true ∧ after = held := by
  unfold Settles orReply
  rw [run_attempt_bind, raised]
  by_cases caught : exc.isOs = true
  · simp [caught]
  · simp [caught]

theorem settles_orReply_ofExcept (outcome : Except Raised α) (reply : Raised → Reply)
    (next : α → Action Reply) (held : Held) :
    Settles (orReply (ofExcept outcome) reply next) held ↔
      Handled outcome ∧ ∀ value, outcome = .ok value → Settles (next value) held := by
  cases outcome with
  | ok value =>
    rw [settles_orReply_of_ok (run_ofExcept _ held)]
    simp [Handled]
  | error exc =>
    rw [settles_orReply_of_error (run_ofExcept _ held)]
    simp [Handled]

end Settling

section Handling

variable {α β : Type}

@[simp] theorem handled_ok (value : α) : Handled (.ok value : Except Raised α) := by
  intro exc h
  cases h

@[simp] theorem handled_pure (value : α) : Handled (pure value : Except Raised α) := handled_ok value

@[simp] theorem handled_error (exc : Raised) :
    Handled (.error exc : Except Raised α) ↔ exc.isOs = true := by
  simp [Handled]

theorem handled_bind (outcome : Except Raised α) (next : α → Except Raised β) :
    Handled (outcome >>= next) ↔
      Handled outcome ∧ ∀ value, outcome = .ok value → Handled (next value) := by
  cases outcome with
  | ok value => simp [bind, Except.bind]
  | error exc => simp [bind, Except.bind]

theorem handled_then (outcome : Except Raised Unit) (next : Except Raised β) :
    Handled (outcome >>= fun _ => next) ↔
      Handled outcome ∧ (outcome = .ok () → Handled next) := by
  rw [handled_bind]
  apply and_congr_right
  intro _
  exact ⟨fun h => h (), fun h _ => h⟩

@[simp] theorem handled_map (change : α → β) (outcome : Except Raised α) :
    Handled (change <$> outcome) ↔ Handled outcome := by
  cases outcome with
  | ok value => simp [Functor.map, Except.map]
  | error exc => simp [Functor.map, Except.map]

@[simp] theorem handled_encode (text : Text) : Handled (encode text) ↔ Encodable text := by
  unfold encode
  split
  · simp [*]
  · simp [*, unicodeEncodeError, Raised.isOs]

theorem encode_eq_ok {text : Text} : encode text = .ok () ↔ Encodable text := by
  unfold encode
  split <;> simp [*]

theorem handled_fsEncode (windows : Bool) (path : Text) :
    Handled (fsEncode windows path) ↔ FsEncodable windows path := by
  unfold fsEncode
  split
  · simp [*]
  · split
    · simp [*, valueError, Raised.isOs]
    · simp [*, unicodeEncodeError, Raised.isOs]

theorem fsEncode_eq_ok {windows : Bool} {path : Text} (encodable : FsEncodable windows path) :
    fsEncode windows path = .ok () := if_pos encodable

/-- A ceiling that is not taken surfaces as a `SubprocessError`. -/
theorem handled_applyLimits (setrlimit : Resource → Int → Except Raised Unit)
    (ceilings : List (Resource × Int)) :
    Handled (applyLimits setrlimit ceilings) ↔ applyLimits setrlimit ceilings = .ok () := by
  induction ceilings with
  | nil => simp [applyLimits]
  | cons ceiling rest ih =>
    unfold applyLimits
    split
    · exact ih
    · split
      · simp
      · simp [subprocessError, Raised.isOs]

theorem startThreads_eq_ok (starts : List (Except Raised Unit)) :
    startThreads starts = .ok () ↔ ∀ start ∈ starts, start = .ok () := by
  induction starts with
  | nil => simp [startThreads]
  | cons start rest ih =>
    cases start with
    | ok _ => simpa [startThreads, bind, Except.bind] using ih
    | error exc => simp [startThreads, bind, Except.bind]

theorem handled_resetRunScratchDir (host : Host) (workdir : Text) :
    Handled (resetRunScratchDir host workdir) ↔
      FsEncodable host.windows workdir ∧ ResetHandled host := by
  unfold resetRunScratchDir ResetHandled
  rw [handled_bind, handled_fsEncode]
  apply and_congr_right
  intro encodable
  rw [fsEncode_eq_ok encodable]
  cases host.leftover with
  | error exc =>
    by_cases missing : ExcClass.fileNotFoundError ∈ exc.bases
    · simp [missing]
    · simp [missing]
  | ok found =>
    cases plain : found.stat.directory with
    | false => simp [osError, Raised.isOs, plain]
    | true =>
      cases removed : rmtreeChecked (dirIdentity found.scanned) found.removing found.removable with
      | false => simp [osError, Raised.isOs, plain, removed, handled_then]
      | true => simp [plain, removed, handled_then]

theorem handled_writeScratchNofollow (host : Host) (file : ScratchFile) (content : Text) :
    Handled (writeScratchNofollow host file content) ↔ WriteHandled host file content := by
  unfold writeScratchNofollow WriteHandled
  simp only [handled_then, handled_encode, encode_eq_ok]
  grind

theorem handled_popen (host : Host) (request : Request) (phase : Phase) (timeout : ℚ) :
    Handled (popen host request phase timeout) ↔ SpawnHandled host request phase timeout := by
  unfold popen SpawnHandled
  split
  · exact handled_then _ _
  · simp only [handled_bind, handled_applyLimits]
    grind

end Handling

section Fallback

variable {host : Host} {request : Request} {plan : Plan} {held : Held}

theorem reap_spawn (process : Process) (held : Held) :
    Held.reap process (Held.spawn process held) = held := by
  simp [Held.reap, Held.spawn]

theorem spawn_ne (process : Process) (held : Held) : Held.spawn process held ≠ held := by
  intro same
  have longer := congrArg (fun held => held.alive.length) same
  simp [Held.spawn] at longer

/-- A step, in one equation: what is raised after `Popen` leaves the process. -/
theorem run_runStep (host : Host) (request : Request) (phase : Phase) (timeout : ℚ) (stdin : Text) (held : Held) :
    run (runStep host request phase timeout stdin) held =
      match popen host request phase timeout with
      | .error exc => (.error exc, held)
      | .ok _ =>
        match encode stdin >>= fun _ => startThreads (host.child phase).threadStarts with
        | .error exc => (.error exc, held.spawn (.step phase))
        | .ok _ => (.ok (stepResult (host.child phase)), held) := by
  unfold runStep
  cases popen host request phase timeout with
  | error exc => rfl
  | ok _ =>
    cases encode stdin with
    | error exc => rfl
    | ok _ =>
      cases startThreads (host.child phase).threadStarts with
      | error exc => rfl
      | ok _ => exact congrArg (Prod.mk _) (reap_spawn _ held)

/-- Once the process is there, all that follows has to work: an `OSError` of a
thread is answered by a dictionary, with the process still running. -/
theorem settles_runStep {phase : Phase} {timeout : ℚ} {stdin : Text} (reply : Raised → Reply)
    (next : StepResult → Action Reply) :
    Settles (orReply (runStep host request phase timeout stdin) reply next) held ↔
      StepHandled host request phase timeout stdin ∧
        (popen host request phase timeout = .ok () →
          Settles (next (stepResult (host.child phase))) held) := by
  unfold StepHandled
  rw [← handled_popen, ← startThreads_eq_ok, ← encode_eq_ok]
  have stepped := run_runStep host request phase timeout stdin held
  cases spawned : popen host request phase timeout with
  | error exc =>
    rw [spawned] at stepped
    rw [settles_orReply_of_error stepped]
    simp
  | ok _ =>
    rw [spawned] at stepped
    cases fed : encode stdin with
    | error exc =>
      rw [fed] at stepped
      rw [settles_orReply_of_error stepped]
      simp [spawn_ne]
    | ok _ =>
      cases started : startThreads (host.child phase).threadStarts with
      | error exc =>
        rw [fed, started] at stepped
        rw [settles_orReply_of_error stepped]
        simp [spawn_ne]
      | ok _ =>
        rw [fed, started] at stepped
        rw [settles_orReply_of_ok stepped]
        simp

theorem settles_runPhase {workdir : Text} {scratch : Scratch} {deadline : ℚ} {compileMs : Int} :
    Settles (runPhase host request plan workdir scratch deadline compileMs) held ↔
      RunHandled host request plan scratch deadline := by
  unfold runPhase RunHandled
  cases remainingRunBudget deadline (host.clock .budget) with
  | none => simp
  | some budget =>
    cases host.which (plan.run.program scratch) with
    | none => simp
    | some resolved => simp [settles_runStep]

theorem stepResult_succeeds (child : Child) :
    ((stepResult child).timedOut || decide ((stepResult child).exitCode ≠ 0)) = false ↔
      child.exit = some 0 := by
  unfold stepResult
  cases child.exit with
  | none => simp
  | some exitCode => simp

theorem settles_compilePhase {workdir : Text} {scratch : Scratch} {deadline : ℚ} :
    Settles (compilePhase host request plan workdir scratch deadline) held ↔
      CompileHandled host request plan scratch deadline := by
  unfold compilePhase CompileHandled
  cases plan.compile with
  | none => exact settles_runPhase
  | some command =>
    cases found : host.which (command.program scratch) with
    | none => simp [found]
    | some resolved =>
      simp only [found, settles_runStep, Option.isSome_some, true_implies]
      apply and_congr_right
      intro _
      apply imp_congr_right
      intro _
      rw [← stepResult_succeeds]
      split
      · next failed =>
        rw [failed]
        simp
      · next succeeded =>
        rw [settles_runPhase, Bool.eq_false_iff.mpr succeeded]
        simp

theorem settles_runPlan {workdir : Text} {deadline : ℚ} :
    Settles (runPlan host request plan workdir deadline) held ↔
      PlanHandled host request plan workdir deadline := by
  unfold runPlan PlanHandled
  simp only [settles_orReply_ofExcept, handled_resetRunScratchDir, handled_writeScratchNofollow,
    settles_compilePhase]
  grind

/-- The processes of steps may be left behind; nothing else changes. -/
def Grown (held after : Held) : Prop :=
  ∃ started : List Phase, after = { held with alive := started.map Process.step ++ held.alive }

theorem grown_refl (held : Held) : Grown held held := ⟨[], rfl⟩

instance : IsTrans Held Grown where
  trans _ _ _ := by
    rintro ⟨first, rfl⟩ ⟨second, rfl⟩
    exact ⟨second ++ first, by simp⟩

theorem grown_ofExcept {α : Type} (outcome : Except Raised α) (held : Held) :
    Grown held (run (ofExcept outcome : Action α) held).2 := by
  rw [run_ofExcept]
  exact grown_refl held

theorem grown_orReply {α : Type} {body : Action α} {reply : Raised → Reply}
    {next : α → Action Reply} (first : Grown held (run body held).2)
    (second : ∀ value after, Grown after (run (next value) after).2) :
    Grown held (run (orReply body reply next) held).2 := by
  unfold orReply
  apply bind_follows
  · exact first
  · intro outcome after _
    cases outcome with
    | ok value => exact second value after
    | error exc =>
      by_cases caught : exc.isOs = true
      · simpa [caught] using grown_refl after
      · simpa [caught] using grown_refl after

theorem grown_runStep (phase : Phase) (timeout : ℚ) (stdin : Text) :
    Grown held (run (runStep host request phase timeout stdin) held).2 := by
  rw [run_runStep]
  cases popen host request phase timeout with
  | error exc => exact grown_refl held
  | ok _ =>
    cases encode stdin >>= fun _ => startThreads (host.child phase).threadStarts with
    | error exc => exact ⟨[phase], rfl⟩
    | ok _ => exact grown_refl held

theorem grown_runPhase (workdir : Text) (scratch : Scratch) (deadline : ℚ) (compileMs : Int) :
    Grown held (run (runPhase host request plan workdir scratch deadline compileMs) held).2 := by
  unfold runPhase
  split
  · exact grown_refl held
  · split
    · exact grown_refl held
    · apply grown_orReply
      · exact grown_runStep _ _ _
      · intro step after
        exact grown_refl after

theorem grown_compilePhase (workdir : Text) (scratch : Scratch) (deadline : ℚ) :
    Grown held (run (compilePhase host request plan workdir scratch deadline) held).2 := by
  unfold compilePhase
  split
  · exact grown_runPhase _ _ _ _
  · split
    · exact grown_refl held
    · apply grown_orReply
      · exact grown_runStep _ _ _
      · intro step after
        split
        · exact grown_refl after
        · exact grown_runPhase _ _ _ _

theorem grown_runPlan (host : Host) (request : Request) (plan : Plan) (held : Held) (workdir : Text) (deadline : ℚ) :
    Grown held (run (runPlan host request plan workdir deadline) held).2 := by
  unfold runPlan
  apply grown_orReply
  · exact grown_ofExcept _ held
  · intro runDir after
    apply grown_orReply
    · exact grown_ofExcept _ after
    · intro _ after
      apply grown_orReply
      · exact grown_ofExcept _ after
      · intro _ after
        exact grown_compilePhase _ _ _

theorem settles_of_reaped {action : Action Reply} (grown : Grown held (run action held).2)
    (returned : ∃ reply, (run action held).1 = .ok reply)
    (reaped : ∀ phase, .step phase ∉ (run action held).2.alive) : Settles action held := by
  obtain ⟨started, hafter⟩ := grown
  obtain ⟨reply, houtcome⟩ := returned
  cases started with
  | nil => exact ⟨reply, Prod.ext houtcome hafter⟩
  | cons phase rest =>
    have leaked := reaped phase
    rw [hafter] at leaked
    simp at leaked

/-- The `finally` never raises, and touches the call's own directory only. -/
theorem run_dropWorkdir (host : Host) (request : Request) (held : Held) :
    run (dropWorkdir host request) held = (.ok (), { held with
      workdir := if callerWorkdir request = none ∧ rmtreeChecked (dirIdentity host.workdirMade)
        host.workdirLeft host.workdirRemovable = true then none else held.workdir }) := by
  unfold dropWorkdir
  cases callerWorkdir request with
  | some workdir => simp
  | none =>
    by_cases removed : rmtreeChecked (dirIdentity host.workdirMade) host.workdirLeft
        host.workdirRemovable = true
    · simp [removed]
    · simp [removed]

theorem run_takeWorkdir {workdir : Text} (inUse : workdirInUse host request = some workdir) :
    run (takeWorkdir host request) {} =
      (.ok workdir, { workdir := if callerWorkdir request = none then some workdir else none }) := by
  unfold takeWorkdir
  unfold workdirInUse at inUse
  cases given : callerWorkdir request with
  | some supplied =>
    rw [given] at inUse
    cases inUse
    rfl
  | none =>
    rw [given] at inUse
    cases made : host.mkdtemp with
    | error exc => simp [made, Except.toOption] at inUse
    | ok path =>
      rw [made] at inUse
      cases inUse
      rfl

theorem run_takeWorkdir_error (unusable : workdirInUse host request = none) :
    ∃ exc, run (takeWorkdir host request) {} = (.error exc, {}) := by
  unfold takeWorkdir
  unfold workdirInUse at unusable
  cases given : callerWorkdir request with
  | some supplied => simp [given] at unusable
  | none =>
    rw [given] at unusable
    cases made : host.mkdtemp with
    | error exc => exact ⟨exc, rfl⟩
    | ok path => simp [made, Except.toOption] at unusable

theorem deadline_of_floatable (floatable : Floatable request.timeout) :
    deadline host request.timeout = .ok (host.clock .started + request.timeout) :=
  if_pos floatable

theorem rmtreeChecked_iff (created : Option (Nat × Nat)) (now : Except Raised Stat)
    (removable : Bool) : rmtreeChecked created now removable = true ↔
      created ≠ none ∧ dirIdentity now = created ∧ removable = true := by
  unfold rmtreeChecked
  split
  · simp [*]
  · split
    · simp [*]
    · simp_all

end Fallback

section Calls

variable {host : Host} {request : Request}

/-- What the claim says, without the version that `execute` adds. -/
def CleanExit (host : Host) (action : Action Reply) : Prop :=
  (∃ reply, (run action {}).1 = .ok reply) ∧ (∀ phase, .step phase ∉ (run action {}).2.alive) ∧
    ((run action {}).2.workdir = none ∨
      dirIdentity host.workdirLeft ≠ dirIdentity host.workdirMade)

theorem clean_iff_cleanExit :
    Clean host request ↔ CleanExit host (executeUncontracted host request) := by
  have outcome : (∃ result, (run (execute host request) {}).1 = .ok result) ↔
      ∃ reply, (run (executeUncontracted host request) {}).1 = .ok reply := by
    unfold execute
    rw [run_map]
    cases (run (executeUncontracted host request) {}).1 with
    | error exc => simp [Except.map]
    | ok reply => simp [Except.map]
  have after : (run (execute host request) {}).2 = (run (executeUncontracted host request) {}).2 := by
    unfold execute
    rw [run_map]
  unfold CleanExit
  rw [← outcome, ← after]
  exact ⟨fun h => ⟨h.returns, h.reaped, h.removed⟩, fun h => ⟨h.1, h.2.1, h.2.2⟩⟩

theorem not_cleanExit_of_error {action : Action Reply} {exc : Raised} {after : Held}
    (raised : run action {} = (.error exc, after)) : ¬ CleanExit host action := by
  intro clean
  obtain ⟨reply, returned⟩ := clean.1
  rw [raised] at returned
  cases returned

/-- What a call holds once it has its directory. -/
def withWorkdir (request : Request) (workdir : Text) : Held :=
  { workdir := if callerWorkdir request = none then some workdir else none }

theorem removed_iff (host : Host) (request : Request) (workdir : Text) :
    (if callerWorkdir request = none ∧ rmtreeChecked (dirIdentity host.workdirMade)
        host.workdirLeft host.workdirRemovable = true then none
      else (withWorkdir request workdir).workdir) = none ∨
        dirIdentity host.workdirLeft ≠ dirIdentity host.workdirMade ↔
      (callerWorkdir request = none → WorkdirHandled host) := by
  unfold WorkdirHandled withWorkdir
  simp only [rmtreeChecked_iff]
  by_cases own : callerWorkdir request = none
  · by_cases same : dirIdentity host.workdirLeft = dirIdentity host.workdirMade
    · simp [own, same]
    · simp [own, same]
  · simp [own]

/-- With a directory and a deadline the body decides; the directory goes last. -/
theorem cleanExit_ensuring_iff {body action : Action Reply} {workdir : Text}
    (grown : Grown (withWorkdir request workdir) (run body (withWorkdir request workdir)).2)
    (ends : run action {} =
      run (ensuring body (dropWorkdir host request)) (withWorkdir request workdir)) :
    CleanExit host action ↔ (callerWorkdir request = none → WorkdirHandled host) ∧
      Settles body (withWorkdir request workdir) := by
  have same : (run body (withWorkdir request workdir)).2.workdir =
      (withWorkdir request workdir).workdir := by
    obtain ⟨started, hafter⟩ := grown
    rw [hafter]
  unfold CleanExit
  rw [ends, run_ensuring, run_dropWorkdir, ← removed_iff host request workdir]
  simp only [same]
  constructor
  · rintro ⟨returned, reaped, removed⟩
    exact ⟨removed, settles_of_reaped grown returned reaped⟩
  · rintro ⟨removed, reply, settled⟩
    rw [settled]
    exact ⟨⟨reply, rfl⟩, by simp [withWorkdir], removed⟩

theorem cleanExit_pure (reply : Reply) : CleanExit host (pure reply) :=
  ⟨⟨reply, rfl⟩, by simp, Or.inl rfl⟩

theorem executePython_of_plan {plan : Plan} (known : host.plan request.language = some plan)
    (supported : (host.windows && plan.shellWrapped) = false) :
    executePython host request = (do
      let workdir ← takeWorkdir host request
      let deadline ← ofExcept (deadline host request.timeout)
      ensuring (runPlan host request plan workdir deadline) (dropWorkdir host request)) := by
  unfold executePython
  rw [known]
  dsimp only
  rw [supported]
  rfl

theorem cleanExit_of_plan {plan : Plan} (known : host.plan request.language = some plan)
    (supported : (host.windows && plan.shellWrapped) = false) :
    CleanExit host (executePython host request) ↔
      Floatable request.timeout ∧ (callerWorkdir request = none → WorkdirHandled host) ∧
        ∃ workdir, workdirInUse host request = some workdir ∧
          PlanHandled host request plan workdir (host.clock .started + request.timeout) := by
  have body := executePython_of_plan known supported
  cases inUse : workdirInUse host request with
  | none =>
    obtain ⟨exc, raised⟩ := run_takeWorkdir_error inUse
    have escapes : ¬ CleanExit host (executePython host request) := by
      rw [body]
      exact not_cleanExit_of_error (run_bind_of_error _ raised)
    simp [escapes]
  | some workdir =>
    have made := run_takeWorkdir inUse
    by_cases floatable : Floatable request.timeout
    · have ends : run (executePython host request) {} =
          run (ensuring (runPlan host request plan workdir (host.clock .started + request.timeout))
            (dropWorkdir host request)) (withWorkdir request workdir) := by
        rw [body, run_bind_of_ok _ made, deadline_of_floatable floatable]
        rfl
      rw [cleanExit_ensuring_iff (grown_runPlan _ _ _ _ _ _) ends, settles_runPlan]
      simp [floatable]
    · have raised : run (executePython host request) {} =
          (.error (overflowError "int too large to convert to float"),
            withWorkdir request workdir) := by
        rw [body, run_bind_of_ok _ made, deadline, if_neg floatable]
        rfl
      simp [not_cleanExit_of_error raised, floatable]

theorem cleanExit_executePython_iff :
    CleanExit host (executePython host request) ↔ FallbackHandled host request := by
  unfold FallbackHandled
  cases known : host.plan request.language with
  | none =>
    have refused : CleanExit host (executePython host request) := by
      unfold executePython
      rw [known]
      exact cleanExit_pure _
    simp [refused]
  | some plan =>
    cases supported : host.windows && plan.shellWrapped with
    | true =>
      have refused : CleanExit host (executePython host request) := by
        unfold executePython
        rw [known]
        dsimp only
        rw [supported]
        exact cleanExit_pure _
      grind
    | false =>
      rw [cleanExit_of_plan known supported]
      grind

end Calls

section Native

variable {host : Host} {request : Request}

/-- Nothing of the fallback, and the stdin file stays what it was. -/
structure Bystander (held after : Held) : Prop where
  steps : ∀ phase, .step phase ∈ after.alive → .step phase ∈ held.alive
  workdir : after.workdir = held.workdir
  stdinPath : after.stdinPath = held.stdinPath

instance : IsTrans Held Bystander where
  trans _ _ _ first second :=
    ⟨fun phase member => first.steps phase (second.steps phase member),
      second.workdir.trans first.workdir, second.stdinPath.trans first.stdinPath⟩

theorem bystander_refl (held : Held) : Bystander held held := ⟨fun _ => id, rfl, rfl⟩

theorem bystander_spawn (held : Held) : Bystander held (held.spawn .native) :=
  ⟨fun phase member => by simpa [Held.spawn] using member, rfl, rfl⟩

theorem bystander_reap (held : Held) : Bystander held (held.reap .native) :=
  ⟨fun _ member => List.mem_of_mem_erase member, rfl, rfl⟩

theorem bystander_ofExcept {α : Type} (outcome : Except Raised α) (held : Held) :
    Bystander held (run (ofExcept outcome : Action α) held).2 := by
  rw [run_ofExcept]
  exact bystander_refl held

theorem bystander_communicate (held : Held) :
    Bystander held (run (communicate host request) held).2 := by
  unfold communicate
  apply bind_follows (bystander_ofExcept _ held)
  intro _ held _
  apply bind_follows (bystander_ofExcept _ held)
  intro _ held _
  split
  · exact bystander_refl held
  · apply bind_follows (bystander_reap held)
    intro _ held _
    apply bind_follows (bystander_ofExcept _ held)
    intro _ held _
    exact bystander_refl held
  · apply bind_follows (bystander_reap held)
    intro _ held _
    exact bystander_ofExcept _ held

/-- The stdin file was written: `stdin_path` is set. -/
def StdinWritten (host : Host) (request : Request) : Prop :=
  request.stdin ≠ [] ∧ Encodable request.stdin ∧ host.stdinFile.isOk = true

theorem run_writeStdinFile (host : Host) (request : Request) :
    (run (writeStdinFile host request.stdin) {}).2.alive = [] ∧
      (run (writeStdinFile host request.stdin) {}).2.workdir = none ∧
      ((run (writeStdinFile host request.stdin) {}).2.stdinPath ≠ none ↔
        StdinWritten host request) := by
  unfold writeStdinFile StdinWritten
  cases request.stdin with
  | nil => simp
  | cons first rest =>
    cases host.stdinFile with
    | error exc => simp [run_bind, Except.isOk, Except.toBool]
    | ok name =>
      by_cases encodable : Encodable (first :: rest)
      · cases flushed : host.stdinFlush with
        | error exc =>
          simp [run_bind, encode_eq_ok.mpr encodable, encodable, Except.isOk, Except.toBool]
        | ok _ =>
          simp [run_bind, encode_eq_ok.mpr encodable, encodable, Except.isOk, Except.toBool]
      · have raised : encode (first :: rest) = .error unicodeEncodeError := if_neg encodable
        simp [run_bind, raised, encodable]

theorem bystander_nativeBody (host : Host) (request : Request) (rust : Text) :
    Bystander (run (writeStdinFile host request.stdin) {}).2
      (run (nativeBody host request rust) {}).2 := by
  unfold nativeBody
  apply bind_follows (bystander_refl _)
  intro stdinArgs held _
  apply bind_follows (bystander_ofExcept _ held)
  intro args held _
  apply bind_follows (bystander_ofExcept _ held)
  intro _ held _
  apply bind_follows (bystander_ofExcept _ held)
  intro _ held _
  apply bind_follows (bystander_spawn held)
  intro _ held _
  exact bystander_communicate held

theorem run_orFailure (body : Action Reply) (held : Held) :
    ∃ reply, run (orFailure body) held = (.ok reply, (run body held).2) := by
  unfold orFailure
  rw [run_attempt_bind]
  cases (run body held).1 with
  | ok reply => exact ⟨reply, rfl⟩
  | error exc => exact ⟨_, rfl⟩

theorem run_unlinkStdin (held : Held) : run (unlinkStdin host) held =
    (if held.stdinPath = none then .ok () else host.stdinUnlink, held) := by
  unfold unlinkStdin
  rw [run_get_bind]
  cases held.stdinPath with
  | none => rfl
  | some name => rfl

/-- A call on the native executor: whatever goes wrong is answered, and only the
removal of the stdin file can still raise. -/
theorem cleanExit_native_iff (rust : Text) :
    CleanExit host (ensuring (orFailure (nativeBody host request rust)) (unlinkStdin host)) ↔
      NativeHandled host request := by
  obtain ⟨alive, workdir, written⟩ := run_writeStdinFile host request
  have bystander := bystander_nativeBody host request rust
  obtain ⟨reply, answered⟩ := run_orFailure (nativeBody host request rust) {}
  generalize hafter : (run (nativeBody host request rust) {}).2 = after at bystander answered
  have reaped (phase : Phase) : .step phase ∉ after.alive := by
    intro member
    have earlier := bystander.steps phase member
    simp [alive] at earlier
  have removed : after.workdir = none := bystander.workdir.trans workdir
  rw [← bystander.stdinPath] at written
  have handled : NativeHandled host request ↔
      (StdinWritten host request → host.stdinUnlink = .ok ()) := by
    unfold NativeHandled StdinWritten
    grind
  rw [handled, ← written]
  unfold CleanExit
  rw [run_ensuring, answered, run_unlinkStdin]
  by_cases none_written : after.stdinPath = none
  · simp [none_written, reaped, removed]
  · cases unlinked : host.stdinUnlink with
    | ok _ => simp [none_written, reaped, removed]
    | error exc => simp [none_written]

end Native

theorem execute_clean_iff (host : Host) (request : Request) :
    Clean host request ↔ HandledCall host request := by
  rw [clean_iff_cleanExit]
  unfold executeUncontracted HandledCall
  cases host.rust with
  | none => exact cleanExit_executePython_iff
  | some rust => exact cleanExit_native_iff rust

section SurrogateStdin

theorem encodable_ofString (literal : String) : Encodable (Text.ofString literal) :=
  fun code member => Utf8.scalar_ofString code member

/-- The registry's entry for Python. -/
def pythonPlan : Plan where
  name := Text.ofString "python3"
  ext := Text.ofString "py"
  run := ⟨fun _ => Text.ofString "python3", fun scratch => [scratch.file]⟩

def ownDirectory : Stat := ⟨true, false, 1, 7⟩

/-- A POSIX machine on which everything works, without the native executor. -/
def plainHost : Host where
  plan language := if language = Text.ofString "python3" then some pythonPlan else none
  mkdtemp := .ok ⟨Text.ofString "/tmp/codecalc-0", by decide⟩
  workdirMade := .ok ownDirectory
  workdirLeft := .ok ownDirectory
  leftover := .error ⟨"FileNotFoundError", [.fileNotFoundError, .osError], []⟩
  child _ := { exit := some 0 }

/-- A program that is fed one lone surrogate. -/
def surrogateRequest : Request where
  language := Text.ofString "python3"
  code := Text.ofString "pass"
  stdin := [⟨0xD800, by decide⟩]

/-- `stdin.encode()` raises after `Popen`: the exception escapes and the child
is left behind. -/
theorem execute_surrogate_stdin : ¬ Clean plainHost surrogateRequest := by
  rw [clean_iff_cleanExit]
  intro clean
  have handled : FallbackHandled plainHost surrogateRequest := cleanExit_executePython_iff.mp clean
  obtain ⟨_, _, workdir, inUse, encodable, _, scratch⟩ := handled pythonPlan rfl rfl
  have written (file : ScratchFile) (literal : String) :
      writeScratchNofollow plainHost file (Text.ofString literal) = .ok () := by
    unfold writeScratchNofollow
    rw [encode_eq_ok.mpr (encodable_ofString literal)]
    rfl
  have reset : resetRunScratchDir plainHost workdir =
      .ok (joinPath false workdir runScratchDirname) := by
    unfold resetRunScratchDir
    rw [fsEncode_eq_ok encodable]
    rfl
  have budget : remainingRunBudget (plainHost.clock .started + surrogateRequest.timeout)
      (plainHost.clock .budget) = some 10 := by
    norm_num [remainingRunBudget, plainHost, surrogateRequest]
  have spawned := ((scratch _ reset).2 (written _ _)).2 (written _ _) 10 budget rfl
  have fed := (spawned.2 rfl).1
  revert fed
  decide

end SurrogateStdin

end CodeCalc.Executor
