import CodeCalc.Supervision.Admission
import CodeCalc.Supervision.Recovery
import CodeCalc.Supervision.Workdir

/-! Two server processes on one state directory.  One holds runs; the other
starts up and recovers what it finds in the journal, one file operation or
provider call at a time.  A record says which run it is of and not whose, so
whether the sweep is harmless depends on when it reads. -/
namespace CodeCalc.Supervision
open Lib Lib.Effect Relation

/-- Where the recovering process stands between two operations. -/
inductive Sweeper where
  | idle
  | between (todo : List String)
  | asking (todo : List String) (file : String) (record : Fields) (provider : Provider)
  | cleaning (todo : List String) (file : String) (record : Fields) (provider : Provider)
  | releasing (todo : List String) (file : String) (record : Fields) (recovered : Bool)
  | rewriting (todo : List String) (file : String) (record : Fields)
  | pruning
  | stopped

/-- The process that holds runs, whose supervisor carries the shared directory,
and the one that sweeps it. -/
structure Shared where
  owner : System
  sweeper : Sweeper
  events : List Event

namespace Shared

/-- The sweeper's view of what both processes see. -/
def view (shared : Shared) : Recovery :=
  ⟨shared.owner.supervisor.stateDir, shared.owner.supervisor.workdirs, shared.events⟩

def commit (shared : Shared) (recovery : Recovery) (sweeper : Sweeper) : Shared where
  owner := { shared.owner with supervisor := { shared.owner.supervisor with
    stateDir := recovery.stateDir
    workdirs := recovery.workdirs } }
  sweeper := sweeper
  events := recovery.events

end Shared

section Sweep

variable (config : Config) (env : RecoveryEnv)

/-- `str(record["run_id"])` of a record known to have one. -/
def recordedRun (record : Fields) : String :=
  match field record "run_id" with
  | .ok value => env.text value
  | .error _ => ""

def afterRead (todo : List String) (file : String) : Option Content → Sweeper
  | none | some .unreadable => .between todo
  | some (.json (.obj record)) =>
      match selectRecorded config env record with
      | .error _ => .stopped
      | .ok none => .releasing todo file record false
      | .ok (some provider) =>
          match field record "run_id" with
          | .ok _ => .asking todo file record provider
          | .error _ => .releasing todo file record false
  | some _ => .stopped

/-- Where a provider call leads: on, to the directory, or out of the loop. -/
def afterCall (answer : Except Exc Unit) (onward : Sweeper) (todo : List String) (file : String)
    (record : Fields) : Sweeper :=
  match answer with
  | .ok _ => onward
  | .error raised =>
      if raised.caughtBy recoveryClasses then .releasing todo file record false else .stopped

/-- The next operation of `recover_orphans`. -/
def sweep (shared : Shared) : Shared :=
  match shared.sweeper with
  | .idle => { shared with sweeper := .between (sortedFiles shared.owner.supervisor.stateDir) }
  | .between [] => { shared with sweeper := .pruning }
  | .between (file :: todo) => { shared with
      sweeper := afterRead config env todo file
        ((shared.owner.supervisor.stateDir.get file).map JournalFile.content) }
  | .asking todo file record provider =>
      let runId := recordedRun env record
      let called := Effect.run (callProvider provider.capabilities.cancel
        (.cancelled file provider.providerId runId) (env.cancel file provider runId)) shared.view
      shared.commit called.2
        (afterCall called.1 (.cleaning todo file record provider) todo file record)
  | .cleaning todo file record provider =>
      let runId := recordedRun env record
      let called := Effect.run (callProvider provider.capabilities.cleanup
        (.cleaned file provider.providerId runId) (env.cleanup file provider runId)) shared.view
      shared.commit called.2
        (afterCall called.1 (.releasing todo file (markRecovered record) true) todo file record)
  | .releasing todo file record recovered =>
      let swept := Effect.run (sweepWorkdir env file record) shared.view
      shared.commit swept.2 (match swept.1 with
        | .ok (record', released) =>
            if recovered || released then .rewriting todo file record' else .between todo
        | .error _ => .stopped)
  | .rewriting todo file record =>
      shared.commit (Effect.run (rewriteRecord env file true record) shared.view).2 (.between todo)
  | .pruning => shared.commit (Effect.run (pruneJournal config) shared.view).2 .stopped
  | .stopped => shared

/-- The loop over the remaining files, and the prune. -/
def finishFiles (todo : List String) : Sweep Unit := do
  let _ ← recoverFiles config env todo
  pruneJournal config

/-- The same from the directory of the current file on. -/
def finishRecord (todo : List String) (file : String) (record : Fields) (recovered : Bool) :
    Sweep Unit := do
  let (swept, released) ← sweepWorkdir env file record
  rewriteRecord env file (recovered || released) swept
  finishFiles config env todo

/-- The same from the end of a provider call on. -/
def finishCall (onward : Sweep Unit) (todo : List String) (file : String) (record : Fields) :
    Except Exc Unit → Sweep Unit
  | .ok _ => onward
  | .error raised =>
      if raised.caughtBy recoveryClasses then finishRecord config env todo file record false
      else raise raised

def finishCleaning (todo : List String) (file : String) (record : Fields) (provider : Provider) :
    Sweep Unit := do
  let called ← attempt (callProvider provider.capabilities.cleanup
    (.cleaned file provider.providerId (recordedRun env record))
    (env.cleanup file provider (recordedRun env record)))
  finishCall config env (finishRecord config env todo file (markRecovered record) true) todo file
    record called

def rest : Sweeper → Sweep Unit
  | .idle => do
      let _ ← recoverOrphans config env
      pure ()
  | .between todo => finishFiles config env todo
  | .asking todo file record provider => do
      let called ← attempt (callProvider provider.capabilities.cancel
        (.cancelled file provider.providerId (recordedRun env record))
        (env.cancel file provider (recordedRun env record)))
      finishCall config env (finishCleaning config env todo file record provider) todo file record
        called
  | .cleaning todo file record provider => finishCleaning config env todo file record provider
  | .releasing todo file record recovered => finishRecord config env todo file record recovered
  | .rewriting todo file record => do
      rewriteRecord env file true record
      finishFiles config env todo
  | .pruning => pruneJournal config
  | .stopped => pure ()

end Sweep

section Refinement

variable {config : Config} {env : RecoveryEnv}

@[simp] theorem Shared.view_commit (shared : Shared) (recovery : Recovery) (sweeper : Sweeper) :
    (shared.commit recovery sweeper).view = recovery := rfl

theorem finishFiles_cons (file : String) (todo : List String) :
    finishFiles config env (file :: todo) = (do
      let _ ← recoverFile config env file
      finishFiles config env todo) := by
  simp [finishFiles, recoverFiles, bind_assoc]

theorem recoverRecord_bind (file : String) (record : Fields) (next : Sweep Unit) :
    (do
      let _ ← recoverRecord config env file record
      next) = (do
      let (asked, runId) ← recoverProvider config env file record
      let (swept, released) ← sweepWorkdir env file asked
      rewriteRecord env file (runId.isSome || released) swept
      next) := by
  simp [recoverRecord, bind_assoc]

/-- A provider call of the loop body leads on where the sweeper goes. -/
theorem run_finishCall (onward : Sweeper) (todo : List String) (file : String)
    (record : Fields) (answer : Except Exc Unit) (recovery : Recovery) :
    (Effect.run (rest config env (afterCall answer onward todo file record)) recovery).2 =
      (Effect.run (finishCall config env (rest config env onward) todo file record answer)
        recovery).2 := by
  cases answer with
  | ok _ => rfl
  | error raised =>
    simp only [finishCall, afterCall]
    split <;> rfl

/-- The provider side of a record, up to the next file, is its two calls. -/
theorem run_asking (todo : List String) (file : String) (record : Fields)
    (provider : Provider) {value : Json} (named : field record "run_id" = .ok value)
    (recovery : Recovery) :
    Effect.run (rest config env (.asking todo file record provider)) recovery =
      Effect.run (do
        let asked ← attempt (askProvider env file provider record)
        match asked with
        | .ok _ => finishRecord config env todo file (markRecovered record) true
        | .error raised =>
            if raised.caughtBy recoveryClasses then finishRecord config env todo file record false
            else raise raised) recovery := by
  have hrun : recordedRun env record = env.text value := by simp [recordedRun, named]
  simp only [rest, finishCleaning, hrun]
  rw [run_attempt_bind, run_attempt_bind]
  unfold askProvider
  simp only [run_bind, run_ofExcept, named, run_callProvider]
  cases (if provider.capabilities.cancel then env.cancel file provider (env.text value)
      else .ok ()) with
  | error raised => rfl
  | ok _ =>
    simp only [finishCall, run_attempt_bind, run_callProvider]
    cases (if provider.capabilities.cleanup then env.cleanup file provider (env.text value)
        else .ok ()) <;> rfl

theorem between_keeps_rest (owner : System) (file : String) (todo : List String)
    (events : List Event) :
    (Effect.run (rest config env (afterRead config env todo file
        ((owner.supervisor.stateDir.get file).map JournalFile.content)))
      ⟨owner.supervisor.stateDir, owner.supervisor.workdirs, events⟩).2 =
    (Effect.run (finishFiles config env (file :: todo))
      ⟨owner.supervisor.stateDir, owner.supervisor.workdirs, events⟩).2 := by
  set recovery : Recovery := ⟨owner.supervisor.stateDir, owner.supervisor.workdirs, events⟩
  have hread (content : Option Content)
      (found : (recovery.stateDir.get file).map JournalFile.content = content) :
      Effect.run (finishFiles config env (file :: todo)) recovery =
        Effect.run (do
          let _ ← recoverContent config env file content
          finishFiles config env todo) recovery := by
    rw [finishFiles_cons, recoverFile, bind_assoc, run_get_bind, found]
  rcases hcontent : (owner.supervisor.stateDir.get file).map JournalFile.content with _ | content
  · rw [hread none hcontent]
    rfl
  · match content with
    | .unreadable =>
      rw [hread _ hcontent]
      rfl
    | .json (.obj record) =>
      rw [hread _ hcontent, recoverContent, recoverRecord_bind, recoverProvider, bind_assoc, run_bind,
        run_ofExcept, afterRead]
      cases hselected : selectRecorded config env record with
      | error raised => rfl
      | ok selected =>
        cases selected with
        | none => rfl
        | some provider =>
          cases hnamed : field record "run_id" with
          | ok value =>
            simp only
            rw [run_asking todo file record provider hnamed, bind_assoc, run_attempt_bind,
              run_attempt_bind]
            cases (Effect.run (askProvider env file provider record) recovery).1 with
            | ok runId => rfl
            | error raised =>
              simp only
              split <;> rfl
          | error raised =>
            have hcaught := field_caught hnamed
            have hask : Effect.run (askProvider env file provider record) recovery =
                (.error raised, recovery) := by
              rw [askProvider, run_bind, run_ofExcept, hnamed]
            simp only
            rw [bind_assoc, run_attempt_bind, hask]
            simp only [hcaught, if_true]
            rfl
    | .tooDeep | .json .null | .json (.bool _) | .json (.int _) | .json (.float _)
    | .json (.nonfinite _) | .json (.str _) | .json (.arr _) =>
      rw [hread _ hcontent]
      rfl

/-- One operation of the sweeper leaves as much to do as there was before. -/
theorem sweep_keeps_rest (shared : Shared) :
    (Effect.run (rest config env (sweep config env shared).sweeper)
        (sweep config env shared).view).2 =
      (Effect.run (rest config env shared.sweeper) shared.view).2 := by
  obtain ⟨owner, sweeper, events⟩ := shared
  cases sweeper with
  | idle =>
    simp only [sweep, rest, recoverOrphans]
    rw [bind_assoc, run_get_bind]
    simp only [finishFiles, bind_assoc, pure_bind, bind_pure_unit]
    rfl
  | between todo =>
    cases todo with
    | nil => rfl
    | cons file todo => exact between_keeps_rest owner file todo events
  | asking todo file record provider =>
    simp only [sweep, Shared.commit]
    rw [run_finishCall]
    rfl
  | cleaning todo file record provider =>
    simp only [sweep, Shared.commit]
    rw [run_finishCall]
    rfl
  | releasing todo file record recovered =>
    simp only [sweep, rest, finishRecord, Shared.view_commit]
    rcases hswept : Effect.run (sweepWorkdir env file record)
      (Shared.view ⟨owner, .releasing todo file record recovered, events⟩) with ⟨outcome, after⟩
    rw [run_bind, hswept]
    cases outcome with
    | error raised => rfl
    | ok swept =>
      simp only [Shared.commit]
      cases recovered || swept.2 <;> rfl
  | rewriting todo file record => rfl
  | pruning => rfl
  | stopped => rfl

theorem sweeps_keep_rest (count : Nat) (shared : Shared) :
    (Effect.run (rest config env ((sweep config env)^[count] shared).sweeper)
        ((sweep config env)^[count] shared).view).2 =
      (Effect.run (rest config env shared.sweeper) shared.view).2 := by
  induction count generalizing shared with
  | zero => rfl
  | succ count ih =>
    rw [Function.iterate_succ_apply, ih, sweep_keeps_rest]

/-- How many operations are left at most, once the files are listed. -/
def Sweeper.rank : Sweeper → Nat
  | .idle => 0
  | .between todo => 5 * todo.length + 2
  | .asking todo _ _ _ => 5 * todo.length + 6
  | .cleaning todo _ _ _ => 5 * todo.length + 5
  | .releasing todo _ _ _ => 5 * todo.length + 4
  | .rewriting todo _ _ => 5 * todo.length + 3
  | .pruning => 1
  | .stopped => 0

theorem rank_afterRead (todo : List String) (file : String) (content : Option Content) :
    (afterRead config env todo file content).rank ≤ 5 * todo.length + 6 ∧
      afterRead config env todo file content ≠ .idle := by
  unfold afterRead
  repeat' split
  all_goals simp [Sweeper.rank]

theorem rank_afterCall (answer : Except Exc Unit) (onward : Sweeper) (todo : List String)
    (file : String) (record : Fields) :
    (afterCall answer onward todo file record).rank ≤ max onward.rank (5 * todo.length + 4) ∧
      (onward ≠ .idle → afterCall answer onward todo file record ≠ .idle) := by
  unfold afterCall
  repeat' split
  all_goals simp [Sweeper.rank]

theorem sweep_rank (shared : Shared) (started : shared.sweeper ≠ .idle)
    (going : shared.sweeper ≠ .stopped) :
    (sweep config env shared).sweeper.rank < shared.sweeper.rank ∧
      (sweep config env shared).sweeper ≠ .idle := by
  obtain ⟨owner, sweeper, events⟩ := shared
  cases sweeper with
  | idle => exact absurd rfl started
  | stopped => exact absurd rfl going
  | between todo =>
    cases todo with
    | nil => simp [sweep, Sweeper.rank]
    | cons file todo =>
      have hread := @rank_afterRead config env todo file
        ((owner.supervisor.stateDir.get file).map JournalFile.content)
      refine ⟨?_, hread.2⟩
      have hlength : Sweeper.rank (.between (file :: todo)) = 5 * todo.length + 7 := by
        simp only [Sweeper.rank, List.length_cons]
        omega
      simp only [sweep, hlength]
      omega
  | asking todo file record provider =>
    have hcall := rank_afterCall (Effect.run (callProvider provider.capabilities.cancel
      (.cancelled file provider.providerId (recordedRun env record))
      (env.cancel file provider (recordedRun env record)))
      (Shared.view ⟨owner, .asking todo file record provider, events⟩)).1
      (.cleaning todo file record provider) todo file record
    refine ⟨?_, hcall.2 (by simp)⟩
    simp only [Sweeper.rank] at hcall
    simp only [sweep, Shared.commit, Sweeper.rank]
    omega
  | cleaning todo file record provider =>
    have hcall := rank_afterCall (Effect.run (callProvider provider.capabilities.cleanup
      (.cleaned file provider.providerId (recordedRun env record))
      (env.cleanup file provider (recordedRun env record)))
      (Shared.view ⟨owner, .cleaning todo file record provider, events⟩)).1
      (.releasing todo file (markRecovered record) true) todo file record
    refine ⟨?_, hcall.2 (by simp)⟩
    simp only [Sweeper.rank] at hcall
    simp only [sweep, Shared.commit, Sweeper.rank]
    omega
  | releasing todo file record recovered =>
    simp only [sweep, Shared.commit]
    repeat' split
    all_goals simp [Sweeper.rank]
  | rewriting todo file record => simp [sweep, Shared.commit, Sweeper.rank]
  | pruning => simp [sweep, Shared.commit, Sweeper.rank]

/-- Left alone, the sweeper stops, and what it leaves behind is what
`recover_orphans` leaves behind. -/
theorem sweeper_runs_recoverOrphans (shared : Shared) (idle : shared.sweeper = .idle) :
    ∃ count, ((sweep config env)^[count] shared).sweeper = .stopped ∧
      ((sweep config env)^[count] shared).view =
        (Effect.run (recoverOrphans config env) shared.view).2 := by
  have hstops (bound : Nat) : ∀ state : Shared, state.sweeper ≠ .idle →
      state.sweeper.rank ≤ bound → ∃ count, ((sweep config env)^[count] state).sweeper = .stopped := by
    induction bound with
    | zero =>
      intro state started small
      refine ⟨0, ?_⟩
      obtain ⟨owner, sweeper, events⟩ := state
      cases sweeper <;> simp [Sweeper.rank] at small started ⊢
    | succ bound ih =>
      intro state started small
      by_cases going : state.sweeper = .stopped
      · exact ⟨0, going⟩
      · obtain ⟨hrank, hstarted⟩ := @sweep_rank config env state started going
        obtain ⟨count, hcount⟩ := ih (sweep config env state) hstarted (by omega)
        exact ⟨count + 1, by rw [Function.iterate_succ_apply, hcount]⟩
  obtain ⟨count, hcount⟩ := hstops _ (sweep config env shared) (by simp [sweep, idle]) le_rfl
  refine ⟨count + 1, by rw [Function.iterate_succ_apply, hcount], ?_⟩
  have hrest := @sweeps_keep_rest config env (count + 1) shared
  rw [Function.iterate_succ_apply, hcount, idle] at hrest
  rw [Function.iterate_succ_apply]
  have hidle : (Effect.run (rest config env .idle) shared.view).2 =
      (Effect.run (recoverOrphans config env) shared.view).2 := by
    simp only [rest]
    rw [run_bind]
    rcases Effect.run (recoverOrphans config env) shared.view with ⟨outcome, after⟩
    cases outcome <;> rfl
  exact hrest.trans hidle

end Refinement

/-- The record is about this run: by its file, its run id or its directory. -/
def Names (env : RecoveryEnv) (file : String) (record : Fields) (runId : String)
    (workdir : Option String) : Prop :=
  file = journalPath runId ∨
    (∃ value, field record "run_id" = .ok value ∧ env.text value = runId) ∨
    ∃ value, field record "workdir" = .ok value ∧ workdir = some (env.text value)

def LeftBehind (env : RecoveryEnv) (supervisor : Supervisor) (file : String) (record : Fields) :
    Prop :=
  ∀ runId run, supervisor.runs.get runId = some run → run.isActive = true →
    ¬ Names env file record runId run.workdir

/-- The record gives the sweeper nothing to do. -/
def Inert (config : Config) (env : RecoveryEnv) (record : Fields) : Prop :=
  (∀ provider, selectRecorded config env record ≠ .ok (some provider)) ∧
    owesWorkdir record = false

def Sweeper.pending : Sweeper → Option (String × Fields)
  | .asking _ file record _ | .cleaning _ file record _ | .releasing _ file record _
  | .rewriting _ file record => some (file, record)
  | _ => none

/-- If the next operation reads a record that gives it something to do, the
record is one that the other process has left behind. -/
def ReadsLeftBehind (config : Config) (env : RecoveryEnv) (shared : Shared) : Prop :=
  ∀ todo file record, shared.sweeper = .between (file :: todo) →
    (shared.owner.supervisor.stateDir.get file).map JournalFile.content =
      some (.json (.obj record)) →
    Inert config env record ∨ LeftBehind env shared.owner.supervisor file record

/-- A step of either process.  A new run gets an id and a directory that the
record in the sweeper's hands does not name, as `uuid4` and `mkdtemp` see to. -/
inductive SharedStep (config recovering : Config) (env : RecoveryEnv) (careful : Prop) :
    Shared → Shared → Prop where
  | owner {shared} (world : Env) (action : Action) (enabled : Enabled shared.owner action)
      (fresh : ∀ call file record, action = .start call →
        shared.sweeper.pending = some (file, record) →
          ¬ Names env file record call.uuid call.workdir) :
      SharedStep config recovering env careful shared
        { shared with owner := (exec config world shared.owner action).2 }
  | sweeper {shared} (reads : careful → ReadsLeftBehind recovering env shared) :
      SharedStep config recovering env careful shared (sweep recovering env shared)

/-- The call is made for this run, or on its directory. -/
def Event.Touches (runId : String) (run : Run) : Event → Prop
  | .cancelled _ _ other => other = runId
  | .cleaned _ _ other => other = runId
  | .released _ path => run.workdir = some path

/-- The step cancels or cleans none of the runs held active, releases none of
their directories and marks none of them recovered. -/
def Spares (before after : Shared) : Prop :=
  ∀ runId run, before.owner.supervisor.runs.get runId = some run → run.isActive = true →
    (∃ added, after.events = added ++ before.events ∧
      ∀ event ∈ added, ¬ event.Touches runId run) ∧
    ∀ record mtime, after.owner.supervisor.stateDir.get (journalPath runId) =
        some ⟨.json (.obj record), mtime⟩ →
      record.lookup "state" = some (.str RunState.recovered.name) →
        before.owner.supervisor.stateDir.get (journalPath runId) =
            some ⟨.json (.obj record), mtime⟩

section Safety

variable {config recovering : Config} {env : RecoveryEnv}

/-- What the sweeper has in hand is left behind, or will not be touched. -/
structure SweepInvariant (env : RecoveryEnv) (shared : Shared) : Prop where
  clear : ∀ file record, shared.sweeper.pending = some (file, record) →
    LeftBehind env shared.owner.supervisor file record ∨
      ∃ todo, shared.sweeper = .releasing todo file record false ∧ owesWorkdir record = false
  named : ∀ todo file record provider, shared.sweeper = .asking todo file record provider ∨
      shared.sweeper = .cleaning todo file record provider →
    ∃ value, field record "run_id" = .ok value

theorem names_of_lookup {record record' : Fields} {file runId : String} {workdir : Option String}
    (run : record'.lookup "run_id" = record.lookup "run_id")
    (dir : record'.lookup "workdir" = record.lookup "workdir") :
    Names env file record' runId workdir ↔ Names env file record runId workdir := by
  simp only [Names, field, run, dir]

theorem leftBehind_of_lookup {record record' : Fields} {file : String} {supervisor : Supervisor}
    (run : record'.lookup "run_id" = record.lookup "run_id")
    (dir : record'.lookup "workdir" = record.lookup "workdir")
    (left : LeftBehind env supervisor file record) : LeftBehind env supervisor file record' := by
  intro runId held found active
  rw [names_of_lookup run dir]
  exact left runId held found active

/-- Active runs after the change were active before, the one being started
apart. -/
def NewlyActive (call : Option StartCall) (before after : Supervisor) : Prop :=
  ∀ runId run', after.runs.get runId = some run' → run'.isActive = true →
    (∃ run, before.runs.get runId = some run ∧ run.isActive = true ∧ run'.workdir = run.workdir) ∨
      ∃ started, call = some started ∧ runId = started.uuid ∧ run'.workdir = started.workdir

instance (call : Option StartCall) : IsPreorder Supervisor (NewlyActive call) where
  refl _ := fun _ run found active => .inl ⟨run, found, active, rfl⟩
  trans _ _ _ first second := by
    intro runId run'' found'' active''
    rcases second runId run'' found'' active'' with ⟨run', found', active', hdir'⟩ | started
    · rcases first runId run' found' active' with ⟨run, found, active, hdir⟩ | ⟨call, hcall, hid, hdir⟩
      · exact .inl ⟨run, found, active, hdir'.trans hdir⟩
      · exact .inr ⟨call, hcall, hid, hdir'.trans hdir⟩
    · exact .inr started

theorem newlyActive_of_runs (call : Option StartCall) {before after : Supervisor}
    (runs : after.runs = before.runs) : NewlyActive call before after :=
  fun _ run found active => .inl ⟨run, runs ▸ found, active, rfl⟩

theorem touches_newlyActive (call : Option StartCall) {before after : Supervisor}
    (touches : ReflTransGen (Touch config .any) before after) : NewlyActive call before after := by
  induction touches with
  | refl => exact Std.Refl.refl before
  | tail _ touch ih =>
    refine IsTrans.trans _ _ _ ih ?_
    cases touch with
    | pruned dir runs released => exact newlyActive_of_runs call runs
    | run other run run' found step runs journal released =>
      intro runId record
      rw [runs, Dict.get_set]
      split
      · rename_i hsame
        intro same active
        cases same
        exact .inl ⟨run, by rw [hsame, found], step.isActive_of_isActive active, step.workdir_eq⟩
      · intro hfound active
        exact .inl ⟨record, hfound, active, rfl⟩

theorem store_newlyActive {call : StartCall} {run : Run} (dir : run.workdir = call.workdir)
    (supervisor : Supervisor) : NewlyActive (some call) supervisor
      { supervisor with runs := supervisor.runs.set call.uuid run } := by
  intro runId record
  simp only [Dict.get_set]
  split
  · rename_i hsame
    intro same _
    cases same
    exact .inr ⟨call, rfl, hsame, dir⟩
  · intro found active
    exact .inl ⟨record, found, active, rfl⟩

theorem undoStart_newlyActive (world : Env) (call : StartCall) (run : Run)
    (supervisor : Supervisor) : NewlyActive (some call) supervisor
      (Effect.run (undoStart world call run) supervisor).2 := by
  have hruns : (Effect.run (undoStart world call run) supervisor).2.runs =
      supervisor.runs.erase call.uuid := by
    unfold undoStart
    rw [run_modify_bind]
    cases call.workdir with
    | none => exact (run_write_runs world _ _).1
    | some path => exact (run_write_runs world _ _).1
  intro runId record
  rw [hruns, Dict.get_erase]
  split
  · intro absent
    cases absent
  · intro found active
    exact .inl ⟨record, found, active, rfl⟩

theorem start_newlyActive (world : Env) (call : StartCall) (supervisor : Supervisor) :
    NewlyActive (some call) supervisor (Effect.run (start config world call) supervisor).2 := by
  unfold start
  rw [run_bind, run_ofExcept]
  cases config.registry.select call.providerId (some call.spec) with
  | error raised => exact Std.Refl.refl supervisor
  | ok provider =>
    simp only
    unfold startLocked
    apply bind_follows (touches_newlyActive _ (@reapCompletedLocked_follows config .any world
      (fun durable => durable.elim) supervisor))
    intro _ reaped _
    rw [run_get_bind]
    split
    · exact Std.Refl.refl reaped
    · have hstored := @store_newlyActive call (newRun world call provider) rfl reaped
      unfold store
      rw [run_modify_bind]
      apply bind_follows
      · exact IsTrans.trans _ _ _ hstored (newlyActive_of_runs _ (run_write_runs world _ _).1)
      · intro _ written _
        cases call.submit with
        | ok _ => exact store_newlyActive (by rfl) written
        | error exception =>
          simp only
          split
          · apply bind_follows (undoStart_newlyActive world call _ written)
            intro _ after _
            exact Std.Refl.refl after
          · exact Std.Refl.refl written

def Action.started : Action → Option StartCall
  | .start call => some call
  | _ => none

theorem exec_newlyActive (world : Env) (system : System) (action : Action) :
    NewlyActive action.started system.supervisor
      (exec config world system action).2.supervisor := by
  have honoured : Policy.any.Honoured world := fun durable => durable.elim
  cases action with
  | start call => exact start_newlyActive world call system.supervisor
  | inspect runId => exact touches_newlyActive _ (@inspect_follows config _ _ honoured runId _)
  | waitEnter thread runId =>
    apply newlyActive_of_runs
    simp only [exec, System.call]
    cases found : system.supervisor.runs.get runId <;> simp [found, Except.map, System.goto]
  | waitEnd thread =>
    simp only [exec]
    split
    · rename_i runId _
      exact touches_newlyActive _ (@waitResume_follows config _ _ honoured runId _)
    · exact Std.Refl.refl _
  | cancelEnter thread runId =>
    have hfollows := touches_newlyActive none
      (@cancelEnter_follows config _ _ honoured runId system.supervisor)
    simp only [exec]
    split
    · rename_i after heq
      have := congrArg (fun outcome => outcome.2.supervisor) heq
      simp only [System.supervisor_call] at this
      rw [System.supervisor_goto, ← this]
      exact hfollows
    · exact hfollows
  | cancelReturn thread answer =>
    simp only [exec]
    split
    · rename_i runId _
      exact touches_newlyActive _ (@cancelReturn_follows config _ _ honoured runId answer _)
    · exact Std.Refl.refl _
  | cleanup runId answer =>
    exact touches_newlyActive _ (@cleanup_follows config _ _ honoured runId answer _
      fun _ _ _ => trivial)
  | complete runId outcome => exact touches_newlyActive _ (@complete_follows config _ runId outcome _)

theorem owner_keeps_invariant {shared : Shared} (invariant : SweepInvariant env shared)
    (world : Env) (action : Action)
    (fresh : ∀ call file record, action = .start call →
      shared.sweeper.pending = some (file, record) → ¬ Names env file record call.uuid call.workdir) :
    SweepInvariant env { shared with owner := (exec config world shared.owner action).2 } where
  clear file record pending := by
    rcases invariant.clear file record pending with left | idle
    · refine .inl fun runId run' found' active' => ?_
      rcases @exec_newlyActive config world shared.owner action runId run' found' active' with
        ⟨run, found, active, hdir⟩ | ⟨call, hcall, hid, hdir⟩
      · rw [hdir]
        exact left runId run found active
      · have haction : action = .start call := by
          cases action <;> simp [Action.started] at hcall
          rw [hcall]
        rw [hid, hdir]
        exact fresh call file record haction pending
    · exact .inr idle
  named := invariant.named

theorem sweepInvariant_of_none {shared : Shared} (none : shared.sweeper.pending = none) :
    SweepInvariant env shared where
  clear file record pending := by
    rw [none] at pending
    cases pending
  named todo file record provider at_call := by
    rcases at_call with h | h <;> rw [h] at none <;> cases none

theorem sweepInvariant_of_left {shared : Shared} {file : String} {record : Fields}
    (pending : shared.sweeper.pending = some (file, record))
    (left : LeftBehind env shared.owner.supervisor file record)
    (named : ∃ value, field record "run_id" = .ok value) : SweepInvariant env shared where
  clear file' record' pending' := by
    rw [pending] at pending'
    cases pending'
    exact .inl left
  named todo file' record' provider at_call := by
    rcases at_call with h | h <;> rw [h] at pending <;> cases pending <;> exact named

theorem sweepInvariant_of_releasing {owner : System} {events : List Event} {todo : List String}
    {file : String} {record : Fields} {recovered : Bool}
    (clear : LeftBehind env owner.supervisor file record ∨
      (recovered = false ∧ owesWorkdir record = false)) :
    SweepInvariant env ⟨owner, .releasing todo file record recovered, events⟩ where
  clear file' record' pending' := by
    cases pending'
    rcases clear with left | ⟨rfl, owes⟩
    · exact .inl left
    · exact .inr ⟨todo, rfl, owes⟩
  named todo file record provider at_call := by
    rcases at_call with h | h <;> cases h

theorem sweepInvariant_of_rewriting {owner : System} {events : List Event} {todo : List String}
    {file : String} {record : Fields} (left : LeftBehind env owner.supervisor file record) :
    SweepInvariant env ⟨owner, .rewriting todo file record, events⟩ where
  clear file' record' pending' := by
    cases pending'
    exact .inl left
  named todo file record provider at_call := by
    rcases at_call with h | h <;> cases h

theorem read_keeps_invariant {owner : System} {events : List Event} {todo : List String}
    {file : String}
    (reads : ∀ record, (owner.supervisor.stateDir.get file).map JournalFile.content =
        some (.json (.obj record)) →
      Inert recovering env record ∨ LeftBehind env owner.supervisor file record) :
    SweepInvariant env ⟨owner, afterRead recovering env todo file
      ((owner.supervisor.stateDir.get file).map JournalFile.content), events⟩ := by
  unfold afterRead
  split
  · exact sweepInvariant_of_none rfl
  · exact sweepInvariant_of_none rfl
  · rename_i record hcontent
    have hread := reads record hcontent
    split
    · exact sweepInvariant_of_none rfl
    · exact sweepInvariant_of_releasing (hread.symm.imp id fun inert => ⟨rfl, inert.2⟩)
    · rename_i provider hselected
      have hleft := hread.resolve_left fun inert => inert.1 provider hselected
      split
      · rename_i value hnamed
        exact sweepInvariant_of_left (by rfl) hleft ⟨value, hnamed⟩
      · exact sweepInvariant_of_releasing (.inl hleft)
  · exact sweepInvariant_of_none rfl

theorem lookup_markRecovered (record : Fields) :
    (markRecovered record).lookup "run_id" = record.lookup "run_id" ∧
      (markRecovered record).lookup "workdir" = record.lookup "workdir" := by
  simp [markRecovered, lookup_setEntry]

theorem sweep_keeps_invariant {shared : Shared} (invariant : SweepInvariant env shared)
    (reads : ReadsLeftBehind recovering env shared) :
    SweepInvariant env (sweep recovering env shared) := by
  obtain ⟨owner, sweeper, events⟩ := shared
  cases sweeper with
  | idle => exact sweepInvariant_of_none rfl
  | between todo =>
    cases todo with
    | nil => exact sweepInvariant_of_none rfl
    | cons file todo => exact read_keeps_invariant fun record => reads todo file record rfl
  | asking todo file record provider =>
    have hleft := (invariant.clear file record rfl).resolve_right (by simp)
    have hnamed := invariant.named todo file record provider (.inl rfl)
    simp only [sweep, afterCall]
    split
    · exact sweepInvariant_of_left (by rfl) hleft hnamed
    · split
      · exact sweepInvariant_of_releasing (.inl hleft)
      · exact sweepInvariant_of_none rfl
  | cleaning todo file record provider =>
    have hleft := (invariant.clear file record rfl).resolve_right (by simp)
    simp only [sweep, afterCall]
    split
    · exact sweepInvariant_of_releasing (.inl (leftBehind_of_lookup (lookup_markRecovered record).1
        (lookup_markRecovered record).2 hleft))
    · split
      · exact sweepInvariant_of_releasing (.inl hleft)
      · exact sweepInvariant_of_none rfl
  | releasing todo file record recovered =>
    obtain ⟨logged, workdirs, hswept, -, -⟩ := @run_sweepWorkdir env file record
      (Shared.view ⟨owner, .releasing todo file record recovered, events⟩)
    simp only [sweep, hswept]
    have hclear := invariant.clear file record rfl
    cases hpath : releasedPath env record with
    | none =>
      cases recovered with
      | false => exact sweepInvariant_of_none rfl
      | true => exact sweepInvariant_of_rewriting (hclear.resolve_right (by simp))
    | some path =>
      have howes : owesWorkdir record = true := by
        by_contra hnot
        simp [releasedPath, hnot] at hpath
      have hleft := hclear.resolve_right (by simp [howes])
      simp only [Bool.or_true, if_true]
      exact sweepInvariant_of_rewriting (leftBehind_of_lookup (by simp [lookup_setEntry])
        (by simp [lookup_setEntry]) hleft)
  | rewriting todo file record => exact sweepInvariant_of_none rfl
  | pruning => exact sweepInvariant_of_none rfl
  | stopped => exact sweepInvariant_of_none rfl

/-- A step that leaves the journal alone and whose calls are about other runs. -/
theorem spares_of_events {before after : Shared} (added : List Event)
    (events : after.events = added ++ before.events)
    (dir : after.owner.supervisor.stateDir = before.owner.supervisor.stateDir)
    (others : ∀ runId run, before.owner.supervisor.runs.get runId = some run →
      run.isActive = true → ∀ event ∈ added, ¬ event.Touches runId run) : Spares before after :=
  fun runId run found active => ⟨⟨added, events, others runId run found active⟩,
    fun record mtime hfile _ => by rwa [← dir]⟩

theorem spares_of_call {owner : System} {sweeper next : Sweeper} {events : List Event}
    {advertised : Bool} {event : Event} {answer : Except Exc Unit}
    (others : ∀ runId run, owner.supervisor.runs.get runId = some run → run.isActive = true →
      ¬ event.Touches runId run) :
    Spares ⟨owner, sweeper, events⟩ (Shared.commit ⟨owner, sweeper, events⟩
      (Effect.run (callProvider advertised event answer)
        (Shared.view ⟨owner, sweeper, events⟩)).2 next) := by
  refine spares_of_events (if advertised then [event] else []) ?_ ?_ ?_
  · rw [run_callProvider]
    rfl
  · rw [run_callProvider]
    rfl
  · intro runId run found active other member
    cases advertised with
    | false => cases member
    | true =>
      rw [List.mem_singleton.mp member]
      exact others runId run found active

theorem recordedRun_ne {supervisor : Supervisor} {file : String} {record : Fields}
    (left : LeftBehind env supervisor file record)
    (named : ∃ value, field record "run_id" = .ok value) {runId : String} {run : Run}
    (found : supervisor.runs.get runId = some run) (active : run.isActive = true) :
    recordedRun env record ≠ runId := by
  obtain ⟨value, hvalue⟩ := named
  intro same
  rw [recordedRun, hvalue] at same
  exact left runId run found active (.inr (.inl ⟨value, hvalue, same⟩))

theorem sweep_spares {shared : Shared} (invariant : SweepInvariant env shared) :
    Spares shared (sweep recovering env shared) := by
  obtain ⟨owner, sweeper, events⟩ := shared
  have hquiet (next : Sweeper) : Spares ⟨owner, sweeper, events⟩ ⟨owner, next, events⟩ :=
    spares_of_events [] rfl rfl fun _ _ _ _ event member => by cases member
  cases sweeper with
  | idle => exact hquiet _
  | between todo =>
    cases todo with
    | nil => exact hquiet _
    | cons file todo => exact hquiet _
  | stopped => exact hquiet _
  | asking todo file record provider =>
    have hleft := (invariant.clear file record rfl).resolve_right (by simp)
    have hnamed := invariant.named todo file record provider (.inl rfl)
    exact spares_of_call fun runId run found active => recordedRun_ne hleft hnamed found active
  | cleaning todo file record provider =>
    have hleft := (invariant.clear file record rfl).resolve_right (by simp)
    have hnamed := invariant.named todo file record provider (.inr rfl)
    exact spares_of_call fun runId run found active => recordedRun_ne hleft hnamed found active
  | releasing todo file record recovered =>
    obtain ⟨logged, workdirs, hswept, -, hlogged⟩ := @run_sweepWorkdir env file record
      (Shared.view ⟨owner, .releasing todo file record recovered, events⟩)
    refine spares_of_events logged ?_ ?_ ?_
    · simp only [sweep, hswept]
      rfl
    · simp only [sweep, hswept]
      rfl
    · intro runId run found active event member touches
      obtain ⟨howes, value, hvalue, rfl⟩ := hlogged event member
      have hleft := (invariant.clear file record rfl).resolve_right (by simp [howes])
      exact hleft runId run found active (.inr (.inr ⟨value, hvalue, touches⟩))
  | rewriting todo file record =>
    have hleft := (invariant.clear file record rfl).resolve_right (by simp)
    intro runId run found active
    refine ⟨⟨[], rfl, by simp⟩, fun record' mtime hfile _ => ?_⟩
    have hne : journalPath runId ≠ file := by
      intro same
      exact hleft runId run found active (.inl same.symm)
    have hsame : (rewritten env file record owner.supervisor.stateDir).get (journalPath runId) =
        owner.supervisor.stateDir.get (journalPath runId) := by
      unfold rewritten
      cases env.rewrite file with
      | written time => exact Dict.get_set_other _ _ hne
      | unchanged => rfl
      | truncated time => exact Dict.get_set_other _ _ hne
    exact hsame.symm.trans hfile
  | pruning =>
    intro runId run found active
    rcases run_pruneJournal recovering (Shared.view ⟨owner, .pruning, events⟩) with
      ⟨raised, -, h⟩ | ⟨dir, hdir, h⟩
    · simp only [sweep, h]
      exact ⟨⟨[], rfl, by simp⟩, fun _ _ hfile _ => hfile⟩
    · simp only [sweep, h]
      exact ⟨⟨[], rfl, by simp⟩, fun _ _ hfile _ => (pruneDir_retained hdir).kept _ _ hfile⟩

end Safety

/-- Both processes before they do anything, on one directory. -/
def Shared.initial (dir : StateDir) (workdirs : Dict String Identity) : Shared :=
  ⟨CodeCalc.Supervision.initial dir workdirs, .idle, []⟩

/-- Over every interleaving in which the sweeper reads a record that asks for
something only once no run of the other process is what it is about, no
operation of the sweeper touches a run the other process holds active. -/
theorem recovery_spares_active_runs {config recovering : Config} {env : RecoveryEnv}
    {dir : StateDir} {workdirs : Dict String Identity} {shared : Shared}
    (steps : ReflTransGen (SharedStep config recovering env True) (.initial dir workdirs) shared) :
    Spares shared (sweep recovering env shared) := by
  have invariant : SweepInvariant env shared := by
    induction steps with
    | refl => exact sweepInvariant_of_none rfl
    | tail _ step ih =>
      cases step with
      | owner world action enabled fresh => exact owner_keeps_invariant ih world action fresh
      | sweeper reads => exact sweep_keeps_invariant ih (reads trivial)
  exact sweep_spares invariant

/-- Providers that answer, and a disk that works. -/
def answering : RecoveryEnv where
  str := fun _ => ""
  cancel := fun _ _ _ => .ok ()
  cleanup := fun _ _ _ => .ok ()
  accepts := fun _ => true
  removes := fun _ => true
  rewrite := fun _ => .written 0

def crashedRecord : Fields :=
  [("run_id", .str "z"), ("provider_id", .str "managed"), ("state", .str "running")]

def crashedDir : StateDir := Dict.empty.set "z.json" ⟨.json (.obj crashedRecord), 0⟩

/-- The sweeper has listed the record of a crashed process, and the other
process then started a run. -/
def startedMeanwhile : Shared :=
  { sweep singleSlot answering (.initial crashedDir .empty) with
    owner := (exec singleSlot calm (initial crashedDir .empty) (.start (startCall "a"))).2 }

def readingCrashed : Shared := sweep singleSlot answering startedMeanwhile

theorem startedMeanwhile_leaves_crashed :
    LeftBehind answering startedMeanwhile.owner.supervisor "z.json" crashedRecord := by
  intro runId run found active names
  have hkeys : startedMeanwhile.owner.supervisor.runs.keys = ["a"] := by decide
  have hrun : runId = "a" := by
    by_contra hother
    have habsent := (Dict.get_eq_none_iff startedMeanwhile.owner.supervisor.runs runId).mpr
      (by simp [hkeys, hother])
    rw [habsent] at found
    cases found
  rw [hrun] at names
  rcases names with hfile | ⟨value, hvalue, hnamed⟩ | ⟨value, hvalue, -⟩
  · exact absurd hfile (by decide)
  · cases hvalue
    exact absurd hnamed (by decide)
  · cases hvalue

theorem readingCrashed_steps :
    ReflTransGen (SharedStep singleSlot singleSlot answering True) (.initial crashedDir .empty)
      readingCrashed := by
  have hlist : SharedStep singleSlot singleSlot answering True (.initial crashedDir .empty)
      (sweep singleSlot answering (.initial crashedDir .empty)) :=
    .sweeper fun _ todo file record hsweeper => by cases hsweeper
  have hstart : SharedStep singleSlot singleSlot answering True
      (sweep singleSlot answering (.initial crashedDir .empty)) startedMeanwhile := by
    refine .owner calm (.start (startCall "a")) ?_ fun call file record _ pending => ?_
    · exact ⟨rfl, by simp [sweep, Shared.initial, initial], by decide⟩
    · cases pending
  refine ((ReflTransGen.single hlist).tail hstart).tail (.sweeper ?_)
  intro _ todo file record hsweeper hcontent
  cases hsweeper
  cases hcontent
  exact .inr startedMeanwhile_leaves_crashed

theorem readingCrashed_spares :
    Spares readingCrashed (sweep singleSlot answering readingCrashed) ∧
      (sweep singleSlot answering readingCrashed).events = [.cancelled "z.json" "managed" "z"] :=
  ⟨recovery_spares_active_runs readingCrashed_steps, by decide⟩

/-- The sweeper has read the record of a run that the other process has just
started. -/
def readingLive : Shared :=
  sweep singleSlot answering (sweep singleSlot answering
    { Shared.initial .empty .empty with
      owner := (exec singleSlot calm (initial .empty .empty) (.start (startCall "a"))).2 })

theorem readingLive_steps :
    ReflTransGen (SharedStep singleSlot singleSlot answering False) (.initial .empty .empty)
      readingLive := by
  have hstart : SharedStep singleSlot singleSlot answering False (.initial .empty .empty)
      { Shared.initial .empty .empty with
        owner := (exec singleSlot calm (initial .empty .empty) (.start (startCall "a"))).2 } :=
    .owner calm (.start (startCall "a")) ⟨rfl, by simp [Shared.initial, initial], rfl⟩
      fun call file record _ pending => by cases pending
  exact ((ReflTransGen.single hstart).tail (.sweeper fun absurd => absurd.elim)).tail
    (.sweeper fun absurd => absurd.elim)

/-- A second server that starts while a run is going cancels it. -/
theorem recovery_cancels_active_run :
    ¬ ∀ (config recovering : Config) (env : RecoveryEnv) (dir : StateDir)
      (workdirs : Dict String Identity) (shared : Shared),
      ReflTransGen (SharedStep config recovering env False) (.initial dir workdirs) shared →
        Spares shared (sweep recovering env shared) := by
  intro claim
  have hspares := claim singleSlot singleSlot answering .empty .empty readingLive readingLive_steps
  have hactive : (readingLive.owner.supervisor.runs.get "a").any Run.isActive = true := by
    decide
  obtain ⟨run, found, active⟩ := (Option.any_eq_true _ _).mp hactive
  obtain ⟨⟨added, hadded, hothers⟩, -⟩ := hspares "a" run found active
  have hevents : (sweep singleSlot answering readingLive).events =
      [.cancelled "a.json" "managed" "a"] := by
    decide
  have hnone : readingLive.events = [] := by decide
  rw [hevents, hnone, List.append_nil] at hadded
  exact hothers (.cancelled "a.json" "managed" "a") (by simp [← hadded]) rfl

end CodeCalc.Supervision
