import CodeCalc.Supervision.Settlement

/-! The directory a run owns.  It is released by the first collection, or by
`start` itself when the pool refuses the operation, and by nobody a second
time.  What can go missing is the collection: `inspect` collects only from an
active label, so a record cleaned up before it was collected keeps its
directory. -/
namespace CodeCalc.Supervision
open Lib Lib.Effect Relation

variable {config : Config} {policy : Policy} {env : Env}

/-- `cleanup` is called only on runs that have been collected. -/
def Policy.collectedCleanup : Policy := ⟨False, fun run => run.result.isSome = true⟩

/-- Whatever the body of the run or the building of its receipt raises can be
turned into a result. -/
def Run.Reportable (env : Env) (run : Run) : Prop :=
  ∀ exception, receiptedResult env run = .error exception → exception.reportable = true

theorem failedResult_ok_iff (run : Run) (exception : Exc) :
    (∃ result, failedResult run exception = .ok result) ↔
      (exception.coded.isSome || exception.message.isSome) = true := by
  unfold failedResult
  cases exception.coded <;> cases exception.message <;> simp

theorem collectedResult_ok_iff (env : Env) (run : Run) :
    (∃ result, collectedResult env run = .ok result) ↔ run.Reportable env := by
  unfold collectedResult Run.Reportable
  cases receiptedResult env run with
  | ok result => simp
  | error exception =>
    cases hclass : exception.isInstance .exception with
    | false => simp [hclass, Exc.reportable]
    | true => simp [hclass, Exc.reportable, failedResult_ok_iff]

/-- The journal aside, nothing moved. -/
def Supervisor.SameMemory (before after : Supervisor) : Prop :=
  after.runs = before.runs ∧ after.released = before.released

instance : IsPreorder Supervisor Supervisor.SameMemory where
  refl _ := ⟨rfl, rfl⟩
  trans _ _ _ left right := ⟨right.1.trans left.1, right.2.trans left.2⟩

theorem write_sameMemory (env : Env) (run : Run) (supervisor : Supervisor) :
    supervisor.SameMemory (Effect.run (write env run) supervisor).2 :=
  run_write_runs env run supervisor

theorem prune_sameMemory (config : Config) (supervisor : Supervisor) :
    supervisor.SameMemory (Effect.run (prune config) supervisor).2 := by
  rcases run_prune config supervisor with ⟨_, _, h⟩ | ⟨_, _, h⟩ <;> rw [h] <;> exact ⟨rfl, rfl⟩

theorem run_collect_first (config : Config) {supervisor : Supervisor} {runId : String} {run : Run}
    {result : Fields} (found : supervisor.runs.get runId = some run)
    (uncollected : run.result = none) (collected : collectedResult env run = .ok result) :
    ∃ stored : Supervisor, stored.runs = supervisor.runs.set runId (run.collected result) ∧
      stored.stateDir = supervisor.stateDir ∧
      stored.released = (if run.owes then runId :: supervisor.released else supervisor.released) ∧
      Effect.run (collect config env runId) supervisor = Effect.run (do
        write env (run.collected result)
        prune config
        pure result) stored := by
  obtain ⟨workdirs, hrelease⟩ := run_releaseWorkdir env runId run supervisor
  refine ⟨{ supervisor with
    runs := supervisor.runs.set runId (run.collected result)
    workdirs := workdirs
    released := if run.owes then runId :: supervisor.released else supervisor.released },
    rfl, rfl, rfl, ?_⟩
  unfold collect
  rw [run_getRun_bind found, uncollected]
  simp only
  rw [run_bind, run_ofExcept, collected]
  simp only [run_bind_of_ok _ hrelease, store, run_modify_bind]
  rfl

/-- What a first collection leaves in memory, whether or not the journal write
and the prune after it succeed. -/
theorem run_collect_of_ok (config : Config) {supervisor : Supervisor} {runId : String} {run : Run}
    {result : Fields} (found : supervisor.runs.get runId = some run)
    (uncollected : run.result = none) (collected : collectedResult env run = .ok result) :
    (Effect.run (collect config env runId) supervisor).2.runs =
        supervisor.runs.set runId (run.collected result) ∧
      (Effect.run (collect config env runId) supervisor).2.released =
        if run.owes then runId :: supervisor.released else supervisor.released := by
  obtain ⟨stored, hruns, -, hreleased, hcollect⟩ :=
    run_collect_first config found uncollected collected
  have hrest : stored.SameMemory (Effect.run (do
      write env (run.collected result)
      prune config
      pure result) stored).2 := by
    refine bind_follows (write_sameMemory env _ _) fun _ written _ => ?_
    refine bind_follows (prune_sameMemory config written) fun _ pruned _ => ?_
    exact Std.Refl.refl pruned
  rw [hcollect]
  exact ⟨hrest.1.trans hruns, hrest.2.trans hreleased⟩

theorem run_collect_of_error (config : Config) {supervisor : Supervisor} {runId : String}
    {run : Run} {raised : Exc} (found : supervisor.runs.get runId = some run)
    (uncollected : run.result = none) (failed : collectedResult env run = .error raised) :
    Effect.run (collect config env runId) supervisor = (.error raised, supervisor) := by
  unfold collect
  rw [run_getRun_bind found, uncollected]
  simp only
  rw [run_bind, run_ofExcept, failed]

theorem run_collectIfDone_of_ready (config : Config) {supervisor : Supervisor} {runId : String}
    {run : Run} (found : supervisor.runs.get runId = some run) (active : run.isActive = true)
    (done : run.isDone = true) :
    (Effect.run (collectIfDone config env runId) supervisor).2 =
      (Effect.run (collect config env runId) supervisor).2 := by
  unfold collectIfDone
  rw [run_getRun_bind found, if_pos (by simp [active, done]), run_bind]
  rcases Effect.run (collect config env runId) supervisor with ⟨outcome, after⟩
  cases outcome <;> rfl

/-- `inspect` leaves behind what its collection left behind. -/
theorem run_inspect_state (config : Config) (supervisor : Supervisor) (runId : String) :
    (Effect.run (inspect config env runId) supervisor).2 =
      (Effect.run (collectIfDone config env runId) supervisor).2 := by
  unfold inspect
  rw [run_bind]
  rcases Effect.run (collectIfDone config env runId) supervisor with ⟨outcome, after⟩
  cases outcome with
  | error raised => rfl
  | ok _ =>
    cases found : after.runs.get runId with
    | none => simp only [run_getRun_bind_unknown found]
    | some run =>
      simp only [run_getRun_bind found]
      rfl

/-- After one `inspect` the run is terminal, has a result, and its directory
has been released. -/
def InspectSettles (config : Config) (env : Env) (runId : String) (supervisor : Supervisor) :
    Prop :=
  ∃ run, (Effect.run (inspect config env runId) supervisor).2.runs.get runId = some run ∧
    run.state.isTerminal = true ∧ run.result.isSome = true ∧ run.workdirCleaned = true ∧
    runId ∈ (Effect.run (inspect config env runId) supervisor).2.released

/-- The log of released directories names no run twice, and of the runs in the
table exactly those that say so. -/
structure ReleaseInvariant (supervisor : Supervisor) : Prop where
  once : supervisor.released.Nodup
  logged : ∀ runId run, supervisor.runs.get runId = some run →
    (runId ∈ supervisor.released ↔ run.workdir.isSome = true ∧ run.workdirCleaned = true)

theorem RunStep.workdir_eq {run run' : Run} (step : RunStep policy run run') :
    run'.workdir = run.workdir := by
  cases step <;> rfl

theorem RunStep.workdirCleaned_mono {run run' : Run} (step : RunStep policy run run')
    (cleaned : run.workdirCleaned = true) : run'.workdirCleaned = true := by
  cases step with
  | collected result uncollected settled => simp [Run.collected, cleaned]
  | _ => exact cleaned

/-- A debt that is not paid by the step leaves the flags as they were. -/
theorem RunStep.released_iff {run run' : Run} (step : RunStep policy run run')
    (unpaid : ¬ (run.owes && !run'.owes) = true) :
    (run'.workdir.isSome = true ∧ run'.workdirCleaned = true) ↔
      (run.workdir.isSome = true ∧ run.workdirCleaned = true) := by
  have hmono := step.workdirCleaned_mono
  unfold Run.owes at unpaid
  rw [step.workdir_eq] at unpaid ⊢
  cases hworkdir : run.workdir.isSome <;> cases hcleaned : run.workdirCleaned <;> simp_all

theorem Change.keeps_release {before after : Supervisor} (change : Change config policy before after)
    (invariant : ReleaseInvariant before) : ReleaseInvariant after := by
  obtain ⟨once, logged⟩ := invariant
  cases change with
  | touch touch =>
    cases touch with
    | pruned dir runs released => exact ⟨by rwa [released], by simpa [runs, released] using logged⟩
    | run runId run run' found step runs journal released =>
      by_cases hpaid : (run.owes && !run'.owes) = true
      · rw [if_pos hpaid] at released
        simp only [Run.owes, Bool.and_eq_true, Bool.not_eq_true', step.workdir_eq] at hpaid
        have hfresh : runId ∉ before.released := by simp [logged runId run found, hpaid.1]
        have hcleaned : run'.workdirCleaned = true := by simpa [hpaid.1] using hpaid.2
        refine ⟨by simp [released, hfresh, once], fun other record => ?_⟩
        rw [runs, released, Dict.get_set]
        split
        · rename_i hsame
          intro same
          cases same
          simp [hsame, step.workdir_eq, hpaid.1, hcleaned]
        · rename_i hne
          intro hfound
          rw [List.mem_cons, or_iff_right hne, logged other record hfound]
      · rw [if_neg hpaid] at released
        refine ⟨by rwa [released], fun other record => ?_⟩
        rw [runs, released, Dict.get_set]
        split
        · rename_i hsame
          intro same
          cases same
          rw [hsame, logged runId run found, step.released_iff hpaid]
        · exact logged other record
  | admitted runId run unknown unreleased room pristine keyed runs journal released =>
    refine ⟨by rwa [released], fun other record => ?_⟩
    rw [runs, released, Dict.get_set]
    split
    · rename_i hsame
      intro same
      cases same
      simp [hsame, unreleased, pristine.workdirCleaned]
    · exact logged other record
  | withdrawn runId run found pristine runs journal released =>
    have hfresh : runId ∉ before.released := by
      simp [logged runId run found, pristine.workdirCleaned]
    refine ⟨?_, fun other record => ?_⟩
    · rw [released]
      split
      · exact List.nodup_cons.mpr ⟨hfresh, once⟩
      · exact once
    · rw [runs, Dict.get_erase]
      split
      · intro absent
        cases absent
      · rename_i hne
        intro hfound
        rw [← logged other record hfound, released]
        split
        · rw [List.mem_cons, or_iff_right hne]
        · exact Iff.rfl

theorem reachable_release {dir : StateDir} {system : System}
    (reachable : Reachable config policy dir system) : ReleaseInvariant system.supervisor :=
  reachable_invariant (fun _ _ change => change.keeps_release) reachable
    fun _ => ⟨List.nodup_nil, fun runId run found => by simp at found⟩

/-- In a reachable state with the worker done, one `inspect` settles the run
exactly when it has been collected already or still carries an active label. -/
theorem inspectSettles_iff {supervisor : Supervisor} (sound : supervisor.Sound)
    (release : ReleaseInvariant supervisor) {runId : String} {run : Run}
    (found : supervisor.runs.get runId = some run) (owner : run.workdir.isSome = true)
    (done : run.isDone = true) :
    InspectSettles config env runId supervisor ↔
      run.result.isSome = true ∨ (run.isActive = true ∧ run.Reportable env) := by
  have hsound := (sound runId run found).1
  unfold InspectSettles
  cases hactive : run.isActive with
  | false =>
    rw [run_inspect_of_terminal config env found hactive, or_iff_left (by simp)]
    constructor
    · rintro ⟨record, hrecord, -, collected, -⟩
      rw [found] at hrecord
      cases hrecord
      exact collected
    · intro collected
      have hcleaned : run.workdirCleaned = true := by simp [hsound.released, collected, owner]
      exact ⟨run, found, by simpa [Run.isActive, RunState.isTerminal] using hactive, collected,
        hcleaned, (release.logged runId run found).mpr ⟨owner, hcleaned⟩⟩
  | true =>
    have huncollected : run.result = none := by
      simpa using uncollected_of_isActive hsound hactive
    have hdebt : run.owes = true := by
      simp [Run.owes, owner, hsound.released, huncollected]
    rw [run_inspect_state, run_collectIfDone_of_ready config found hactive done, huncollected,
      ← collectedResult_ok_iff]
    simp only [Option.isSome_none, Bool.false_eq_true, true_and, false_or]
    constructor
    · rintro ⟨record, hrecord, -, collected, -⟩
      cases hresult : collectedResult env run with
      | ok result => exact ⟨result, rfl⟩
      | error raised =>
        rw [run_collect_of_error config found huncollected hresult] at hrecord
        rw [found] at hrecord
        cases hrecord
        simp [huncollected] at collected
    · rintro ⟨result, hresult⟩
      obtain ⟨hruns, hreleased⟩ := run_collect_of_ok config found huncollected hresult
      refine ⟨run.collected result, by simp [hruns], rfl, rfl, ?_, by simp [hreleased, hdebt]⟩
      simp [Run.collected, owner]

/-- Without early cleanups, a terminal label means a stored result. -/
theorem Change.keeps_results {before after : Supervisor}
    (change : Change config .collectedCleanup before after)
    (stored : ∀ runId run, before.runs.get runId = some run →
      run.isActive = false → run.result.isSome = true) :
    ∀ runId run, after.runs.get runId = some run →
      run.isActive = false → run.result.isSome = true := by
  intro other record
  cases change with
  | touch touch =>
    cases touch with
    | pruned dir runs released => simpa [runs] using stored other record
    | run runId run run' found step runs journal released =>
      rw [runs, Dict.get_set]
      split
      · intro same
        cases same
        have hstored := stored runId run found
        cases step with
        | submitted pristine => exact hstored
        | completed outcome live => exact hstored
        | collected result uncollected settled => exact fun _ => rfl
        | cancelled active => simp [Run.isActive, RunState.isActive]
        | reverted cancelling => simp [Run.isActive, RunState.isActive]
        | cleaned uncleaned collected => exact fun _ => collected
      · exact stored other record
  | admitted runId run unknown unreleased room pristine keyed runs journal released =>
    rw [runs, Dict.get_set]
    split
    · intro same
      cases same
      simp [Run.isActive, pristine.state, RunState.isActive]
    · exact stored other record
  | withdrawn runId run found pristine runs journal released =>
    rw [runs, Dict.get_erase]
    split
    · intro absent
      cases absent
    · exact stored other record

/-- In every reachable state no directory has been released twice, and one
`inspect` of a run whose worker is done settles it unless its label was taken
away before it was collected.  So it always does where `cleanup` comes after
the collection. -/
theorem inspect_releases_workdir (config : Config) (dir : StateDir) (system : System) :
    (Reachable config .any dir system → system.supervisor.released.Nodup ∧
      ∀ env runId run, system.supervisor.runs.get runId = some run → run.workdir.isSome = true →
        run.isDone = true → (InspectSettles config env runId system.supervisor ↔
          run.result.isSome = true ∨ (run.isActive = true ∧ run.Reportable env))) ∧
    (Reachable config .collectedCleanup dir system →
      ∀ env runId run, system.supervisor.runs.get runId = some run → run.workdir.isSome = true →
        run.isDone = true → run.Reportable env →
          InspectSettles config env runId system.supervisor) := by
  constructor
  · intro reachable
    have release := reachable_release reachable
    exact ⟨release.once, fun env runId run found owner done =>
      inspectSettles_iff (reachable_sound reachable) release found owner done⟩
  · intro reachable env runId run found owner done reportable
    have stored := reachable_invariant (fun _ _ change => change.keeps_results) reachable
      (fun _ runId run found => by simp at found) runId run found
    rw [inspectSettles_iff (reachable_sound reachable) (reachable_release reachable) found owner
      done]
    cases hactive : run.isActive with
    | false => exact .inl (stored hactive)
    | true => exact .inr ⟨rfl, reportable⟩

/-- A run that owns a directory. -/
def installCall : StartCall :=
  { startCall "a" with workdir := some "/tmp/codecalc-deps-a", workdirIdentity := some (1, 2) }

def installAndFinish : List (Env × Action) :=
  [(calm, .start installCall), (calm, .complete "a" (.returned (.ok [])))]

theorem collectedCleanup_permits {env : Env} {system : System} {action : Action}
    (other : ∀ runId answer, action ≠ .cleanup runId answer) :
    Policy.collectedCleanup.Permits env system action :=
  ⟨fun durable => durable.elim, fun runId answer _ same => absurd same (other runId answer)⟩

theorem installAndFinish_playable :
    Playable singleSlot .collectedCleanup (initial .empty .empty) installAndFinish :=
  ⟨⟨rfl, by simp [initial], rfl⟩, collectedCleanup_permits (by simp), trivial,
    collectedCleanup_permits (by simp), trivial⟩

theorem installAndFinish_released :
    InspectSettles singleSlot calm "a"
      (play singleSlot (initial .empty .empty) installAndFinish).supervisor := by
  have hdone : ((play singleSlot (initial .empty .empty)
      installAndFinish).supervisor.runs.get "a").any (fun run => run.workdir.isSome &&
        run.isDone && (receiptedResult calm run).isOk) = true := by
    decide
  obtain ⟨run, found, hrun⟩ := (Option.any_eq_true _ _).mp hdone
  simp only [Bool.and_eq_true] at hrun
  refine (inspect_releases_workdir singleSlot .empty _).2
    ⟨.empty, steps_of_playable installAndFinish_playable⟩ calm "a" run found hrun.1.1 hrun.1.2 ?_
  intro exception raised
  simp [raised, Except.isOk, Except.toBool] at hrun

/-- The same run with a `cleanup` between its end and its first `inspect`. -/
def cleanedTooEarly : List (Env × Action) :=
  installAndFinish ++ [(calm, .cleanup "a" (.ok ()))]

theorem cleanedTooEarly_playable :
    Playable singleSlot .any (initial .empty .empty) cleanedTooEarly :=
  ⟨⟨rfl, by simp [initial], rfl⟩, Policy.any_permits _ _ _, trivial, Policy.any_permits _ _ _,
    trivial, Policy.any_permits _ _ _, trivial⟩

/-- Nothing has failed and the worker is done, yet `inspect` neither stores a
result nor releases the directory. -/
theorem inspect_leaks_workdir :
    ¬ ∀ (config : Config) (dir : StateDir) (system : System),
      Reachable config .any dir system → system.supervisor.released.Nodup ∧
        ∀ env runId run, system.supervisor.runs.get runId = some run →
          run.workdir.isSome = true → run.isDone = true →
            InspectSettles config env runId system.supervisor := by
  intro claim
  have hdone : ((play singleSlot (initial .empty .empty)
      cleanedTooEarly).supervisor.runs.get "a").any
        (fun run => run.workdir.isSome && run.isDone) = true := by
    decide
  obtain ⟨run, found, hrun⟩ := (Option.any_eq_true _ _).mp hdone
  simp only [Bool.and_eq_true] at hrun
  obtain ⟨record, hrecord, -, collected, -⟩ := (claim singleSlot .empty _
    ⟨.empty, steps_of_playable cleanedTooEarly_playable⟩).2 calm "a" run found hrun.1 hrun.2
  have huncollected : ((Effect.run (inspect singleSlot calm "a") (play singleSlot
      (initial .empty .empty) cleanedTooEarly).supervisor).2.runs.get "a").all
        (fun run => !run.result.isSome) = true := by
    decide
  simp only [hrecord, Option.all_some, collected, Bool.not_true] at huncollected
  cases huncollected

end CodeCalc.Supervision
