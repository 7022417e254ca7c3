import CodeCalc.Supervision.Threads

/-! The admission cap.  `start` counts labels, and the number that matters is
how many operations the pool still carries.  The two agree as long as no label
turns terminal under a running worker, and `cleanup` is the one method that can
do that. -/
namespace CodeCalc.Supervision
open Lib Lib.Effect Relation

/-- `cleanup` is called only on runs whose worker is not going any more. -/
def Policy.settledCleanup : Policy := ⟨False, fun run => run.isLive = false⟩

theorem settledCleanup_permits {env : Env} {system : System} {action : Action}
    (settled : ∀ runId answer run, action = .cleanup runId answer →
      system.supervisor.runs.get runId = some run → run.isLive = false) :
    Policy.settledCleanup.Permits env system action :=
  ⟨fun durable => durable.elim, fun runId answer run same found _ =>
    settled runId answer run same found⟩

structure AdmissionInvariant (config : Config) (supervisor : Supervisor) : Prop where
  labelled : ∀ runId run, supervisor.runs.get runId = some run →
    run.isLive = true → run.isActive = true
  bounded : supervisor.active ≤ config.maxActiveRuns

variable {config : Config} {policy : Policy}

theorem RunStep.isActive_of_isActive {run run' : Run} (step : RunStep policy run run')
    (active : run'.isActive = true) : run.isActive = true := by
  cases step with
  | submitted pristine => exact active
  | completed outcome live => exact active
  | collected result uncollected settled => simp [Run.isActive, Run.collected, RunState.isActive] at active
  | cancelled hactive => exact hactive
  | reverted cancelling => simp [Run.isActive, cancelling, RunState.isActive]
  | cleaned uncleaned allowed => simp [Run.isActive, RunState.isActive] at active

theorem RunStep.isActive_of_isLive {run run' : Run} (step : RunStep .settledCleanup run run')
    (live : run'.isLive = true) : run'.isActive = true := by
  cases step with
  | submitted pristine => simp [Run.isActive, pristine.state, RunState.isActive]
  | completed outcome wasLive => simp [Run.isLive] at live
  | collected result uncollected settled =>
    have : run.isLive = true := live
    rw [settled] at this
    cases this
  | cancelled active => simp [Run.isActive, RunState.isActive]
  | reverted cancelling => simp [Run.isActive, RunState.isActive]
  | cleaned uncleaned settled =>
    have : run.isLive = true := live
    rw [show run.isLive = false from settled] at this
    cases this

theorem active_set_le {supervisor : Supervisor} {runId : String} {run run' : Run}
    (found : supervisor.runs.get runId = some run)
    (active : run'.isActive = true → run.isActive = true) :
    (supervisor.runs.set runId run').count Run.isActive ≤ supervisor.active := by
  have hcount := supervisor.runs.count_set_of_get Run.isActive run' found
  have hle : run'.isActive.toNat ≤ run.isActive.toNat := by
    cases h : run'.isActive with
    | false => exact Nat.zero_le _
    | true => rw [active h]
  unfold Supervisor.active
  omega

theorem Change.keeps_admission {before after : Supervisor}
    (change : Change config .settledCleanup before after)
    (invariant : AdmissionInvariant config before) : AdmissionInvariant config after := by
  cases change with
  | touch touch =>
    cases touch with
    | pruned dir runs released =>
      exact ⟨by simpa [runs] using invariant.labelled,
        by simpa [Supervisor.active, runs] using invariant.bounded⟩
    | run runId run run' found step runs journal released =>
      constructor
      · intro other record
        rw [runs, Dict.get_set]
        split
        · intro same
          cases same
          exact step.isActive_of_isLive
        · exact invariant.labelled other record
      · calc after.active = (before.runs.set runId run').count Run.isActive := by
              rw [Supervisor.active, runs]
          _ ≤ before.active := active_set_le found step.isActive_of_isActive
          _ ≤ config.maxActiveRuns := invariant.bounded
  | admitted runId run unknown unreleased room pristine keyed runs journal released =>
    constructor
    · intro other record
      rw [runs, Dict.get_set]
      split
      · intro same _
        cases same
        simp [Run.isActive, pristine.state, RunState.isActive]
      · exact invariant.labelled other record
    · have hcount := before.runs.count_set_of_absent Run.isActive run unknown
      have hone : run.isActive.toNat ≤ 1 := Bool.toNat_le _
      rw [Supervisor.active, runs]
      unfold Supervisor.active at room
      omega
  | withdrawn runId run found pristine runs journal released =>
    constructor
    · intro other record
      rw [runs, Dict.get_erase]
      split
      · intro absent
        cases absent
      · exact invariant.labelled other record
    · calc after.active = (before.runs.erase runId).count Run.isActive := by
            rw [Supervisor.active, runs]
        _ ≤ before.active := before.runs.count_filter_le _ _
        _ ≤ config.maxActiveRuns := invariant.bounded

/-- Whatever the threads do, as long as no run is cleaned up under a running
worker, the pool never carries more operations than the cap. -/
theorem live_le_maxActiveRuns {dir : StateDir} {system : System}
    (reachable : Reachable config .settledCleanup dir system) :
    system.supervisor.live ≤ config.maxActiveRuns := by
  have invariant : AdmissionInvariant config system.supervisor := by
    refine reachable_invariant (fun _ _ change => change.keeps_admission) reachable ?_
    intro workdirs
    exact ⟨fun runId run found => by simp at found, Nat.zero_le _⟩
  calc system.supervisor.live ≤ system.supervisor.active :=
        system.supervisor.runs.count_mono _ _ invariant.labelled
    _ ≤ config.maxActiveRuns := invariant.bounded

/-- One run after another through a single slot, the first one cleaned up after
its worker has finished. -/
def takeTurns : List (Env × Action) :=
  [(calm, .start (startCall "a")), (calm, .complete "a" (.returned (.ok []))),
    (calm, .cleanup "a" (.ok ())), (calm, .start (startCall "b"))]

theorem takeTurns_playable :
    Playable singleSlot .settledCleanup (initial .empty .empty) takeTurns := by
  refine ⟨⟨rfl, by simp [initial], rfl⟩, settledCleanup_permits (by simp), trivial,
    settledCleanup_permits (by simp), trivial, settledCleanup_permits ?_, ?_,
    settledCleanup_permits (by simp), trivial⟩
  · intro runId answer run same found
    cases same
    have hsettled : ((play singleSlot (initial .empty .empty)
        (takeTurns.take 2)).supervisor.runs.get "a").all (fun run => !run.isLive) = true := by
      decide
    change (play singleSlot _ (takeTurns.take 2)).supervisor.runs.get "a" = some run at found
    simpa [found] using hsettled
  · exact ⟨by decide, by decide, by decide⟩

theorem takeTurns_live :
    (play singleSlot (initial .empty .empty) takeTurns).supervisor.live = 1 ∧
      (play singleSlot (initial .empty .empty) takeTurns).supervisor.live ≤ 1 :=
  ⟨by decide,
    live_le_maxActiveRuns ⟨.empty, steps_of_playable takeTurns_playable⟩⟩

/-- Start one run, clean it up while its worker is still going (as
`ExecutionService.execute` does once its wait has timed out), start another. -/
def overrun : List (Env × Action) :=
  [(calm, .start (startCall "a")), (calm, .cleanup "a" (.ok ())), (calm, .start (startCall "b"))]

theorem overrun_playable : Playable singleSlot .any (initial .empty .empty) overrun := by
  refine ⟨⟨rfl, by simp [initial], rfl⟩, Policy.any_permits _ _ _, trivial,
    Policy.any_permits _ _ _, ?_, Policy.any_permits _ _ _, trivial⟩
  exact ⟨by decide, by decide, by decide⟩

/-- The cap does not hold over every interleaving: two operations are on the
pool of a supervisor that admits one. -/
theorem live_exceeds_maxActiveRuns :
    ¬ ∀ (config : Config) (dir : StateDir) (system : System),
      Reachable config .any dir system → system.supervisor.live ≤ config.maxActiveRuns := by
  intro claim
  have hbound := claim singleSlot .empty _ ⟨.empty, steps_of_playable overrun_playable⟩
  have hlive : (play singleSlot (initial .empty .empty) overrun).supervisor.live = 2 := by
    decide
  rw [hlive] at hbound
  exact absurd hbound (by decide)

end CodeCalc.Supervision
