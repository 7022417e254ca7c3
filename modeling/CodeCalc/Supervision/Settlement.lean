import CodeCalc.Supervision.Threads

/-! A run comes to rest once.  `cancel` leaves the lock around the provider and
comes back to revert its own label, `wait`, `inspect` and the reaper race to
collect, and `cleanup` relabels on its own; none of them takes a terminal
record back, and the first stored result is the one every caller is given. -/
namespace CodeCalc.Supervision
open Lib Lib.Effect Relation

variable {config : Config} {policy : Policy} {env : Env}

/-- How the fields of a record hang together in every reachable state. -/
structure Run.Sound (run : Run) : Prop where
  settled : run.result.isSome = true → run.isLive = false
  terminal : run.result.isSome = true → run.isActive = false
  finished : run.state = .finished → run.result.isSome = true
  released : run.workdirCleaned = (run.result.isSome && run.workdir.isSome)

def Supervisor.Sound (supervisor : Supervisor) : Prop :=
  ∀ runId run, supervisor.runs.get runId = some run → run.Sound ∧ run.handle.runId = runId

theorem Run.Pristine.sound {run : Run} (pristine : run.Pristine) : run.Sound where
  settled := by simp [pristine.result]
  terminal := by simp [pristine.result]
  finished := by simp [pristine.state]
  released := by simp [pristine.result, pristine.workdirCleaned]

theorem uncollected_of_isActive {run : Run} (sound : run.Sound)
    (active : run.isActive = true) : run.result.isSome = false := by
  cases h : run.result.isSome with
  | false => rfl
  | true =>
    rw [sound.terminal h] at active
    cases active

theorem RunStep.keeps_sound {run run' : Run} (step : RunStep policy run run')
    (sound : run.Sound) : run'.Sound := by
  cases step with
  | submitted pristine =>
    exact ⟨by simp [pristine.result], by simp [pristine.result], by simp [pristine.state],
      by simp [pristine.result, pristine.workdirCleaned]⟩
  | completed outcome live => exact ⟨fun _ => rfl, sound.terminal, sound.finished, sound.released⟩
  | collected result uncollected settled =>
    have hdebt : run.workdirCleaned = false := by simp [sound.released, uncollected]
    exact ⟨fun _ => settled, fun _ => rfl, fun _ => rfl, by simp [Run.collected, hdebt]⟩
  | cancelled active =>
    have huncollected := uncollected_of_isActive sound active
    exact ⟨sound.settled, by simp [huncollected], by simp, sound.released⟩
  | reverted cancelling =>
    have huncollected := uncollected_of_isActive sound
      (by simp [Run.isActive, cancelling, RunState.isActive])
    exact ⟨sound.settled, by simp [huncollected], by simp, sound.released⟩
  | cleaned uncleaned allowed => exact ⟨sound.settled, fun _ => rfl, by simp, sound.released⟩

theorem RunStep.handle_eq {run run' : Run} (step : RunStep policy run run') :
    run'.handle = run.handle := by
  cases step <;> rfl

theorem Change.keeps_sound {before after : Supervisor} (change : Change config policy before after)
    (sound : before.Sound) : after.Sound := by
  cases change with
  | touch touch =>
    cases touch with
    | pruned dir runs released => simpa [Supervisor.Sound, runs] using sound
    | run runId run run' found step runs journal released =>
      intro other record
      rw [runs, Dict.get_set]
      split
      · rename_i hsame
        intro same
        cases same
        obtain ⟨hsound, hkey⟩ := sound runId run found
        exact ⟨step.keeps_sound hsound, by rw [step.handle_eq, hkey, hsame]⟩
      · exact sound other record
  | admitted runId run unknown unreleased room pristine keyed runs journal released =>
    intro other record
    rw [runs, Dict.get_set]
    split
    · rename_i hsame
      intro same
      cases same
      exact ⟨pristine.sound, by rw [keyed, hsame]⟩
    · exact sound other record
  | withdrawn runId run found pristine runs journal released =>
    intro other record
    rw [runs, Dict.get_erase]
    split
    · intro absent
      cases absent
    · exact sound other record

theorem reachable_sound {dir : StateDir} {system : System}
    (reachable : Reachable config policy dir system) : system.supervisor.Sound :=
  reachable_invariant (fun _ _ change => change.keeps_sound) reachable
    fun _ runId run found => by simp at found

/-- What later changes leave alone of a record at rest. -/
structure Run.Rests (run run' : Run) : Prop where
  terminal : run.isActive = false → run'.isActive = false
  result : ∀ result, run.result = some result → run'.result = some result
  future : run.result.isSome = true → run'.future = run.future

theorem RunStep.rests {run run' : Run} (step : RunStep policy run run') (sound : run.Sound) :
    run.Rests run' := by
  cases step with
  | submitted pristine =>
    exact ⟨id, fun _ => id, by simp [pristine.result]⟩
  | completed outcome live =>
    refine ⟨id, fun _ => id, fun collected => ?_⟩
    rw [sound.settled collected] at live
    cases live
  | collected result uncollected settled =>
    exact ⟨fun _ => rfl, by simp [uncollected], by simp [uncollected]⟩
  | cancelled active => exact ⟨by simp [active], fun _ => id, fun _ => rfl⟩
  | reverted cancelling =>
    exact ⟨by simp [Run.isActive, cancelling, RunState.isActive], fun _ => id, fun _ => rfl⟩
  | cleaned uncleaned allowed => exact ⟨fun _ => rfl, fun _ => id, fun _ => rfl⟩

def Supervisor.KeepsResting (before after : Supervisor) : Prop :=
  before.Sound → after.Sound ∧ ∀ runId run, before.runs.get runId = some run →
    run.isActive = false ∨ run.result.isSome = true →
      ∃ run', after.runs.get runId = some run' ∧ run.Rests run'

instance : IsPreorder Supervisor Supervisor.KeepsResting where
  refl supervisor := fun sound => ⟨sound, fun _ run found _ =>
    ⟨run, found, id, fun _ => id, fun _ => rfl⟩⟩
  trans first second third := by
    intro left right sound
    obtain ⟨middle, hleft⟩ := left sound
    obtain ⟨last, hright⟩ := right middle
    refine ⟨last, fun runId run found resting => ?_⟩
    obtain ⟨run', found', rests⟩ := hleft runId run found resting
    have resting' : run'.isActive = false ∨ run'.result.isSome = true := by
      rcases resting with hterminal | hcollected
      · exact .inl (rests.terminal hterminal)
      · obtain ⟨result, hresult⟩ := Option.isSome_iff_exists.mp hcollected
        exact .inr (by simp [rests.result result hresult])
    obtain ⟨run'', found'', rests'⟩ := hright runId run' found' resting'
    refine ⟨run'', found'', fun h => rests'.terminal (rests.terminal h),
      fun result h => rests'.result result (rests.result result h), fun h => ?_⟩
    obtain ⟨result, hresult⟩ := Option.isSome_iff_exists.mp h
    rw [rests'.future (by simp [rests.result result hresult]), rests.future h]

theorem Change.keeps_resting {before after : Supervisor}
    (change : Change config policy before after) : before.KeepsResting after := by
  intro sound
  refine ⟨change.keeps_sound sound, fun other record found resting => ?_⟩
  have hsame : record.Rests record := ⟨id, fun _ => id, fun _ => rfl⟩
  cases change with
  | touch touch =>
    cases touch with
    | pruned dir runs released => exact ⟨record, by rw [runs, found], hsame⟩
    | run runId run run' hfound step runs journal released =>
      by_cases h : other = runId
      · subst other
        have hrecord : run = record := Option.some.inj (hfound.symm.trans found)
        subst hrecord
        exact ⟨run', by simp [runs], step.rests (sound runId run hfound).1⟩
      · exact ⟨record, by rw [runs, Dict.get_set_other _ _ h, found], hsame⟩
  | admitted runId run unknown unreleased room pristine keyed runs journal released =>
    have h : other ≠ runId := by
      intro same
      rw [same, unknown] at found
      cases found
    exact ⟨record, by rw [runs, Dict.get_set_other _ _ h, found], hsame⟩
  | withdrawn runId run hfound pristine runs journal released =>
    by_cases h : other = runId
    · -- a withdrawn record never came to rest: it is the one `start` just made
      subst other
      rw [hfound] at found
      cases found
      simp [Run.isActive, pristine.state, pristine.result, RunState.isActive] at resting
    · exact ⟨record, by rw [runs, Dict.get_erase, if_neg h, found], hsame⟩

theorem steps_keep_resting {before after : System}
    (steps : ReflTransGen (Step config policy) before after) :
    before.supervisor.KeepsResting after.supervisor :=
  steps_follow (fun _ _ change => change.keeps_resting) steps

theorem run_waitResume_of_collected (config : Config) (env : Env) {supervisor : Supervisor}
    {runId : String} {run : Run} {result : Fields}
    (found : supervisor.runs.get runId = some run) (collected : run.result = some result) :
    Effect.run (waitResume config env runId) supervisor =
      ((awaitFuture runId run).map fun _ => result, supervisor) := by
  unfold waitResume
  rw [run_getRun_bind found, run_bind, run_ofExcept]
  cases awaitFuture runId run with
  | error raised => rfl
  | ok _ =>
    simp only
    unfold collect
    rw [run_getRun_bind found, collected]
    rfl

/-- A terminal run answers `inspect` without being touched. -/
theorem run_inspect_of_terminal (config : Config) (env : Env) {supervisor : Supervisor}
    {runId : String} {run : Run} (found : supervisor.runs.get runId = some run)
    (terminal : run.isActive = false) :
    Effect.run (inspect config env runId) supervisor = (.ok run.status, supervisor) := by
  have hskip : Effect.run (collectIfDone config env runId) supervisor = (.ok (), supervisor) := by
    unfold collectIfDone
    rw [run_getRun_bind found, terminal]
    rfl
  unfold inspect
  rw [run_bind_of_ok _ hskip, run_getRun_bind found]
  rfl

/-- Over every interleaving, a terminal record is never active again, a stored
result is never replaced, and from then on every `inspect` reports a terminal
state and every `wait` answers the same. -/
theorem terminal_run_stays_settled {dir : StateDir} {before after : System}
    (reachable : Reachable config .any dir before)
    (steps : ReflTransGen (Step config .any) before after) {runId : String} {run : Run}
    (found : before.supervisor.runs.get runId = some run) :
    (run.state.isTerminal = true → ∃ run', after.supervisor.runs.get runId = some run' ∧
      run'.state.isTerminal = true) ∧
    ∀ result, run.result = some result →
      ∃ run', after.supervisor.runs.get runId = some run' ∧ run'.result = some result ∧
        run'.state.isTerminal = true ∧
        (∀ env, (Effect.run (inspect config env runId) after.supervisor).1 = .ok run'.status) ∧
        (∀ env env', (Effect.run (waitResume config env runId) after.supervisor).1 =
          (Effect.run (waitResume config env' runId) before.supervisor).1) ∧
        ∀ env reply, (Effect.run (waitResume config env runId) after.supervisor).1 = .ok reply →
          reply = result := by
  have sound := reachable_sound reachable
  obtain ⟨_, resting⟩ := steps_keep_resting steps sound
  constructor
  · intro terminal
    have hinactive : run.isActive = false := by simpa [Run.isActive, RunState.isTerminal] using terminal
    obtain ⟨run', found', rests⟩ := resting runId run found (.inl hinactive)
    refine ⟨run', found', ?_⟩
    have := rests.terminal hinactive
    simpa [RunState.isTerminal, Run.isActive] using this
  · intro result hresult
    have hsome : run.result.isSome = true := by simp [hresult]
    obtain ⟨run', found', rests⟩ := resting runId run found (.inr hsome)
    have hresult' := rests.result result hresult
    have hinactive' := rests.terminal ((sound runId run found).1.terminal hsome)
    have hawait : awaitFuture runId run' = awaitFuture runId run := by
      simp only [awaitFuture, rests.future hsome]
    refine ⟨run', found', hresult', ?_, ?_, ?_, ?_⟩
    · simpa [RunState.isTerminal, Run.isActive] using hinactive'
    · intro env
      rw [run_inspect_of_terminal config env found' hinactive']
    · intro env env'
      rw [run_waitResume_of_collected config env found' hresult',
        run_waitResume_of_collected config env' found hresult, hawait]
    · intro env reply hreply
      rw [run_waitResume_of_collected config env found' hresult'] at hreply
      cases h : awaitFuture runId run' with
      | error raised => simp [h, Except.map] at hreply
      | ok _ => simpa [h, Except.map, eq_comm] using hreply

/-- A cancellation overtaken by the run's own end: the provider is still being
asked when the worker finishes and somebody collects, and then it fails. -/
def overtakenCancel : List (Env × Action) :=
  [(calm, .start (startCall "a")), (calm, .cancelEnter 0 "a"),
    (calm, .complete "a" (.returned (.ok []))), (calm, .inspect "a")]

def failedCancel : List (Env × Action) :=
  [(calm, .cancelReturn 0 (.error (providerOperationFailure "managed" "cancel"))),
    (calm, .cleanup "a" (.ok ()))]

theorem overtakenCancel_playable :
    Playable singleSlot .any (initial .empty .empty) overtakenCancel :=
  ⟨⟨rfl, by simp [initial], rfl⟩, Policy.any_permits _ _ _, rfl, Policy.any_permits _ _ _,
    trivial, Policy.any_permits _ _ _, trivial, Policy.any_permits _ _ _, trivial⟩

theorem failedCancel_playable : Playable singleSlot .any
    (play singleSlot (initial .empty .empty) overtakenCancel) failedCancel :=
  ⟨⟨"a", rfl⟩, Policy.any_permits _ _ _, trivial, Policy.any_permits _ _ _, trivial⟩

theorem overtakenCancel_stays_settled :
    ∃ run run', (play singleSlot (initial .empty .empty) overtakenCancel).supervisor.runs.get "a" =
        some run ∧ run.state.isTerminal = true ∧ run.result = some [] ∧
      (play singleSlot (play singleSlot (initial .empty .empty) overtakenCancel)
        failedCancel).supervisor.runs.get "a" = some run' ∧
      run'.state.isTerminal = true ∧ run'.result = some [] := by
  have hsettled : ((play singleSlot (initial .empty .empty)
      overtakenCancel).supervisor.runs.get "a").any (fun run => run.state.isTerminal &&
        (run.result.map List.isEmpty).getD false) = true := by
    decide
  obtain ⟨run, found, hrun⟩ := (Option.any_eq_true _ _).mp hsettled
  simp only [Bool.and_eq_true] at hrun
  have hresult : run.result = some [] := by
    cases h : run.result <;> simp_all
  obtain ⟨run', found', hresult', hterminal, -⟩ := (terminal_run_stays_settled
    ⟨.empty, steps_of_playable overtakenCancel_playable⟩
    (steps_of_playable failedCancel_playable) found).2 [] hresult
  exact ⟨run, run', found, hrun.1, hresult, found', hterminal, hresult'⟩

end CodeCalc.Supervision
