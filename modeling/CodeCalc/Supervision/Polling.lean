import CodeCalc.Supervision.Waiting

/-! The `run_inspect` tool: `inspect`, and once the status is terminal `wait`,
`cleanup` and `inspect` again, each under its own lock, with the rest of the
service going on in between. -/
namespace CodeCalc.Supervision
open Lib Lib.Effect Errors Relation

variable {config : Config} {env : Env}

/-- One poll: what the world answers each of its calls, how the provider takes
the `cleanup`, and what the other threads do between the calls. -/
structure PollCall where
  envs : Nat → Env
  answer : Except Exc Unit
  between : Nat → Supervisor → Supervisor

/-- `status["state"]` is one of the terminal names. -/
def reportsTerminal (status : Fields) : Bool :=
  match status.lookup "state" with
  | some (.str state) => decide (state ∈ terminalNames)
  | _ => false

def unknownRun (runId : String) : Fields :=
  errorResult .validation ("unknown run " ++ reprStr runId)
    [("provider_error", .str "unknown_run"), ("run_id", .str runId)]

def notCollectible (runId : String) (status : Fields) : Fields :=
  let state := match status.lookup "state" with
    | some (.str state) => state
    | _ => ""
  errorResult .internal ("run " ++ reprStr runId ++ " reported state " ++ reprStr state ++
      " but its result was not yet collectible")
    [("provider_error", .str "run_result_not_collectible"), ("run_id", .str runId)]

/-- The `except` clause around `cleanup`, applied to how it ended. -/
def noteCleanup (result : Fields) : Except Exc Fields → Except Exc Fields
  | .ok _ => .ok result
  | .error exception =>
      if exception.isInstance .providerOperationFailure then
        match exception.message with
        | some text => .ok (mergeFields result [("cleanup_error", .str text)])
        | none => .error exception.unprintable
      else .error exception

/-- `run_inspect` once its `wait` has ended. -/
def runInspectWaited (config : Config) (poll : PollCall) (runId : String) (status : Fields) :
    Except Exc Fields → Method Fields
  | .error exception =>
      if exception.isInstance .timeoutError then pure (notCollectible runId status)
      else raise exception
  | .ok result => do
      modify (poll.between 1)
      let cleaned ← attempt (cleanup config (poll.envs 2) runId poll.answer)
      let noted ← ofExcept (noteCleanup result cleaned)
      modify (poll.between 2)
      let status ← inspect config (poll.envs 3) runId
      pure (mergeFields noted status)

/-- `run_inspect` once its first `inspect` has ended. -/
def runInspectStatus (config : Config) (poll : PollCall) (runId : String) :
    Except Exc Fields → Method Fields
  | .error exception =>
      if exception.isInstance .keyError then pure (unknownRun runId) else raise exception
  | .ok status =>
      if reportsTerminal status then do
        modify (poll.between 0)
        let waited ← attempt (waitResume config (poll.envs 1) runId)
        runInspectWaited config poll runId status waited
      else pure (mergeFields [("ok", .bool true)] status)

def runInspect (config : Config) (poll : PollCall) (runId : String) : Method Fields := do
  let inspected ← attempt (inspect config (poll.envs 0) runId)
  runInspectStatus config poll runId inspected

def withNote (result : Fields) : Option String → Fields
  | none => result
  | some text => mergeFields result [("cleanup_error", .str text)]

def terminalReply (result : Fields) (note : Option String) (run : Run) : Fields :=
  mergeFields (withNote result note) run.status

/-- The service works: journal writes succeed, receipts fail in ways that can
be reported, `cleanup` at the provider succeeds or fails as documented, and the
other threads do what the threads of a supervisor do. -/
structure PollCall.Served (poll : PollCall) (config : Config) : Prop where
  durable : ∀ call, (poll.envs call).Durable
  receipts : ∀ call, (poll.envs call).Receipts
  answer : poll.answer = .ok () ∨
    ∃ provider, poll.answer = .error (providerOperationFailure provider "cleanup")
  between : ∀ gap supervisor,
    ReflTransGen (Change config .any) supervisor (poll.between gap supervisor)

theorem isSome_lookup_mergeFields (left right : Fields) (key : String)
    (present : (left.lookup key).isSome = true ∨ (right.lookup key).isSome = true) :
    ((mergeFields left right).lookup key).isSome = true := by
  induction right generalizing left with
  | nil => simpa [mergeFields] using present
  | cons entry rest ih =>
    apply ih
    rw [lookup_setEntry]
    by_cases h : key = entry.1
    · simp [h]
    · rw [List.lookup_cons, beq_eq_false_iff_ne.mpr h] at present
      simpa [h] using present

theorem notCollectible_ne_terminalReply (runId : String) (status result : Fields)
    (note : Option String) (run : Run) :
    notCollectible runId status ≠ terminalReply result note run := by
  intro same
  have hreply : ((terminalReply result note run).lookup "cleaned").isSome = true := by
    refine isSome_lookup_mergeFields _ _ _ (.inr ?_)
    simp [Run.status, RunHandle.asDict, List.lookup_cons]
  rw [← same] at hreply
  simp [notCollectible, errorResult, mergeFields, setEntry, List.lookup_cons] at hreply

theorem reportsTerminal_status (run : Run) :
    reportsTerminal run.status = run.state.isTerminal := by
  have hstate : run.status.lookup "state" = some (.str run.state.name) := by
    simp [Run.status, RunHandle.asDict, List.lookup_cons]
  unfold reportsTerminal
  rw [hstate]
  cases run.state <;> rfl

/-- The worker of the run is done, in a table and a directory as they should be. -/
structure Ended (runId : String) (outcome : Outcome) (supervisor : Supervisor) : Prop where
  sound : supervisor.Sound
  readable : Readable supervisor.stateDir
  done : ∃ run, supervisor.runs.get runId = some run ∧ run.future = some (.done outcome)

theorem RunStep.keeps_outcome {policy : Policy} {run run' : Run} (step : RunStep policy run run')
    {outcome : Outcome} (done : run.future = some (.done outcome)) :
    run'.future = some (.done outcome) := by
  cases step with
  | submitted pristine =>
    rw [pristine.future] at done
    cases done
  | completed other live =>
    rw [Run.isLive, done] at live
    cases live
  | collected result uncollected settled => exact done
  | cancelled active => exact done
  | reverted cancelling => exact done
  | cleaned uncleaned allowed => exact done

theorem Change.keeps_ended {before after : Supervisor} (change : Change config .any before after)
    {runId : String} {outcome : Outcome} (ended : Ended runId outcome before) :
    Ended runId outcome after := by
  obtain ⟨sound, readable, record, found, done⟩ := ended
  refine ⟨change.keeps_sound sound, change.keeps_readable readable, ?_⟩
  cases change with
  | touch touch =>
    cases touch with
    | pruned dir runs released => exact ⟨record, by rw [runs, found], done⟩
    | run other run run' hfound step runs journal released =>
      by_cases h : runId = other
      · subst other
        have hrecord : run = record := Option.some.inj (hfound.symm.trans found)
        subst hrecord
        exact ⟨run', by rw [runs, Dict.get_set_same], step.keeps_outcome done⟩
      · exact ⟨record, by rw [runs, Dict.get_set_other _ _ h, found], done⟩
  | admitted other run unknown unreleased room pristine keyed runs journal released =>
    have h : runId ≠ other := by
      intro same
      rw [same, unknown] at found
      cases found
    exact ⟨record, by rw [runs, Dict.get_set_other _ _ h, found], done⟩
  | withdrawn other run hfound pristine runs journal released =>
    have h : runId ≠ other := by
      intro same
      rw [same, hfound] at found
      cases found
      rw [pristine.future] at done
      cases done
    exact ⟨record, by rw [runs, Dict.get_erase, if_neg h, found], done⟩

def Holds (runId : String) (result : Fields) (supervisor : Supervisor) : Prop :=
  ∃ run, supervisor.runs.get runId = some run ∧ run.result = some result

theorem changes_keep_result {before after : Supervisor}
    (changes : ReflTransGen (Change config .any) before after) (sound : before.Sound)
    {runId : String} {result : Fields} (holds : Holds runId result before) :
    Holds runId result after := by
  have hstep : ∀ first last, Change config .any first last →
      first.Sound ∧ Holds runId result first → last.Sound ∧ Holds runId result last := by
    rintro first last change ⟨hsound, run, found, stored⟩
    obtain ⟨hsound', hresting⟩ := change.keeps_resting hsound
    obtain ⟨run', found', rests⟩ := hresting runId run found (.inr (by simp [stored]))
    exact ⟨hsound', run', found', rests.result result stored⟩
  exact (changes_keep hstep changes ⟨sound, holds⟩).2

section Poll

variable {poll : PollCall} {runId : String} {outcome : Outcome} {supervisor : Supervisor}

theorem Ended.later {after : Supervisor} (ended : Ended runId outcome supervisor)
    (changes : ReflTransGen (Change config .any) supervisor after) : Ended runId outcome after :=
  changes_keep (fun _ _ change => change.keeps_ended) changes ended

theorem othersReadable_of_readable {dir : StateDir} (readable : Readable dir) (runId : String) :
    OthersReadable dir runId :=
  fun name file found _ => readable name file found

theorem any_honoured (env : Env) : Policy.any.Honoured env := fun durable => durable.elim

theorem inspect_ended (ended : Ended runId outcome supervisor) (durable : env.Durable)
    (receipts : env.Receipts) (reportable : outcome.reportable = true) :
    ∃ run, (Effect.run (inspect config env runId) supervisor).1 = .ok run.status ∧
      (Effect.run (inspect config env runId) supervisor).2.runs.get runId = some run ∧
      run.state.isTerminal = true := by
  obtain ⟨run, found, done⟩ := ended.done
  cases hactive : run.isActive with
  | false =>
    rw [run_inspect_of_terminal config env found hactive]
    exact ⟨run, rfl, found, by simpa [Run.isActive, RunState.isTerminal] using hactive⟩
  | true =>
    obtain ⟨hsound, hkey⟩ := ended.sound runId run found
    have huncollected : run.result = none := by simpa using uncollected_of_isActive hsound hactive
    obtain ⟨result, hcollected⟩ := (collectedResult_ok_iff env run).mpr
      (Run.reportable_of_outcome done reportable receipts)
    have hok := (run_collect_ok_iff config found huncollected result).mpr ⟨hcollected,
      durable _ _, othersReadable_of_readable ended.readable _⟩
    have hafter := (run_collect_of_ok config found huncollected hcollected).1
    rcases hcollect : Effect.run (collect config env runId) supervisor with ⟨reply, after⟩
    rw [hcollect] at hok hafter
    simp only at hok hafter
    subst hok
    have hdone : run.isDone = true := by simp [Run.isDone, done, Future.isDone]
    have hcollectIfDone : Effect.run (collectIfDone config env runId) supervisor =
        (.ok (), after) := by
      unfold collectIfDone
      rw [run_getRun_bind found, if_pos (by simp [hactive, hdone]), run_bind_of_ok _ hcollect]
      rfl
    have hfound : after.runs.get runId = some (run.collected result) := by
      rw [hafter, Dict.get_set_same]
    unfold inspect
    rw [run_bind_of_ok _ hcollectIfDone, run_getRun_bind hfound]
    exact ⟨run.collected result, rfl, hfound, rfl⟩

/-- With the service working, `cleanup` of an ended run returns, or fails the
way a provider says it may. -/
theorem cleanup_noted (ended : Ended runId outcome supervisor) (durable : env.Durable)
    {answer : Except Exc Unit} (documented : answer = .ok () ∨
      ∃ provider, answer = .error (providerOperationFailure provider "cleanup"))
    (result : Fields) :
    ∃ note, noteCleanup result (Effect.run (cleanup config env runId answer) supervisor).1 =
      .ok (withNote result note) := by
  obtain ⟨run, found, -⟩ := ended.done
  unfold cleanup
  rw [run_getRun_bind found]
  split
  · exact ⟨none, rfl⟩
  · rw [run_bind, run_ofExcept]
    have hcleanup (reply : Fields) : (Effect.run (do
        store runId { run with cleaned := true, state := .cleaned }
        write env { run with cleaned := true, state := .cleaned }
        prune config
        pure reply) supervisor).1 = .ok reply := by
      unfold store
      rw [run_modify_bind, write_prune_ok_iff]
      exact ⟨rfl, durable _ _, othersReadable_of_readable ended.readable _⟩
    have hreturns : ∃ note, noteCleanup result (Effect.run (do
        store runId { run with cleaned := true, state := .cleaned }
        write env { run with cleaned := true, state := .cleaned }
        prune config
        pure [("run_id", .str runId), ("cleaned", .bool true),
          ("already_cleaned", .bool false)]) supervisor).1 = .ok (withNote result note) := by
      refine ⟨none, ?_⟩
      rw [hcleanup]
      rfl
    cases run.provider.capabilities.cleanup with
    | false => exact hreturns
    | true =>
      rcases documented with rfl | ⟨provider, rfl⟩
      · exact hreturns
      · exact ⟨some ("provider " ++ reprStr provider ++ " " ++ "cleanup" ++ " failed"), by
          simp [noteCleanup, withNote, providerOperationFailure, Exc.isInstance]⟩

theorem run_runInspect_ended (ended : Ended runId outcome supervisor)
    (served : poll.Served config) (reportable : outcome.reportable = true) :
    ∃ status middle, ReflTransGen (Change config .any) supervisor middle ∧
      Effect.run (runInspect config poll runId) supervisor =
        Effect.run (do
          let waited ← attempt (waitResume config (poll.envs 1) runId)
          runInspectWaited config poll runId status waited) middle := by
  obtain ⟨run, hstatus, -, hterminal⟩ := @inspect_ended config (poll.envs 0) runId outcome
    supervisor ended (served.durable 0) (served.receipts 0) reportable
  have hchanges := touches_are_changes (@inspect_follows config .any (poll.envs 0)
    (any_honoured _) runId supervisor)
  refine ⟨run.status, poll.between 0 (Effect.run (inspect config (poll.envs 0) runId) supervisor).2,
    hchanges.trans (served.between 0 _), ?_⟩
  unfold runInspect
  rw [run_attempt_bind, hstatus]
  simp only [runInspectStatus, reportsTerminal_status, hterminal, if_true, run_modify_bind]

theorem runInspect_returns (ended : Ended runId outcome supervisor) (served : poll.Served config)
    (reportable : outcome.reportable = true) (punctual : outcome.timedOut = false) :
    ∃ result note run,
      (Effect.run (runInspect config poll runId) supervisor).1 =
        .ok (terminalReply result note run) ∧
      ReflTransGen (Change config .any) supervisor
        (Effect.run (runInspect config poll runId) supervisor).2 ∧
      Holds runId result (Effect.run (runInspect config poll runId) supervisor).2 := by
  obtain ⟨status, middle, hmiddle, hrun⟩ := run_runInspect_ended ended served reportable
  rw [hrun]
  have hended := ended.later hmiddle
  obtain ⟨record, hrecord, hdone⟩ := hended.done
  have hbody : ∀ exception, outcome = .raised exception →
      exception.isInstance .exception = true := by
    intro exception same
    rw [same] at reportable
    simp only [Outcome.reportable, Exc.reportable, Bool.and_eq_true] at reportable
    exact reportable.1
  have hcollectable : Collectable (poll.envs 1) runId record middle.stateDir :=
    .inr ⟨Run.reportable_of_outcome hdone reportable (served.receipts 1), served.durable 1 _ _,
      othersReadable_of_readable hended.readable _⟩
  obtain ⟨result, settled, hwaited, hsettled, hresult, -⟩ :=
    (@waitReturns_iff config (poll.envs 1) middle hended.sound runId record outcome hrecord hdone
      hbody).mpr ⟨punctual, hcollectable⟩
  -- from the wait on, every state holds the result and only adds to the record
  have hwait := touches_are_changes (@waitResume_follows config .any (poll.envs 1)
    (any_honoured _) runId middle)
  rw [run_attempt_bind, hwaited]
  unfold runInspectWaited
  rw [run_modify_bind, run_attempt_bind]
  set waited := poll.between 1 (Effect.run (waitResume config (poll.envs 1) runId) middle).2
    with hwaitedState
  have hgap : ReflTransGen (Change config .any) middle waited :=
    hwait.trans (served.between 1 _)
  have hholds : Holds runId result waited := changes_keep_result (served.between 1 _)
    (hended.later hwait).sound ⟨settled, hsettled, hresult⟩
  obtain ⟨note, hnote⟩ := @cleanup_noted config (poll.envs 2) runId outcome waited
    (hended.later hgap) (served.durable 2) poll.answer served.answer result
  rw [run_bind, run_ofExcept, hnote]
  simp only
  rw [run_modify_bind]
  have hcleanup := touches_are_changes (@cleanup_follows config .any (poll.envs 2)
    (any_honoured _) runId poll.answer waited fun _ _ _ => trivial)
  set cleaned := poll.between 2
    (Effect.run (cleanup config (poll.envs 2) runId poll.answer) waited).2 with hcleanedState
  have hlast : ReflTransGen (Change config .any) waited cleaned :=
    hcleanup.trans (served.between 2 _)
  have hinspect := touches_are_changes (@inspect_follows config .any (poll.envs 3)
    (any_honoured _) runId cleaned)
  have hendedCleaned := (hended.later hgap).later hlast
  obtain ⟨run, hfinal, hfound, -⟩ := @inspect_ended config (poll.envs 3) runId outcome cleaned
    hendedCleaned (served.durable 3) (served.receipts 3) reportable
  have hreply : Effect.run (do
      let status ← inspect config (poll.envs 3) runId
      pure (mergeFields (withNote result note) status)) cleaned = (.ok (terminalReply result note run),
        (Effect.run (inspect config (poll.envs 3) runId) cleaned).2) :=
    run_bind_of_ok _ (Prod.ext hfinal rfl)
  rw [hreply]
  refine ⟨result, note, run, rfl, ((hmiddle.trans hgap).trans hlast).trans hinspect, ?_⟩
  exact changes_keep_result (hlast.trans hinspect) (hended.later hgap).sound hholds

/-- A poll of a run whose body raised `TimeoutError` reports that there is
nothing to collect. -/
theorem runInspect_of_timedOut (ended : Ended runId outcome supervisor)
    (served : poll.Served config) (reportable : outcome.reportable = true)
    (late : outcome.timedOut = true) :
    ∃ status, (Effect.run (runInspect config poll runId) supervisor).1 =
      .ok (notCollectible runId status) := by
  obtain ⟨status, middle, hmiddle, hrun⟩ := run_runInspect_ended ended served reportable
  obtain ⟨record, hrecord, hdone⟩ := (ended.later hmiddle).done
  have hwait : (Effect.run (waitResume config (poll.envs 1) runId) middle).1 =
      .error (.timeoutError ("run " ++ reprStr runId ++ " did not finish before wait timeout")) := by
    unfold waitResume
    rw [run_getRun_bind hrecord, run_bind, run_ofExcept, awaitFuture, hdone]
    cases outcome with
    | returned asDict => cases late
    | raised exception =>
      have hclass : exception.isInstance .timeoutError = true := late
      simp [hclass]
  refine ⟨status, ?_⟩
  rw [hrun, run_attempt_bind, hwait]
  rfl

end Poll

def PollsReturn (config : Config) (poll : PollCall) (runId : String) (supervisor : Supervisor) :
    Prop :=
  ∃ result note run,
    (Effect.run (runInspect config poll runId) supervisor).1 =
      .ok (terminalReply result note run) ∧
    Holds runId result (Effect.run (runInspect config poll runId) supervisor).2 ∧
    ∀ later next, ReflTransGen (Change config .any)
        (Effect.run (runInspect config poll runId) supervisor).2 later → next.Served config →
      ∃ note' run', (Effect.run (runInspect config next runId) later).1 =
        .ok (terminalReply result note' run')

theorem pollsReturn_iff {poll : PollCall} {runId : String} {outcome : Outcome}
    {supervisor : Supervisor} (ended : Ended runId outcome supervisor)
    (served : poll.Served config) (reportable : outcome.reportable = true) :
    PollsReturn config poll runId supervisor ↔ outcome.timedOut = false := by
  constructor
  · rintro ⟨result, note, run, hreply, -⟩
    cases late : outcome.timedOut with
    | false => rfl
    | true =>
      obtain ⟨status, hlate⟩ := runInspect_of_timedOut ended served reportable late
      rw [hlate] at hreply
      exact absurd (Except.ok.inj hreply) (notCollectible_ne_terminalReply _ _ _ _ _)
  · intro punctual
    obtain ⟨result, note, run, hreply, hchanges, hholds⟩ :=
      runInspect_returns ended served reportable punctual
    refine ⟨result, note, run, hreply, hholds, fun later next hlater served' => ?_⟩
    have hended := (ended.later hchanges).later hlater
    obtain ⟨result', note', run', hreply', hchanges', final', hfinal', hstored'⟩ :=
      runInspect_returns hended served' reportable punctual
    obtain ⟨final, hfinal, hstored⟩ := changes_keep_result (hlater.trans hchanges')
      (ended.later hchanges).sound hholds
    have hsame : result' = result := by
      rw [hfinal] at hfinal'
      cases hfinal'
      rw [hstored] at hstored'
      exact (Option.some.inj hstored').symm
    exact ⟨note', run', by rw [hreply', hsame]⟩

/-- Of a run whose worker is done, `wait` returns the one terminal result
exactly when the body did not raise `TimeoutError` and the collection can be
carried out; and with the service working, `run_inspect` returns that result on
every poll exactly when the body did not raise `TimeoutError`. -/
theorem wait_returns_iff_no_timeout {dir : StateDir} {system : System}
    (reachable : Reachable config .any dir system) {runId : String} {run : Run} {outcome : Outcome}
    (found : system.supervisor.runs.get runId = some run)
    (done : run.future = some (.done outcome))
    (body : ∀ exception, outcome = .raised exception → exception.isInstance .exception = true) :
    (∀ env, WaitReturns config env runId system.supervisor ↔
      outcome.timedOut = false ∧ Collectable env runId run system.supervisor.stateDir) ∧
    (∀ poll : PollCall, poll.Served config → Readable system.supervisor.stateDir →
      outcome.reportable = true →
        (PollsReturn config poll runId system.supervisor ↔ outcome.timedOut = false)) := by
  have sound := reachable_sound reachable
  constructor
  · intro env
    exact waitReturns_iff sound found done body
  · intro poll served readable reportable
    exact pollsReturn_iff ⟨sound, readable, run, found, done⟩ served reportable

/-- A run whose body ends as given. -/
def runAndEnd (outcome : Outcome) : List (Env × Action) :=
  [(calm, .start (startCall "a")), (calm, .complete "a" outcome)]

theorem runAndEnd_playable (outcome : Outcome) :
    Playable singleSlot .any (initial .empty .empty) (runAndEnd outcome) :=
  ⟨⟨rfl, by simp [initial], rfl⟩, Policy.any_permits _ _ _, trivial, Policy.any_permits _ _ _,
    trivial⟩

theorem runAndEnd_done (outcome : Outcome) :
    ∃ run, (play singleSlot (initial .empty .empty) (runAndEnd outcome)).supervisor.runs.get "a" =
      some run ∧ run.future = some (.done outcome) :=
  ⟨_, rfl, rfl⟩

theorem valueError_wait_returns :
    WaitReturns singleSlot calm "a" (play singleSlot (initial .empty .empty)
      (runAndEnd (.raised ⟨"ValueError", [.valueError, .exception], some "bad", none, none⟩))
      ).supervisor := by
  obtain ⟨run, found, done⟩ := runAndEnd_done
    (.raised ⟨"ValueError", [.valueError, .exception], some "bad", none, none⟩)
  refine ((wait_returns_iff_no_timeout ⟨.empty, steps_of_playable (runAndEnd_playable _)⟩ found done
    ?_).1 calm).mpr ⟨by decide, .inr ⟨?_, ⟨0, rfl⟩, ?_⟩⟩
  · rintro exception same
    cases same
    decide
  · refine Run.reportable_of_outcome done (by decide) ?_
    intro run result exception raised
    cases raised
  · have hfiles : (play singleSlot (initial .empty .empty) (runAndEnd (.raised ⟨"ValueError",
        [.valueError, .exception], some "bad", none, none⟩))).supervisor.stateDir.entries.all
          (fun entry => entry.2.content.wellFormed) = true := by
      decide
    intro name file hfile _
    exact List.all_eq_true.mp hfiles _ ((Dict.get_eq_some_iff _ _ _).mp hfile)

/-- A body that ran into a socket timeout of its own: the run is done, nothing
else fails, and `wait` says that it did not finish in time. -/
theorem wait_hides_timeout :
    ¬ ∀ (config : Config) (dir : StateDir) (system : System), Reachable config .any dir system →
      ∀ runId run outcome, system.supervisor.runs.get runId = some run →
        run.future = some (.done outcome) →
        (∀ exception, outcome = .raised exception → exception.isInstance .exception = true) →
          ∀ env, WaitReturns config env runId system.supervisor := by
  intro claim
  obtain ⟨run, found, done⟩ := runAndEnd_done (.raised (.timeoutError "timed out"))
  obtain ⟨result, record, hreturned, -⟩ := claim singleSlot .empty _
    ⟨.empty, steps_of_playable (runAndEnd_playable _)⟩ "a" run _ found done
    (by rintro exception same; cases same; decide) calm
  have hraised : (Effect.run (waitResume singleSlot calm "a") (play singleSlot
      (initial .empty .empty) (runAndEnd (.raised (.timeoutError "timed out")))).supervisor).1.isOk =
      false := by
    decide
  rw [hreturned] at hraised
  cases hraised

end CodeCalc.Supervision
