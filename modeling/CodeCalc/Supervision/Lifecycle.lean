import Mathlib.Logic.Relation
import CodeCalc.Supervision.Supervisor

/-! What can happen to a run, without the code that makes it happen.  A record
is admitted, submitted, completed, collected, cancelled, reverted and cleaned;
every method of the supervisor, whether it returns or raises, is a sequence of
these changes.  Claims about all interleavings are proved about the changes. -/
namespace CodeCalc.Supervision
open Lib Lib.Effect Relation

/-- What is assumed of the environment of a sequence of changes: that journal
writes succeed, and which records `cleanup` is called on. -/
structure Policy where
  durable : Prop
  cleanable : Run → Prop

/-- No assumption at all. -/
def Policy.any : Policy := ⟨False, fun _ => True⟩

def Env.Durable (env : Env) : Prop := ∀ runId state, ∃ mtime, env.write runId state = .ok mtime

def Policy.Honoured (policy : Policy) (env : Env) : Prop := policy.durable → env.Durable

namespace Run

/-- A workdir the record still has to release. -/
def owes (run : Run) : Bool := run.workdir.isSome && !run.workdirCleaned

/-- The record after its first collection. -/
def collected (run : Run) (result : Fields) : Run :=
  { run with
    result := some result
    state := .finished
    workdirCleaned := run.workdirCleaned || run.workdir.isSome }

/-- As `start` builds it. -/
structure Pristine (run : Run) : Prop where
  state : run.state = .running
  future : run.future = none
  result : run.result = none
  cleaned : run.cleaned = false
  workdirCleaned : run.workdirCleaned = false

end Run

inductive RunStep (policy : Policy) : Run → Run → Prop where
  | submitted {run} : run.Pristine → RunStep policy run { run with future := some .pending }
  | completed {run} (outcome) : run.isLive = true →
      RunStep policy run { run with future := some (.done outcome) }
  | collected {run} (result) : run.result = none → run.isLive = false →
      RunStep policy run (run.collected result)
  | cancelled {run} : run.isActive = true → RunStep policy run { run with state := .cancelling }
  | reverted {run} : run.state = .cancelling → RunStep policy run { run with state := .running }
  | cleaned {run} : run.cleaned = false → policy.cleanable run →
      RunStep policy run { run with cleaned := true, state := .cleaned }

/-- The journal after a change of `run` into `after`: rewritten with the new
record, or left alone when the label did not move or the write failed. -/
def Journalled (policy : Policy) (before after : Supervisor) (previous : Option RunState)
    (run : Run) : Prop :=
  (∃ env mtime, after.stateDir = before.stateDir.set (journalPath run.handle.runId)
      ⟨.json (.obj (journalRecord env run)), mtime⟩) ∨
    (after.stateDir = before.stateDir ∧ (policy.durable → previous = some run.state))

/-- A change to a record already in the table, or a prune. -/
inductive Touch (config : Config) (policy : Policy) : Supervisor → Supervisor → Prop where
  | run {before after} (runId run run') (found : before.runs.get runId = some run)
      (step : RunStep policy run run') (runs : after.runs = before.runs.set runId run')
      (journal : Journalled policy before after (some run.state) run')
      (released : after.released =
        if run.owes && !run'.owes then runId :: before.released else before.released) :
      Touch config policy before after
  | pruned {before after} (dir : pruneDir config.maxCompleted before.stateDir = .ok after.stateDir)
      (runs : after.runs = before.runs) (released : after.released = before.released) :
      Touch config policy before after

/-- Nothing carries this id yet: what a fresh `uuid4` is. -/
structure Supervisor.Fresh (supervisor : Supervisor) (runId : String) : Prop where
  unknown : supervisor.runs.get runId = none
  unreleased : runId ∉ supervisor.released
  unwritten : supervisor.stateDir.get (journalPath runId) = none

inductive Change (config : Config) (policy : Policy) : Supervisor → Supervisor → Prop where
  | touch {before after} : Touch config policy before after → Change config policy before after
  | admitted {before after} (runId run) (unknown : before.runs.get runId = none)
      (unreleased : runId ∉ before.released)
      (room : before.active < config.maxActiveRuns) (pristine : run.Pristine)
      (keyed : run.handle.runId = runId) (runs : after.runs = before.runs.set runId run)
      (journal : Journalled policy before after none run)
      (released : after.released = before.released) : Change config policy before after
  | withdrawn {before after} (runId run) (found : before.runs.get runId = some run)
      (pristine : run.Pristine) (runs : after.runs = before.runs.erase runId)
      (journal : Journalled policy before after none
        { run with state := .finished, workdirCleaned := true })
      (released : after.released =
        if run.workdir.isSome then runId :: before.released else before.released) :
      Change config policy before after

variable {config : Config} {policy : Policy} {env : Env}

@[simp] theorem run_getRun_of_found {runId : String} {run : Run} {supervisor : Supervisor}
    (found : supervisor.runs.get runId = some run) :
    Effect.run (getRun runId) supervisor = (.ok run, supervisor) := by
  simp [getRun, found]

@[simp] theorem run_getRun_of_unknown {runId : String} {supervisor : Supervisor}
    (unknown : supervisor.runs.get runId = none) :
    Effect.run (getRun runId) supervisor =
      (.error (.keyError ("unknown run " ++ reprStr runId)), supervisor) := by
  simp [getRun, unknown]

theorem run_getRun_bind {α : Type} {runId : String} {run : Run} {supervisor : Supervisor}
    (found : supervisor.runs.get runId = some run) (next : Run → Method α) :
    Effect.run (getRun runId >>= next) supervisor = Effect.run (next run) supervisor :=
  run_bind_of_ok next (run_getRun_of_found found)

theorem run_getRun_bind_unknown {α : Type} {runId : String} {supervisor : Supervisor}
    (unknown : supervisor.runs.get runId = none) (next : Run → Method α) :
    Effect.run (getRun runId >>= next) supervisor =
      (.error (.keyError ("unknown run " ++ reprStr runId)), supervisor) :=
  run_bind_of_error next (run_getRun_of_unknown unknown)

/-- The two ways `_write` ends. -/
theorem run_write (env : Env) (run : Run) (supervisor : Supervisor) :
    (∃ raised, env.write run.handle.runId run.state = .error raised ∧
      Effect.run (write env run) supervisor = (.error raised, supervisor)) ∨
    (∃ mtime, env.write run.handle.runId run.state = .ok mtime ∧
      Effect.run (write env run) supervisor = (.ok (), { supervisor with
        stateDir := supervisor.stateDir.set (journalPath run.handle.runId)
          ⟨.json (.obj (journalRecord env run)), mtime⟩ })) := by
  unfold write
  rw [run_bind, run_ofExcept]
  cases h : env.write run.handle.runId run.state with
  | error raised => exact .inl ⟨raised, rfl, rfl⟩
  | ok mtime => exact .inr ⟨mtime, rfl, rfl⟩

theorem run_write_runs (env : Env) (run : Run) (supervisor : Supervisor) :
    (Effect.run (write env run) supervisor).2.runs = supervisor.runs ∧
      (Effect.run (write env run) supervisor).2.released = supervisor.released := by
  rcases run_write env run supervisor with ⟨_, _, h⟩ | ⟨_, _, h⟩ <;> simp [h]

theorem write_journalled (honoured : policy.Honoured env) (run : Run)
    (before supervisor : Supervisor) (same : supervisor.stateDir = before.stateDir)
    (previous : Option RunState) :
    Journalled policy before (Effect.run (write env run) supervisor).2 previous run := by
  rcases run_write env run supervisor with ⟨raised, hwrite, h⟩ | ⟨mtime, _, h⟩
  · rw [h]
    refine .inr ⟨same, fun durable => ?_⟩
    obtain ⟨mtime, hok⟩ := honoured durable run.handle.runId run.state
    rw [hwrite] at hok
    cases hok
  · rw [h]
    exact .inl ⟨env, mtime, by simp [same]⟩

/-- The two ways `_prune` ends. -/
theorem run_prune (config : Config) (supervisor : Supervisor) :
    (∃ raised, pruneDir config.maxCompleted supervisor.stateDir = .error raised ∧
      Effect.run (prune config) supervisor = (.error raised, supervisor)) ∨
    (∃ dir, pruneDir config.maxCompleted supervisor.stateDir = .ok dir ∧
      Effect.run (prune config) supervisor = (.ok (), { supervisor with stateDir := dir })) := by
  unfold prune
  rw [run_get_bind, run_bind, run_ofExcept]
  cases h : pruneDir config.maxCompleted supervisor.stateDir with
  | error raised => exact .inl ⟨raised, rfl, rfl⟩
  | ok dir => exact .inr ⟨dir, rfl, rfl⟩

theorem prune_follows (supervisor : Supervisor) :
    ReflTransGen (Touch config policy) supervisor (Effect.run (prune config) supervisor).2 := by
  rcases run_prune config supervisor with ⟨_, _, h⟩ | ⟨dir, hdir, h⟩
  · rw [h]
  · rw [h]
    exact .single (.pruned hdir rfl rfl)

/-- Releasing settles the debt of the record and is logged when there is one. -/
theorem run_releaseWorkdir (env : Env) (runId : String) (run : Run) (supervisor : Supervisor) :
    ∃ workdirs, Effect.run (releaseWorkdir env runId run) supervisor =
      (.ok { run with workdirCleaned := run.workdirCleaned || run.workdir.isSome },
        { supervisor with
          workdirs := workdirs
          released := if run.owes then runId :: supervisor.released
            else supervisor.released }) := by
  cases howes : run.owes with
  | false =>
    have hsettled : { run with workdirCleaned := run.workdirCleaned || run.workdir.isSome } =
        run := by
      cases hcleaned : run.workdirCleaned <;> cases run <;> simp_all [Run.owes]
    have hpure : releaseWorkdir env runId run = pure run := by
      unfold releaseWorkdir
      split
      · rename_i path hworkdir
        rw [if_pos (by simpa [Run.owes, hworkdir] using howes)]
      · rfl
    rw [hpure, hsettled]
    exact ⟨supervisor.workdirs, rfl⟩
  | true =>
    simp only [Run.owes, Bool.and_eq_true, Bool.not_eq_true'] at howes
    obtain ⟨path, hworkdir⟩ := Option.isSome_iff_exists.mp howes.1
    refine ⟨removeTree env supervisor.workdirs path run.workdirIdentity, ?_⟩
    simp [releaseWorkdir, hworkdir, howes.2, rmtreeChecked, Except.map]

theorem write_touch (honoured : policy.Honoured env) {before supervisor : Supervisor}
    {runId : String} {run run' : Run} (found : before.runs.get runId = some run)
    (step : RunStep policy run run') (dir : supervisor.stateDir = before.stateDir)
    (runs : supervisor.runs = before.runs.set runId run')
    (released : supervisor.released =
      if run.owes && !run'.owes then runId :: before.released else before.released) :
    Touch config policy before (Effect.run (write env run') supervisor).2 := by
  obtain ⟨hruns, hreleased⟩ := run_write_runs env run' supervisor
  exact .run runId run run' found step (hruns.trans runs)
    (write_journalled honoured run' before supervisor dir (some run.state))
    (hreleased.trans released)

/-- Storing a record and journalling it is one change; what the method does
after a successful write follows. -/
theorem store_write_follows {α : Type} (honoured : policy.Honoured env)
    {before : Supervisor} {runId : String} {run run' : Run}
    (found : before.runs.get runId = some run) (step : RunStep policy run run')
    (supervisor : Supervisor)
    (dir : supervisor.stateDir = before.stateDir) (runs : supervisor.runs = before.runs)
    (released : supervisor.released =
      if run.owes && !run'.owes then runId :: before.released else before.released)
    (next : Method α) (follows : ∀ after, ReflTransGen (Touch config policy) after
      (Effect.run next after).2) :
    ReflTransGen (Touch config policy) before
      (Effect.run (do store runId run'; write env run'; next) supervisor).2 := by
  unfold store
  rw [run_modify_bind]
  apply bind_follows
  · exact .single (write_touch honoured found step dir (by simp [runs]) released)
  · intro _ after _
    exact follows after

theorem released_of_same_debt {run run' : Run} (runId : String) (supervisor : Supervisor)
    (debt : run'.owes = run.owes) :
    (if run.owes && !run'.owes then runId :: supervisor.released else supervisor.released) =
      supervisor.released := by
  cases h : run.owes <;> simp [debt, h]

theorem owes_collected (run : Run) (result : Fields) : (run.collected result).owes = false := by
  cases h : run.workdir <;> simp [Run.owes, Run.collected, h]

theorem collect_follows (honoured : policy.Honoured env) {supervisor : Supervisor}
    {runId : String} {run : Run} (found : supervisor.runs.get runId = some run)
    (settled : run.isLive = false) :
    ReflTransGen (Touch config policy) supervisor
      (Effect.run (collect config env runId) supervisor).2 := by
  unfold collect
  rw [run_getRun_bind found]
  cases hresult : run.result with
  | some result => exact .refl
  | none =>
    simp only
    rw [run_bind, run_ofExcept]
    cases hcollected : collectedResult env run with
    | error raised => exact .refl
    | ok result =>
      obtain ⟨workdirs, hrelease⟩ := run_releaseWorkdir env runId run supervisor
      simp only [run_bind_of_ok _ hrelease]
      refine store_write_follows honoured found (.collected result hresult settled) _
        ?_ ?_ ?_ _ ?_
      · rfl
      · rfl
      · simp [owes_collected]
      · intro after
        apply bind_follows (prune_follows after)
        intro _ pruned _
        exact .refl

theorem collectIfDone_follows (honoured : policy.Honoured env) (runId : String)
    (supervisor : Supervisor) :
    ReflTransGen (Touch config policy) supervisor
      (Effect.run (collectIfDone config env runId) supervisor).2 := by
  unfold collectIfDone
  cases found : supervisor.runs.get runId with
  | none =>
    rw [run_getRun_bind_unknown found]
  | some run =>
    rw [run_getRun_bind found]
    split
    · rename_i ready
      simp only [Bool.and_eq_true] at ready
      apply bind_follows
      · exact collect_follows honoured found (Run.isLive_eq_false_of_isDone ready.2)
      · intro _ after _
        exact .refl
    · exact .refl

theorem reapCompletedLocked_follows (honoured : policy.Honoured env) (supervisor : Supervisor) :
    ReflTransGen (Touch config policy) supervisor
      (Effect.run (reapCompletedLocked config env) supervisor).2 := by
  unfold reapCompletedLocked
  rw [run_get_bind]
  have : IsPreorder Supervisor (ReflTransGen (Touch config policy)) := {}
  apply forEach_follows
  intro runId _ state
  exact collectIfDone_follows honoured runId state

theorem inspect_follows (honoured : policy.Honoured env) (runId : String)
    (supervisor : Supervisor) :
    ReflTransGen (Touch config policy) supervisor
      (Effect.run (inspect config env runId) supervisor).2 := by
  unfold inspect
  apply bind_follows (collectIfDone_follows honoured runId supervisor)
  intro _ after _
  cases found : after.runs.get runId with
  | none => rw [run_getRun_bind_unknown found]
  | some run =>
    rw [run_getRun_bind found]
    exact .refl

theorem isLive_eq_false_of_awaitFuture {runId : String} {run : Run}
    (awaited : awaitFuture runId run = .ok ()) : run.isLive = false := by
  unfold awaitFuture at awaited
  unfold Run.isLive
  rcases hfuture : run.future with _ | _ | outcome
  · rfl
  · simp [hfuture] at awaited
  · rfl

theorem waitResume_follows (honoured : policy.Honoured env) (runId : String)
    (supervisor : Supervisor) :
    ReflTransGen (Touch config policy) supervisor
      (Effect.run (waitResume config env runId) supervisor).2 := by
  unfold waitResume
  cases found : supervisor.runs.get runId with
  | none => rw [run_getRun_bind_unknown found]
  | some run =>
    rw [run_getRun_bind found, run_bind, run_ofExcept]
    cases hawait : awaitFuture runId run with
    | error raised => exact .refl
    | ok _ => exact collect_follows honoured found (isLive_eq_false_of_awaitFuture hawait)

theorem cancelEnter_follows (honoured : policy.Honoured env) (runId : String)
    (supervisor : Supervisor) :
    ReflTransGen (Touch config policy) supervisor
      (Effect.run (cancelEnter env runId) supervisor).2 := by
  unfold cancelEnter
  cases found : supervisor.runs.get runId with
  | none => rw [run_getRun_bind_unknown found]
  | some run =>
    rw [run_getRun_bind found]
    split
    · exact .refl
    · rename_i hactive
      split
      · exact .refl
      · have step : RunStep policy run { run with state := .cancelling } :=
          .cancelled (by simpa using hactive)
        refine store_write_follows honoured found step supervisor rfl rfl ?_ _ ?_
        · exact (released_of_same_debt runId supervisor rfl).symm
        · intro after
          exact .refl

theorem cancelReturn_follows (honoured : policy.Honoured env) (runId : String)
    (answer : Except Exc Unit) (supervisor : Supervisor) :
    ReflTransGen (Touch config policy) supervisor
      (Effect.run (cancelReturn env runId answer) supervisor).2 := by
  unfold cancelReturn
  cases answer with
  | ok _ => exact .refl
  | error exception =>
    simp only
    split
    · cases found : supervisor.runs.get runId with
      | none => rw [run_getRun_bind_unknown found]
      | some run =>
        rw [run_getRun_bind found]
        split
        · rename_i hcancelling
          have step : RunStep policy run { run with state := .running } := .reverted hcancelling
          refine store_write_follows honoured found step supervisor rfl rfl ?_ _ ?_
          · exact (released_of_same_debt runId supervisor rfl).symm
          · intro after
            exact .refl
        · exact .refl
    · exact .refl

theorem cleanup_follows (honoured : policy.Honoured env) (runId : String)
    (answer : Except Exc Unit) (supervisor : Supervisor)
    (allowed : ∀ run, supervisor.runs.get runId = some run → run.cleaned = false →
      policy.cleanable run) :
    ReflTransGen (Touch config policy) supervisor
      (Effect.run (cleanup config env runId answer) supervisor).2 := by
  unfold cleanup
  cases found : supervisor.runs.get runId with
  | none => rw [run_getRun_bind_unknown found]
  | some run =>
    rw [run_getRun_bind found]
    split
    · exact .refl
    · rename_i hcleaned
      have hcleaned : run.cleaned = false := by simpa using hcleaned
      have step : RunStep policy run { run with cleaned := true, state := .cleaned } :=
        .cleaned hcleaned (allowed run found hcleaned)
      rw [run_bind, run_ofExcept]
      cases (if run.provider.capabilities.cleanup then answer else .ok ()) with
      | error raised => exact .refl
      | ok _ =>
        refine store_write_follows honoured found step supervisor rfl rfl ?_ _ ?_
        · exact (released_of_same_debt runId supervisor rfl).symm
        · intro after
          apply bind_follows (prune_follows after)
          intro _ pruned _
          exact .refl

theorem complete_follows (runId : String) (outcome : Outcome) (supervisor : Supervisor) :
    ReflTransGen (Touch config policy) supervisor
      (Effect.run (complete runId outcome) supervisor).2 := by
  unfold complete
  cases found : supervisor.runs.get runId with
  | none => rw [run_getRun_bind_unknown found]
  | some run =>
    rw [run_getRun_bind found]
    split
    · rename_i hlive
      refine .single (.run runId run _ found (.completed outcome hlive) rfl ?_ ?_)
      · exact .inr ⟨rfl, fun _ => rfl⟩
      · exact (released_of_same_debt runId supervisor rfl).symm
    · exact .refl

/-- An id without a record stays without one, and nothing is released for it. -/
theorem Touch.keeps_absent {before after : Supervisor} (touch : Touch config policy before after)
    {runId : String} (unknown : before.runs.get runId = none) (unreleased : runId ∉ before.released) :
    after.runs.get runId = none ∧ runId ∉ after.released := by
  cases touch with
  | pruned dir runs released => exact ⟨by rw [runs, unknown], by rwa [released]⟩
  | run other run run' found step runs journal released =>
    have hne : runId ≠ other := by
      intro same
      rw [same, found] at unknown
      cases unknown
    refine ⟨by rw [runs, Dict.get_set_other _ _ hne, unknown], ?_⟩
    rw [released]
    split
    · exact List.not_mem_cons_of_ne_of_not_mem hne unreleased
    · exact unreleased

theorem touches_keep_absent {before after : Supervisor}
    (touches : ReflTransGen (Touch config policy) before after) {runId : String}
    (unknown : before.runs.get runId = none) (unreleased : runId ∉ before.released) :
    after.runs.get runId = none ∧ runId ∉ after.released := by
  induction touches with
  | refl => exact ⟨unknown, unreleased⟩
  | tail _ touch ih => exact touch.keeps_absent ih.1 ih.2

theorem touches_are_changes {before after : Supervisor}
    (touches : ReflTransGen (Touch config policy) before after) :
    ReflTransGen (Change config policy) before after :=
  ReflTransGen.mono (fun _ _ touch => .touch touch) _ _ touches

theorem newRun_pristine (env : Env) (call : StartCall) (provider : Provider) :
    (newRun env call provider).Pristine :=
  ⟨rfl, rfl, rfl, rfl, rfl⟩

/-- Withdrawing the record of a refused submission is one change. -/
theorem undoStart_follows (honoured : policy.Honoured env) (call : StartCall)
    (provider : Provider) (supervisor : Supervisor)
    (found : supervisor.runs.get call.uuid = some (newRun env call provider)) :
    Change config policy supervisor
      (Effect.run (undoStart env call (newRun env call provider)) supervisor).2 := by
  set run := newRun env call provider with hrun
  set withdrawn : Run := { run with state := .finished, workdirCleaned := true } with hwithdrawn
  obtain ⟨workdirs, hundo⟩ : ∃ workdirs,
      Effect.run (undoStart env call run) supervisor =
        Effect.run (write env withdrawn) { supervisor with
          runs := supervisor.runs.erase call.uuid
          workdirs := workdirs
          released := if run.workdir.isSome then call.uuid :: supervisor.released
            else supervisor.released } := by
    unfold undoStart
    rw [run_modify_bind]
    cases hworkdir : call.workdir with
    | none => exact ⟨supervisor.workdirs, by simp [hrun, newRun, hworkdir, hwithdrawn]⟩
    | some path =>
      exact ⟨removeTree env supervisor.workdirs path call.workdirIdentity,
        by simp [hrun, newRun, hworkdir, hwithdrawn, rmtreeChecked]⟩
  rw [hundo]
  obtain ⟨hruns, hreleased⟩ := run_write_runs env withdrawn { supervisor with
    runs := supervisor.runs.erase call.uuid
    workdirs := workdirs
    released := if run.workdir.isSome then call.uuid :: supervisor.released
      else supervisor.released }
  exact .withdrawn call.uuid run found (newRun_pristine env call provider) hruns
    (write_journalled honoured withdrawn supervisor _ (by rfl) none) hreleased

theorem startLocked_follows (honoured : policy.Honoured env) (call : StartCall)
    (provider : Provider) (supervisor : Supervisor)
    (unknown : supervisor.runs.get call.uuid = none)
    (unreleased : call.uuid ∉ supervisor.released) :
    ReflTransGen (Change config policy) supervisor
      (Effect.run (startLocked config env call provider) supervisor).2 := by
  have hreap := @reapCompletedLocked_follows config policy env honoured supervisor
  unfold startLocked
  apply bind_follows (touches_are_changes hreap)
  intro _ reaped hreaped
  rw [hreaped] at hreap
  obtain ⟨hunknown, hunreleased⟩ := touches_keep_absent hreap unknown unreleased
  rw [run_get_bind]
  split
  · exact .refl
  · rename_i hroom
    set run := newRun env call provider with hrun
    have hadmit : Change config policy reaped
        (Effect.run (write env run) { reaped with runs := reaped.runs.set call.uuid run }).2 := by
      obtain ⟨hruns, hreleased⟩ := run_write_runs env run
        { reaped with runs := reaped.runs.set call.uuid run }
      exact .admitted call.uuid run hunknown hunreleased (Nat.lt_of_not_le hroom)
        (newRun_pristine env call provider) rfl hruns
        (write_journalled honoured run reaped _ (by rfl) none) hreleased
    unfold store
    rw [run_modify_bind]
    apply bind_follows (.single hadmit)
    intro _ written hwritten
    have hfound : written.runs.get call.uuid = some run := by
      have := (run_write_runs env run { reaped with runs := reaped.runs.set call.uuid run }).1
      rw [hwritten] at this
      rw [this]
      exact Dict.get_set_same _ _ _
    cases hsubmit : call.submit with
    | ok _ =>
      refine .single (.touch (.run call.uuid run _ hfound
        (.submitted (newRun_pristine env call provider)) rfl ?_ ?_))
      · exact .inr ⟨rfl, fun _ => rfl⟩
      · exact (released_of_same_debt call.uuid written rfl).symm
    | error exception =>
      simp only
      split
      · apply bind_follows (.single (undoStart_follows honoured call provider written hfound))
        intro _ after _
        exact .refl
      · exact .refl

theorem start_follows (honoured : policy.Honoured env) (call : StartCall)
    (supervisor : Supervisor) (unknown : supervisor.runs.get call.uuid = none)
    (unreleased : call.uuid ∉ supervisor.released) :
    ReflTransGen (Change config policy) supervisor
      (Effect.run (start config env call) supervisor).2 := by
  unfold start
  rw [run_bind, run_ofExcept]
  cases config.registry.select call.providerId (some call.spec) with
  | error raised => exact .refl
  | ok provider => exact startLocked_follows honoured call provider supervisor unknown unreleased

end CodeCalc.Supervision
