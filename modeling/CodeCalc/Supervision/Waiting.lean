import CodeCalc.Supervision.Retention
import CodeCalc.Supervision.Workdir

/-! Waiting for a run that is done, and the tool that polls it.  `wait` tells
"not finished yet" from "finished with an error" by the class of what
`future.result` raises, and a body is free to raise `TimeoutError` itself: then
the run is settled, `inspect` says so, and no caller ever gets the result. -/
namespace CodeCalc.Supervision
open Lib Lib.Effect Errors Relation

variable {config : Config} {policy : Policy} {env : Env}

/-- What a collection makes of the outcome without raising in its turn. -/
def Outcome.reportable : Outcome → Bool
  | .returned (.ok _) => true
  | .returned (.error exception) => exception.reportable
  | .raised exception => exception.reportable

/-- The body ended in a `TimeoutError`. -/
def Outcome.timedOut : Outcome → Bool
  | .returned _ => false
  | .raised exception => exception.isInstance .timeoutError

def Env.Receipts (env : Env) : Prop :=
  ∀ run result exception, env.attachReceipt run result = .error exception →
    exception.reportable = true

theorem Run.reportable_of_outcome {run : Run} {outcome : Outcome}
    (done : run.future = some (.done outcome)) (reportable : outcome.reportable = true)
    (receipts : env.Receipts) : run.Reportable env := by
  intro exception raised
  unfold receiptedResult at raised
  rw [done] at raised
  match outcome with
  | .raised body =>
    cases raised
    exact reportable
  | .returned (.error body) =>
    cases raised
    exact reportable
  | .returned (.ok result) => exact receipts run result exception raised

/-- No other file stops the prune that follows a collection. -/
def OthersReadable (dir : StateDir) (runId : String) : Prop :=
  ∀ name file, dir.get name = some file → name ≠ journalPath runId →
    file.content.wellFormed = true

theorem readable_set_iff (dir : StateDir) (runId : String) {content : Content}
    (good : content.wellFormed = true) (mtime : ℚ) :
    Readable (dir.set (journalPath runId) ⟨content, mtime⟩) ↔ OthersReadable dir runId := by
  constructor
  · intro readable name file found different
    exact readable name file (by rw [Dict.get_set_other _ _ different, found])
  · intro others name file
    rw [Dict.get_set]
    split
    · intro same
      cases same
      exact good
    · rename_i different
      exact fun found => others name file found different

theorem write_prune_ok_iff (config : Config) (run : Run) (value result : Fields)
    (supervisor : Supervisor) :
    (Effect.run (do
        write env run
        prune config
        pure value) supervisor).1 = .ok result ↔
      value = result ∧ (∃ mtime, env.write run.handle.runId run.state = .ok mtime) ∧
        OthersReadable supervisor.stateDir run.handle.runId := by
  rcases run_write env run supervisor with ⟨raised, hraised, hwrite⟩ | ⟨mtime, hmtime, hwrite⟩
  · rw [run_bind_of_error _ hwrite, hraised]
    simp
  · rw [run_bind_of_ok _ hwrite, hmtime,
      ← readable_set_iff _ _ (wellFormed_journalRecord env run) mtime, Readable,
      ← pruneDir_ok_iff config.maxCompleted]
    rcases run_prune config { supervisor with
        stateDir := supervisor.stateDir.set (journalPath run.handle.runId)
          ⟨.json (.obj (journalRecord env run)), mtime⟩ } with
      ⟨raised, hraised, hprune⟩ | ⟨pruned, hpruned, hprune⟩
    · rw [run_bind_of_error _ hprune]
      simp [hraised]
    · rw [run_bind_of_ok _ hprune]
      simp [hpruned]

/-- A first collection returns exactly when there is something to store and
the journal takes it. -/
theorem run_collect_ok_iff (config : Config) {supervisor : Supervisor} {runId : String} {run : Run}
    (found : supervisor.runs.get runId = some run) (uncollected : run.result = none)
    (result : Fields) :
    (Effect.run (collect config env runId) supervisor).1 = .ok result ↔
      collectedResult env run = .ok result ∧
        (∃ mtime, env.write run.handle.runId .finished = .ok mtime) ∧
        OthersReadable supervisor.stateDir run.handle.runId := by
  cases hcollected : collectedResult env run with
  | error raised =>
    rw [run_collect_of_error config found uncollected hcollected]
    simp
  | ok first =>
    obtain ⟨stored, -, hdir, -, hcollect⟩ := run_collect_first config found uncollected hcollected
    rw [hcollect, write_prune_ok_iff, hdir, Except.ok.injEq]
    rfl

/-- `wait` hands over the one result the record then holds, terminally. -/
def WaitReturns (config : Config) (env : Env) (runId : String) (supervisor : Supervisor) : Prop :=
  ∃ result run, (Effect.run (waitResume config env runId) supervisor).1 = .ok result ∧
    (Effect.run (waitResume config env runId) supervisor).2.runs.get runId = some run ∧
    run.result = some result ∧ run.state.isTerminal = true

/-- The exact condition for a run whose worker is done. -/
def Collectable (env : Env) (runId : String) (run : Run) (dir : StateDir) : Prop :=
  run.result.isSome = true ∨
    (run.Reportable env ∧ (∃ mtime, env.write runId .finished = .ok mtime) ∧
      OthersReadable dir runId)

theorem awaitFuture_of_done {runId : String} {run : Run} {outcome : Outcome}
    (done : run.future = some (.done outcome))
    (body : ∀ exception, outcome = .raised exception → exception.isInstance .exception = true) :
    awaitFuture runId run = .ok () ↔ outcome.timedOut = false := by
  unfold awaitFuture
  rw [done]
  cases outcome with
  | returned asDict => simp [Outcome.timedOut]
  | raised exception =>
    have hclass := body exception rfl
    cases htimeout : exception.isInstance .timeoutError <;> simp [Outcome.timedOut, htimeout, hclass]

theorem waitReturns_iff {supervisor : Supervisor} (sound : supervisor.Sound) {runId : String}
    {run : Run} {outcome : Outcome} (found : supervisor.runs.get runId = some run)
    (done : run.future = some (.done outcome))
    (body : ∀ exception, outcome = .raised exception → exception.isInstance .exception = true) :
    WaitReturns config env runId supervisor ↔
      outcome.timedOut = false ∧ Collectable env runId run supervisor.stateDir := by
  obtain ⟨hsound, hkey⟩ := sound runId run found
  rw [← awaitFuture_of_done done body]
  unfold WaitReturns
  cases awaited : awaitFuture runId run with
  | error raised =>
    have hwait : Effect.run (waitResume config env runId) supervisor = (.error raised, supervisor) := by
      unfold waitResume
      rw [run_getRun_bind found, run_bind, run_ofExcept, awaited]
    rw [hwait]
    simp
  | ok _ =>
    have hwait : Effect.run (waitResume config env runId) supervisor =
        Effect.run (collect config env runId) supervisor := by
      unfold waitResume
      rw [run_getRun_bind found, run_bind, run_ofExcept, awaited]
    rw [hwait]
    simp only [true_and]
    unfold Collectable
    cases hresult : run.result with
    | some result =>
      have hcollect : Effect.run (collect config env runId) supervisor =
          (.ok result, supervisor) := by
        unfold collect
        rw [run_getRun_bind found, hresult]
        rfl
      have hterminal : run.state.isTerminal = true := by
        simpa [Run.isActive, RunState.isTerminal] using hsound.terminal (by simp [hresult])
      rw [hcollect]
      simpa using ⟨run, found, hresult, hterminal⟩
    | none =>
      simp only [Option.isSome_none, Bool.false_eq_true, false_or, ← hkey,
        ← collectedResult_ok_iff]
      constructor
      · rintro ⟨result, record, hok, -⟩
        obtain ⟨hcollected, hwritten, hothers⟩ := (run_collect_ok_iff config
          (by rw [hkey, found]) hresult result).mp hok
        exact ⟨⟨result, hcollected⟩, hwritten, hothers⟩
      · rintro ⟨⟨result, hcollected⟩, hwritten, hothers⟩
        have hfound : supervisor.runs.get run.handle.runId = some run := by rw [hkey, found]
        refine ⟨result, run.collected result, (run_collect_ok_iff config hfound hresult result).mpr
          ⟨hcollected, hwritten, hothers⟩, ?_, rfl, rfl⟩
        rw [(run_collect_of_ok config hfound hresult hcollected).1, Dict.get_set_same]

end CodeCalc.Supervision
