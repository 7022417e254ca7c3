import CodeCalc.Supervision.Admission
import CodeCalc.Supervision.Settlement

/-! What a `start` that raises leaves behind.  Selection, the reaper, the cap
and the pool all leave the table as a bare reaping would; the first journal
write of the new record does not, because the record is in the table by then
and nothing takes it out again.

That the rest of the service cannot notice a withdrawn start is proved by
agreement: no method reads anything of the supervisor but its table and the
files a prune would choke on. -/
namespace CodeCalc.Supervision
open Lib Lib.Effect Relation

variable {config : Config} {policy : Policy} {env : Env}

/-- The files on which a prune raises, in directory order. -/
def malformed (dir : StateDir) : List (String × JournalFile) :=
  dir.entries.filter fun file => !file.2.content.wellFormed

/-- Two supervisors that no caller can tell apart. -/
structure Supervisor.Alike (left right : Supervisor) : Prop where
  runs : left.runs = right.runs
  malformed : malformed left.stateDir = malformed right.stateDir

theorem malformed_eq_nil_iff (dir : StateDir) :
    malformed dir = [] ↔ ∀ file ∈ dir.entries, file.2.content.wellFormed = true := by
  simp [malformed, List.filter_eq_nil_iff]

theorem pruneCandidates_of_malformed (files : List (String × JournalFile))
    (file : String × JournalFile) (rest : List (String × JournalFile))
    (split : files.filter (fun file => !file.2.content.wellFormed) = file :: rest) :
    ∀ raised, stateIn terminalNames file.2.content = .error raised →
      pruneCandidates files = .error raised := by
  intro raised hraised
  induction files with
  | nil => simp at split
  | cons head tail ih =>
    cases hgood : head.2.content.wellFormed with
    | false =>
      have hhead : head = file := by
        simp only [List.filter_cons, hgood, Bool.not_false, if_true, List.cons.injEq] at split
        exact split.1
      simp [pruneCandidates, hhead, hraised]
    | true =>
      obtain ⟨answer, hanswer⟩ := (stateIn_ok_iff terminalNames head.2.content).mpr hgood
      have htail := ih (by simpa [List.filter_cons, hgood] using split)
      simp [pruneCandidates, hanswer, htail]

theorem pruneDir_of_alike {left right : StateDir} (same : malformed left = malformed right)
    (limit : Nat) :
    (∃ raised, pruneDir limit left = .error raised ∧ pruneDir limit right = .error raised) ∨
      (malformed left = [] ∧ (∃ after, pruneDir limit left = .ok after) ∧
        ∃ after, pruneDir limit right = .ok after) := by
  cases hleft : malformed left with
  | nil =>
    refine .inr ⟨rfl, ?_, ?_⟩
    · rw [pruneDir, pruneCandidates_eq _ ((malformed_eq_nil_iff left).mp hleft)]
      exact ⟨_, rfl⟩
    · rw [pruneDir, pruneCandidates_eq _ ((malformed_eq_nil_iff right).mp (same ▸ hleft))]
      exact ⟨_, rfl⟩
  | cons file rest =>
    have hbad : file.2.content.wellFormed = false := by
      have : file ∈ malformed left := by simp [hleft]
      simpa [malformed] using (List.mem_filter.mp this).2
    cases hstate : stateIn terminalNames file.2.content with
    | ok answer =>
      have := (stateIn_ok_iff terminalNames file.2.content).mp ⟨answer, hstate⟩
      rw [hbad] at this
      cases this
    | error raised =>
      refine .inl ⟨raised, ?_, ?_⟩
      · rw [pruneDir, pruneCandidates_of_malformed _ file rest hleft raised hstate]
      · rw [pruneDir, pruneCandidates_of_malformed _ file rest (same.symm.trans hleft) raised hstate]

/-- Writing a record takes its own file off the list and no other. -/
theorem malformed_set (dir : StateDir) (path : String) {content : Content}
    (good : content.wellFormed = true) (mtime : ℚ) :
    malformed (dir.set path ⟨content, mtime⟩) = (malformed dir).filter fun entry => decide (entry.1 ≠ path) := by
  obtain ⟨entries, distinct⟩ := dir
  simp only [malformed, Dict.set]
  induction entries with
  | nil => simp [setEntry, good]
  | cons entry rest ih =>
    obtain ⟨head, previous⟩ := entry
    simp only [List.map_cons, List.nodup_cons] at distinct
    unfold setEntry
    by_cases h : head = path
    · have hrest : ∀ other ∈ rest, other.1 ≠ path := by
        intro other member same
        exact distinct.1 (List.mem_map.mpr ⟨other, member, by rw [same, h]⟩)
      have hkept : (rest.filter fun other => !other.2.content.wellFormed).filter
          (fun other => decide (other.1 ≠ path)) =
            rest.filter fun other => !other.2.content.wellFormed := by
        refine List.filter_eq_self.mpr fun other member => ?_
        simpa using hrest other (List.mem_of_mem_filter member)
      cases hgood : previous.content.wellFormed <;>
        simp only [List.filter_cons, good, hgood, Bool.not_true, Bool.not_false,
          if_true, if_false, Bool.false_eq_true, h, hkept, ne_eq, not_true, decide_false]
    · have := ih distinct.2
      cases hgood : previous.content.wellFormed <;> simp [h, hgood, this]

section Agreement

variable (config env) (runId : String)

theorem getRun_agrees : Agrees Supervisor.Alike (getRun runId) := by
  intro left right alike
  unfold getRun
  rw [run_get_bind, run_get_bind, alike.runs]
  cases right.runs.get runId <;> exact ⟨rfl, alike⟩

theorem store_agrees (run : Run) : Agrees Supervisor.Alike (store runId run) :=
  agrees_modify fun _ _ alike => ⟨by simp only [alike.runs], alike.malformed⟩

theorem write_agrees (run : Run) : Agrees Supervisor.Alike (write env run) :=
  agrees_bind (agrees_ofExcept _) fun mtime => agrees_modify fun left right alike =>
    ⟨alike.runs, by
      simp only [malformed_set _ _ (wellFormed_journalRecord env run) mtime, alike.malformed]⟩

theorem prune_agrees : Agrees Supervisor.Alike (prune config) := by
  intro left right alike
  unfold prune
  rw [run_get_bind, run_get_bind, run_bind, run_bind, run_ofExcept, run_ofExcept]
  rcases pruneDir_of_alike alike.malformed config.maxCompleted with
    ⟨raised, hleft, hright⟩ | ⟨hnone, ⟨leftDir, hleft⟩, ⟨rightDir, hright⟩⟩
  · rw [hleft, hright]
    exact ⟨rfl, alike⟩
  · rw [hleft, hright]
    refine ⟨rfl, alike.runs, ?_⟩
    have hclean {before after : StateDir} (none : malformed before = [])
        (pruned : pruneDir config.maxCompleted before = .ok after) : malformed after = [] := by
      rw [malformed_eq_nil_iff] at none ⊢
      intro file member
      rw [pruneDir, pruneCandidates_eq _ none] at pruned
      cases pruned
      exact none file (List.mem_of_mem_filter member)
    simp only [run_modify]
    rw [hclean hnone hleft, hclean (alike.malformed ▸ hnone) hright]

theorem rmtreeChecked_agrees (path : String) (created : Option Identity) :
    Agrees Supervisor.Alike (rmtreeChecked env runId path created) :=
  agrees_modify fun _ _ alike => ⟨alike.runs, alike.malformed⟩

theorem releaseWorkdir_agrees (run : Run) :
    Agrees Supervisor.Alike (releaseWorkdir env runId run) := by
  unfold releaseWorkdir
  split
  · split
    · exact agrees_pure _
    · exact agrees_bind (rmtreeChecked_agrees env runId _ _) fun _ => agrees_pure _
  · exact agrees_pure _

theorem collect_agrees : Agrees Supervisor.Alike (collect config env runId) := by
  refine agrees_bind (getRun_agrees runId) fun run => ?_
  cases run.result with
  | some result => exact agrees_pure _
  | none =>
    refine agrees_bind (agrees_ofExcept _) fun result => ?_
    refine agrees_bind (releaseWorkdir_agrees env runId run) fun released => ?_
    refine agrees_bind (store_agrees runId _) fun _ => ?_
    refine agrees_bind (write_agrees env _) fun _ => ?_
    exact agrees_bind (prune_agrees config) fun _ => agrees_pure _

theorem collectIfDone_agrees : Agrees Supervisor.Alike (collectIfDone config env runId) := by
  refine agrees_bind (getRun_agrees runId) fun run => ?_
  split
  · exact agrees_bind (collect_agrees config env runId) fun _ => agrees_pure _
  · exact agrees_pure _

theorem reapCompletedLocked_agrees :
    Agrees Supervisor.Alike (reapCompletedLocked config env) := by
  intro left right alike
  unfold reapCompletedLocked
  rw [run_get_bind, run_get_bind, alike.runs]
  exact agrees_forEach (collectIfDone_agrees config env) _ left right alike

theorem inspect_agrees : Agrees Supervisor.Alike (inspect config env runId) :=
  agrees_bind (collectIfDone_agrees config env runId) fun _ =>
    agrees_bind (getRun_agrees runId) fun _ => agrees_pure _

theorem undoStart_agrees (call : StartCall) (run : Run) :
    Agrees Supervisor.Alike (undoStart env call run) := by
  refine agrees_bind (agrees_modify fun _ _ alike => ⟨by simp only [alike.runs], alike.malformed⟩)
    fun _ => ?_
  cases call.workdir with
  | none => exact write_agrees env _
  | some path =>
    exact agrees_bind (rmtreeChecked_agrees env _ _ _) fun _ => write_agrees env _

theorem startLocked_agrees (call : StartCall) (provider : Provider) :
    Agrees Supervisor.Alike (startLocked config env call provider) := by
  refine agrees_bind (reapCompletedLocked_agrees config env) fun _ => ?_
  intro left right alike
  rw [run_get_bind, run_get_bind]
  have hactive : left.active = right.active := by simp only [Supervisor.active, alike.runs]
  rw [hactive]
  split
  · exact agrees_raise _ left right alike
  · refine agrees_bind (store_agrees _ _) (fun _ => ?_) left right alike
    refine agrees_bind (write_agrees env _) fun _ => ?_
    cases call.submit with
    | ok _ => exact agrees_bind (store_agrees _ _) fun _ => agrees_pure _
    | error exception =>
      simp only
      split
      · exact agrees_bind (undoStart_agrees env call _) fun _ => agrees_raise _
      · exact agrees_raise _

theorem start_agrees (call : StartCall) : Agrees Supervisor.Alike (start config env call) :=
  agrees_bind (agrees_ofExcept _) fun provider => startLocked_agrees config env call provider

theorem waitResume_agrees : Agrees Supervisor.Alike (waitResume config env runId) :=
  agrees_bind (getRun_agrees runId) fun _ =>
    agrees_bind (agrees_ofExcept _) fun _ => collect_agrees config env runId

theorem cancelEnter_agrees : Agrees Supervisor.Alike (cancelEnter env runId) := by
  refine agrees_bind (getRun_agrees runId) fun run => ?_
  split
  · exact agrees_pure _
  · split
    · exact agrees_raise _
    · refine agrees_bind (store_agrees runId _) fun _ => ?_
      exact agrees_bind (write_agrees env _) fun _ => agrees_pure _

theorem cancelReturn_agrees (answer : Except Exc Unit) :
    Agrees Supervisor.Alike (cancelReturn env runId answer) := by
  cases answer with
  | ok _ => exact agrees_pure _
  | error exception =>
    unfold cancelReturn
    simp only
    split
    · refine agrees_bind (getRun_agrees runId) fun run => ?_
      split
      · refine agrees_bind (store_agrees runId _) fun _ => ?_
        exact agrees_bind (write_agrees env _) fun _ => agrees_raise _
      · exact agrees_raise _
    · exact agrees_raise _

theorem cleanup_agrees (answer : Except Exc Unit) :
    Agrees Supervisor.Alike (cleanup config env runId answer) := by
  refine agrees_bind (getRun_agrees runId) fun run => ?_
  split
  · exact agrees_pure _
  · refine agrees_bind (agrees_ofExcept _) fun _ => ?_
    refine agrees_bind (store_agrees runId _) fun _ => ?_
    refine agrees_bind (write_agrees env _) fun _ => ?_
    exact agrees_bind (prune_agrees config) fun _ => agrees_pure _

theorem complete_agrees (outcome : Outcome) :
    Agrees Supervisor.Alike (complete runId outcome) := by
  refine agrees_bind (getRun_agrees runId) fun run => ?_
  split
  · exact store_agrees runId _
  · exact agrees_pure _

end Agreement

/-- What the callers are told over a script. -/
def replies (config : Config) (system : System) : List (Env × Action) → List Response
  | [] => []
  | (env, action) :: rest =>
      (exec config env system action).1 :: replies config (exec config env system action).2 rest

structure System.Alike (left right : System) : Prop where
  supervisor : left.supervisor.Alike right.supervisor
  threads : left.threads = right.threads

theorem System.Alike.goto {left right : System} (alike : left.Alike right) (thread : Nat) (pc : Pc) :
    (left.goto thread pc).Alike (right.goto thread pc) :=
  ⟨alike.supervisor, by simp only [System.goto, alike.threads]⟩

theorem System.Alike.call {α : Type} {left right : System} (alike : left.Alike right)
    {method : Method α} (agrees : Agrees Supervisor.Alike method) (reply : α → Option Fields) :
    (left.call method reply).1 = (right.call method reply).1 ∧
      (left.call method reply).2.Alike (right.call method reply).2 := by
  obtain ⟨houtcome, hafter⟩ := agrees _ _ alike.supervisor
  exact ⟨by simp only [System.call, houtcome], hafter, alike.threads⟩

theorem exec_alike (config : Config) (env : Env) {left right : System} (alike : left.Alike right)
    (action : Action) :
    (exec config env left action).1 = (exec config env right action).1 ∧
      (exec config env left action).2.Alike (exec config env right action).2 := by
  cases action with
  | start call => exact alike.call (start_agrees config env call) _
  | inspect runId => exact alike.call (inspect_agrees config env runId) _
  | waitEnter thread runId =>
    obtain ⟨hreply, hafter⟩ := alike.call (getRun_agrees runId) fun _ => none
    simp only [exec]
    rcases hleft : left.call (getRun runId) fun _ => none with ⟨reply, afterLeft⟩
    rcases hright : right.call (getRun runId) fun _ => none with ⟨reply', afterRight⟩
    rw [hleft, hright] at hreply hafter
    cases hreply
    cases reply with
    | error raised => exact ⟨rfl, hafter⟩
    | ok reply => exact ⟨rfl, hafter.goto thread _⟩
  | waitEnd thread =>
    simp only [exec, alike.threads]
    split
    · rename_i runId _
      obtain ⟨hreply, hafter⟩ := alike.call (waitResume_agrees config env runId) some
      exact ⟨hreply, hafter.goto thread _⟩
    · exact ⟨rfl, alike⟩
  | cancelEnter thread runId =>
    obtain ⟨hreply, hafter⟩ := alike.call (cancelEnter_agrees env runId) id
    simp only [exec]
    rcases hleft : left.call (cancelEnter env runId) id with ⟨reply, afterLeft⟩
    rcases hright : right.call (cancelEnter env runId) id with ⟨reply', afterRight⟩
    rw [hleft, hright] at hreply hafter
    cases hreply
    rcases reply with raised | _ | reply
    · exact ⟨rfl, hafter⟩
    · exact ⟨rfl, hafter.goto thread _⟩
    · exact ⟨rfl, hafter⟩
  | cancelReturn thread answer =>
    simp only [exec, alike.threads]
    split
    · rename_i runId _
      obtain ⟨hreply, hafter⟩ := alike.call (cancelReturn_agrees env runId answer) some
      exact ⟨hreply, hafter.goto thread _⟩
    · exact ⟨rfl, alike⟩
  | cleanup runId answer => exact alike.call (cleanup_agrees config env runId answer) _
  | complete runId outcome => exact alike.call (complete_agrees runId outcome) _

theorem replies_alike (config : Config) (script : List (Env × Action)) {left right : System}
    (alike : left.Alike right) : replies config left script = replies config right script := by
  induction script generalizing left right with
  | nil => rfl
  | cons head rest ih =>
    obtain ⟨hreply, hafter⟩ := exec_alike config head.1 alike head.2
    simp only [replies, hreply, ih hafter]

theorem Touch.keeps_fresh {before after : Supervisor} (touch : Touch config policy before after)
    (sound : before.Sound) {runId : String} (fresh : before.Fresh runId) : after.Fresh runId := by
  obtain ⟨hunknown, hunreleased⟩ := touch.keeps_absent fresh.unknown fresh.unreleased
  refine ⟨hunknown, hunreleased, ?_⟩
  cases touch with
  | pruned dir runs released =>
    unfold pruneDir at dir
    split at dir
    · cases dir
    · rw [← Except.ok.inj dir, Dict.get_filter, fresh.unwritten]
      rfl
  | run other run run' found step runs journal released =>
    rcases journal with ⟨env, mtime, written⟩ | ⟨same, -⟩
    · have hne : journalPath runId ≠ journalPath run'.handle.runId := by
        intro same
        have hother : runId = other := by
          rw [journalPath_injective same, step.handle_eq, (sound other run found).2]
        rw [← hother, fresh.unknown] at found
        cases found
      rw [written, Dict.get_set_other _ _ hne, fresh.unwritten]
    · rw [same, fresh.unwritten]

theorem touches_keep_fresh {before after : Supervisor}
    (touches : ReflTransGen (Touch config policy) before after) (sound : before.Sound)
    {runId : String} (fresh : before.Fresh runId) : after.Sound ∧ after.Fresh runId := by
  induction touches with
  | refl => exact ⟨sound, fresh⟩
  | tail _ touch ih => exact ⟨(Change.touch touch).keeps_sound ih.1, touch.keeps_fresh ih.1 ih.2⟩

theorem touches_active_le {before after : Supervisor}
    (touches : ReflTransGen (Touch config policy) before after) : after.active ≤ before.active := by
  induction touches with
  | refl => exact Nat.le_refl _
  | tail _ touch ih =>
    refine Nat.le_trans ?_ ih
    cases touch with
    | pruned dir runs released => rw [Supervisor.active, runs, ← Supervisor.active]
    | run runId run run' found step runs journal released =>
      rw [Supervisor.active, runs]
      exact active_set_le found step.isActive_of_isActive

/-- The call gets as far as putting its record in the table: a provider is
found, the reaper returns, and there is room. -/
def Admits (config : Config) (env : Env) (call : StartCall) (supervisor : Supervisor) : Prop :=
  ∃ provider reaped, config.registry.select call.providerId (some call.spec) = .ok provider ∧
    Effect.run (reapCompletedLocked config env) supervisor = (.ok (), reaped) ∧
    reaped.active < config.maxActiveRuns

/-- The journal refuses the first record of the run, or the pool raises what no
`except Exception` catches. -/
def BreaksOff (env : Env) (call : StartCall) : Prop :=
  (∃ raised, env.write call.uuid .running = .error raised) ∨
    ∃ raised, call.submit = .error raised ∧ raised.isInstance .exception = false

/-- The failed call is forgotten: no record, no slot, and whatever is asked
later is answered as if it had not been made, or had only reaped. -/
structure StartUndone (config : Config) (env : Env) (call : StartCall) (before : Supervisor) :
    Prop where
  forgotten : (Effect.run (start config env call) before).2.runs.get call.uuid = none
  active : (Effect.run (start config env call) before).2.active ≤ before.active
  unnoticed : ∃ base, (base = before ∨
      base = (Effect.run (reapCompletedLocked config env) before).2) ∧
    ∀ threads script, replies config ⟨(Effect.run (start config env call) before).2, threads⟩ script =
      replies config ⟨base, threads⟩ script

theorem run_start_of_refused {call : StartCall} {supervisor : Supervisor}
    (refused : ¬ Admits config env call supervisor) :
    (Effect.run (start config env call) supervisor).2 = supervisor ∨
      (Effect.run (start config env call) supervisor).2 =
        (Effect.run (reapCompletedLocked config env) supervisor).2 := by
  unfold start
  rw [run_bind, run_ofExcept]
  cases hselect : config.registry.select call.providerId (some call.spec) with
  | error raised => exact .inl rfl
  | ok provider =>
    refine .inr ?_
    simp only
    unfold startLocked
    rcases hreap : Effect.run (reapCompletedLocked config env) supervisor with ⟨outcome, reaped⟩
    cases outcome with
    | error raised => rw [run_bind_of_error _ hreap]
    | ok _ =>
      have hfull : config.maxActiveRuns ≤ reaped.active :=
        Nat.le_of_not_lt fun room => refused ⟨provider, reaped, hselect, hreap, room⟩
      rw [run_bind_of_ok _ hreap, run_get_bind, if_pos hfull]
      rfl

theorem run_start_of_admits {call : StartCall} {supervisor reaped : Supervisor}
    {provider : Provider}
    (selected : config.registry.select call.providerId (some call.spec) = .ok provider)
    (reap : Effect.run (reapCompletedLocked config env) supervisor = (.ok (), reaped))
    (room : reaped.active < config.maxActiveRuns) :
    Effect.run (start config env call) supervisor =
      Effect.run (do
        write env (newRun env call provider)
        match call.submit with
        | .ok _ =>
            store call.uuid { newRun env call provider with future := some .pending }
            pure (newRun env call provider).handle
        | .error exception =>
            if exception.isInstance .exception then
              undoStart env call (newRun env call provider)
              raise exception
            else raise exception)
        { reaped with runs := reaped.runs.set call.uuid (newRun env call provider) } := by
  unfold start
  rw [run_bind, run_ofExcept, selected]
  simp only
  unfold startLocked
  rw [run_bind_of_ok _ reap, run_get_bind, if_neg (Nat.not_le_of_lt room)]
  rfl

theorem start_leaves_record {call : StartCall} {supervisor : Supervisor}
    (admits : Admits config env call supervisor) (breaks : BreaksOff env call) :
    (Effect.run (start config env call) supervisor).2.runs.get call.uuid ≠ none := by
  obtain ⟨provider, reaped, selected, reap, room⟩ := admits
  rw [run_start_of_admits selected reap room]
  set run := newRun env call provider with hrun
  rcases run_write env run { reaped with runs := reaped.runs.set call.uuid run } with
    ⟨raised, _, hwrite⟩ | ⟨mtime, hok, hwrite⟩
  · rw [run_bind_of_error _ hwrite]
    simp
  · rw [run_bind_of_ok _ hwrite]
    rcases breaks with ⟨raised, herror⟩ | ⟨raised, hsubmit, hclass⟩
    · rw [show env.write run.handle.runId run.state = env.write call.uuid .running from rfl,
        herror] at hok
      cases hok
    · simp [hsubmit, hclass]

theorem run_write_of_ok (run : Run) (supervisor : Supervisor) {mtime : ℚ}
    (written : env.write run.handle.runId run.state = .ok mtime) :
    ∃ journalled, Effect.run (write env run) supervisor = (.ok (), journalled) := by
  rcases run_write env run supervisor with ⟨error, herror, _⟩ | ⟨_, _, hwrite⟩
  · rw [written] at herror
    cases herror
  · exact ⟨_, hwrite⟩

/-- Writing a file that is not malformed leaves the malformed ones. -/
theorem malformed_write (env : Env) (run : Run) (supervisor : Supervisor)
    (other : ∀ entry ∈ malformed supervisor.stateDir, entry.1 ≠ journalPath run.handle.runId) :
    malformed (Effect.run (write env run) supervisor).2.stateDir =
      malformed supervisor.stateDir := by
  rcases run_write env run supervisor with ⟨_, _, h⟩ | ⟨mtime, _, h⟩
  · rw [h]
  · rw [h]
    simp only [malformed_set _ _ (wellFormed_journalRecord env run)]
    exact List.filter_eq_self.mpr fun entry member => by simpa using other entry member

theorem undoStart_alike (env : Env) (call : StartCall) (provider : Provider)
    (supervisor : Supervisor)
    (other : ∀ entry ∈ malformed supervisor.stateDir, entry.1 ≠ journalPath call.uuid) :
    (Effect.run (undoStart env call (newRun env call provider)) supervisor).2.Alike
      { supervisor with runs := supervisor.runs.erase call.uuid } := by
  set withdrawn : Run := { newRun env call provider with
    state := .finished, workdirCleaned := true } with hwithdrawn
  have hwrite (changed : Supervisor) (hruns : changed.runs = supervisor.runs.erase call.uuid)
      (hdir : changed.stateDir = supervisor.stateDir) :
      (Effect.run (write env withdrawn) changed).2.Alike
        { supervisor with runs := supervisor.runs.erase call.uuid } := by
    refine ⟨(run_write_runs env withdrawn changed).1.trans hruns, ?_⟩
    rw [malformed_write env withdrawn changed (by rw [hdir]; exact other), hdir]
  unfold undoStart
  rw [run_modify_bind]
  cases call.workdir with
  | none => exact hwrite _ rfl rfl
  | some path => exact hwrite _ rfl rfl

theorem start_withdraws {call : StartCall} {supervisor reaped : Supervisor} {provider : Provider}
    {raised : Exc} {mtime : ℚ}
    (selected : config.registry.select call.providerId (some call.spec) = .ok provider)
    (reap : Effect.run (reapCompletedLocked config env) supervisor = (.ok (), reaped))
    (room : reaped.active < config.maxActiveRuns) (fresh : reaped.Fresh call.uuid)
    (written : env.write call.uuid .running = .ok mtime) (refused : call.submit = .error raised)
    (caught : raised.isInstance .exception = true) :
    (Effect.run (start config env call) supervisor).2.Alike reaped := by
  have hother : ∀ entry ∈ malformed reaped.stateDir, entry.1 ≠ journalPath call.uuid := by
    intro entry member same
    have hfound := (Dict.get_eq_some_iff reaped.stateDir entry.1 entry.2).mpr
      (List.mem_of_mem_filter member)
    rw [same, fresh.unwritten] at hfound
    cases hfound
  rw [run_start_of_admits selected reap room]
  set run := newRun env call provider with hrun
  set stored : Supervisor := { reaped with runs := reaped.runs.set call.uuid run } with hstored
  obtain ⟨journalled, hwrite⟩ := run_write_of_ok run stored written
  have hmalformed := malformed_write env run stored hother
  have hkept := (run_write_runs env run stored).1
  rw [hwrite] at hmalformed hkept
  rw [run_bind_of_ok _ hwrite]
  simp only [refused, caught, if_true]
  have hundo := undoStart_alike env call provider journalled
    (fun entry member => hother entry (by rwa [hmalformed] at member))
  have hruns : journalled.runs.erase call.uuid = reaped.runs := by
    rw [hkept]
    exact Dict.erase_set_of_absent _ _ fresh.unknown
  have hraise : (Effect.run (do undoStart env call run; raise raised : Method RunHandle)
      journalled).2 = (Effect.run (undoStart env call run) journalled).2 := by
    rw [run_bind]
    rcases Effect.run (undoStart env call run) journalled with ⟨outcome, after⟩
    cases outcome <;> rfl
  rw [hraise]
  exact ⟨hundo.runs.trans hruns, hundo.malformed.trans hmalformed⟩

/-- A `start` that raises is undone unless it breaks off between putting its
record in the table and handing the operation to the pool. -/
theorem failed_start_undone_iff {dir : StateDir} {system : System}
    (reachable : Reachable config .any dir system) (env : Env) (call : StartCall)
    (fresh : system.supervisor.Fresh call.uuid) {raised : Exc}
    (failed : (Effect.run (start config env call) system.supervisor).1 = .error raised) :
    StartUndone config env call system.supervisor ↔
      ¬ (Admits config env call system.supervisor ∧ BreaksOff env call) := by
  set supervisor := system.supervisor with hsupervisor
  have htouches := @reapCompletedLocked_follows config .any env (fun durable => durable.elim)
    supervisor
  obtain ⟨-, hfresh⟩ := touches_keep_fresh htouches (reachable_sound reachable) fresh
  have hactive := touches_active_le htouches
  constructor
  · rintro undone ⟨admits, breaks⟩
    exact start_leaves_record admits breaks undone.forgotten
  · intro whole
    by_cases admits : Admits config env call supervisor
    · obtain ⟨provider, reaped, selected, reap, room⟩ := admits
      have hwhole : ¬ BreaksOff env call :=
        fun breaks => whole ⟨⟨provider, reaped, selected, reap, room⟩, breaks⟩
      rw [reap] at hfresh hactive
      obtain ⟨mtime, hwritten⟩ : ∃ mtime, env.write call.uuid .running = .ok mtime := by
        cases hwrite : env.write call.uuid .running with
        | ok mtime => exact ⟨mtime, rfl⟩
        | error error => exact absurd (.inl ⟨error, hwrite⟩) hwhole
      cases hsubmit : call.submit with
      | ok _ =>
        exfalso
        rw [run_start_of_admits selected reap room] at failed
        obtain ⟨journalled, hwrite⟩ := run_write_of_ok (newRun env call provider)
          { reaped with runs := reaped.runs.set call.uuid (newRun env call provider) } hwritten
        rw [run_bind_of_ok _ hwrite, hsubmit] at failed
        simp [store, Except.map] at failed
      | error exception =>
        have hcaught : exception.isInstance .exception = true := by
          cases hclass : exception.isInstance .exception with
          | true => rfl
          | false => exact absurd (.inr ⟨exception, hsubmit, hclass⟩) hwhole
        have halike := start_withdraws selected reap room hfresh hwritten hsubmit hcaught
        refine ⟨by rw [halike.runs, hfresh.unknown], ?_, reaped, .inr (by rw [reap]), ?_⟩
        · rwa [Supervisor.active, halike.runs, ← Supervisor.active]
        · intro threads script
          exact replies_alike config script ⟨halike, rfl⟩
    · rcases run_start_of_refused admits with hsame | hreaped
      · exact ⟨by rw [hsame, fresh.unknown], by rw [hsame], supervisor, .inl rfl,
          fun threads script => by rw [hsame]⟩
      · exact ⟨by rw [hreaped, hfresh.unknown], by rwa [hreaped], _, .inr rfl,
          fun threads script => by rw [hreaped]⟩

def exhaustedCall : StartCall :=
  { startCall "a" with
    workdir := some "/tmp/codecalc-deps-a"
    workdirIdentity := some (1, 2)
    submit := .error ⟨"RuntimeError", [.runtimeError, .exception],
      some "can't start new thread", none, none⟩ }

theorem exhaustedCall_undone :
    StartUndone singleSlot calm exhaustedCall (initial .empty .empty).supervisor := by
  have hfailed : ∃ raised, (Effect.run (start singleSlot calm exhaustedCall)
      (initial .empty .empty).supervisor).1 = .error raised := ⟨_, rfl⟩
  obtain ⟨raised, failed⟩ := hfailed
  refine (failed_start_undone_iff ⟨.empty, .refl⟩ calm exhaustedCall ⟨rfl, by simp [initial], rfl⟩
    failed).mpr ?_
  rintro ⟨-, ⟨error, hwrite⟩ | ⟨error, hsubmit, hclass⟩⟩
  · cases hwrite
  · cases hsubmit
    revert hclass
    decide

/-- No room on the device that holds the journal. -/
def fullDisk : Env :=
  { calm with write := fun _ _ => .error ⟨"OSError", [.osError, .exception],
      some "[Errno 28] No space left on device", none, none⟩ }

theorem failed_start_leaves_record :
    ¬ ∀ (config : Config) (dir : StateDir) (system : System), Reachable config .any dir system →
      ∀ env call, system.supervisor.Fresh call.uuid →
        ∀ raised, (Effect.run (start config env call) system.supervisor).1 = .error raised →
          StartUndone config env call system.supervisor := by
  intro claim
  have hfailed : ∃ raised, (Effect.run (start singleSlot fullDisk (startCall "a"))
      (initial .empty .empty).supervisor).1 = .error raised := ⟨_, rfl⟩
  obtain ⟨raised, failed⟩ := hfailed
  have undone := claim singleSlot .empty (initial .empty .empty) ⟨.empty, .refl⟩ fullDisk
    (startCall "a") ⟨rfl, by simp [initial], rfl⟩ raised failed
  have hrecord : ((Effect.run (start singleSlot fullDisk (startCall "a"))
      (initial .empty .empty).supervisor).2.runs.get "a").isSome = true := by
    decide
  have hnone := undone.forgotten
  rw [Option.isSome_iff_ne_none] at hrecord
  exact hrecord hnone

end CodeCalc.Supervision
