import CodeCalc.Supervision.Settlement

/-! What the journal holds.  Every change of label is written before the lock is
let go, so the file of an active run carries the label the run has in memory,
and pruning, which goes by the label in the file, never takes it.  Of the
terminal records a prune leaves the newest ones up to the limit. -/
namespace CodeCalc.Supervision
open Lib Lib.Effect Relation

variable {config : Config} {policy : Policy} {env : Env}

/-- What a prune does to a directory: it rewrites nothing, leaves every file
that does not record a terminal state, and of those that do the newest ones. -/
structure Retained (limit : Nat) (before after : StateDir) : Prop where
  kept : ∀ name file, after.get name = some file → before.get name = some file
  unpruned : ∀ name file, before.get name = some file → file.isTerminal = false →
    after.get name = some file
  count : after.count JournalFile.isTerminal = min limit (before.count JournalFile.isTerminal)
  newest : ∀ name other file older, after.get name = some file → file.isTerminal = true →
    before.get other = some older → after.get other = none → older.mtime ≤ file.mtime

/-- Dropping by key what a list has past some point leaves what it has before. -/
private theorem filter_key_not_mem_drop {α β : Type} [DecidableEq β] (key : α → β) (items : List α)
    (distinct : (items.map key).Nodup) (limit : Nat) :
    items.filter (fun item => decide (key item ∉ (items.drop limit).map key)) =
      items.take limit := by
  have hsplit := List.take_append_drop limit items
  have hdisjoint : ∀ item ∈ items.take limit, key item ∉ (items.drop limit).map key := by
    rw [← hsplit, List.map_append, List.nodup_append] at distinct
    intro item member inTail
    exact distinct.2.2 (key item) (List.mem_map_of_mem member) (key item) inTail rfl
  calc items.filter (fun item => decide (key item ∉ (items.drop limit).map key))
      = (items.take limit ++ items.drop limit).filter
          (fun item => decide (key item ∉ (items.drop limit).map key)) := by rw [hsplit]
    _ = items.take limit ++ [] := by
        rw [List.filter_append]
        congr 1
        · exact List.filter_eq_self.mpr fun item member => by simpa using hdisjoint item member
        · refine List.filter_eq_nil_iff.mpr fun item member => ?_
          have hkey : key item ∈ (items.drop limit).map key := List.mem_map_of_mem member
          simpa using hkey
    _ = items.take limit := List.append_nil _

/-- In a list that falls strictly the items before some point are those with fewer above
them. -/
private theorem mem_take_iff_countP {α : Type} (key : α → ℚ) {items : List α}
    (falls : items.Pairwise fun left right => key right < key left) {item : α} (member : item ∈ items)
    (limit : Nat) :
    item ∈ items.take limit ↔ items.countP (fun other => key item < key other) < limit := by
  induction items generalizing limit with
  | nil => cases member
  | cons head rest ih =>
    obtain ⟨below, falls⟩ := List.pairwise_cons.mp falls
    cases limit with
    | zero => simp
    | succ limit =>
      rw [List.take_succ_cons, List.mem_cons, List.countP_cons]
      rcases List.mem_cons.mp member with rfl | inside
      · have none_ : rest.countP (fun other => key item < key other) = 0 := by
          rw [List.countP_eq_zero]
          intro other inside
          simpa using Rat.not_lt.mpr (Rat.le_of_lt (below other inside))
        simp [none_]
      · have above := below item inside
        have different : item ≠ head := fun same => Rat.lt_irrefl (same ▸ above)
        simp [ih falls inside, different, above]

section Prune

variable {limit : Nat} {before after : StateDir}

/-- The terminal records, newest first: the list `_prune` cuts. -/
def terminalFiles (dir : StateDir) : List (String × JournalFile) :=
  newestFirst (dir.entries.filter fun file => file.2.isTerminal)

theorem terminalFiles_perm (dir : StateDir) :
    (terminalFiles dir).Perm (dir.entries.filter fun file => file.2.isTerminal) :=
  List.perm_insertionSort _ _

theorem terminalFiles_distinct (dir : StateDir) : ((terminalFiles dir).map Prod.fst).Nodup :=
  ((terminalFiles_perm dir).map Prod.fst).nodup_iff.mpr
    ((List.filter_sublist.map Prod.fst).nodup dir.distinct)

theorem terminalFiles_sorted (dir : StateDir) :
    (terminalFiles dir).Pairwise fun left right => right.2.mtime ≤ left.2.mtime := by
  have htotal : Std.Total fun left right : String × JournalFile => right.2.mtime ≤ left.2.mtime :=
    ⟨fun _ _ => Rat.le_total⟩
  have htrans : IsTrans (String × JournalFile) fun left right => right.2.mtime ≤ left.2.mtime :=
    ⟨fun _ _ _ first second => Rat.le_trans second first⟩
  exact List.pairwise_insertionSort _ _

theorem mem_terminalFiles (dir : StateDir) (name : String) (file : JournalFile) :
    (name, file) ∈ terminalFiles dir ↔ dir.get name = some file ∧ file.isTerminal = true := by
  rw [(terminalFiles_perm dir).mem_iff, List.mem_filter, Dict.get_eq_some_iff]

theorem pruneDir_eq (pruned : pruneDir limit before = .ok after) :
    after = before.filter fun name _ =>
      decide (name ∉ ((terminalFiles before).drop limit).map Prod.fst) := by
  unfold pruneDir at pruned
  split at pruned
  · cases pruned
  · rename_i candidates hcandidates
    have hgood := good_of_pruneCandidates_ok _ _ hcandidates
    rw [pruneCandidates_eq _ hgood] at hcandidates
    cases hcandidates
    cases pruned
    rfl

/-- A prune returns exactly when it can read the label of every file. -/
theorem pruneDir_ok_iff (limit : Nat) (dir : StateDir) :
    (∃ after, pruneDir limit dir = .ok after) ↔
      ∀ name file, dir.get name = some file → file.content.wellFormed = true := by
  unfold pruneDir
  constructor
  · rintro ⟨after, pruned⟩ name file found
    split at pruned
    · cases pruned
    · rename_i candidates hcandidates
      exact good_of_pruneCandidates_ok _ _ hcandidates (name, file)
        ((Dict.get_eq_some_iff _ _ _).mp found)
  · intro good
    rw [pruneCandidates_eq dir.entries fun file member =>
      good file.1 file.2 ((Dict.get_eq_some_iff _ _ _).mpr member)]
    exact ⟨_, rfl⟩

/-- A file goes exactly when it is among the terminal ones past the limit. -/
theorem get_of_pruned (pruned : pruneDir limit before = .ok after) (name : String)
    (file : JournalFile) : after.get name = some file ↔
      before.get name = some file ∧ (name, file) ∉ (terminalFiles before).drop limit := by
  rw [pruneDir_eq pruned, Dict.get_filter, Option.filter_eq_some_iff]
  refine and_congr_right fun found => ?_
  rw [decide_eq_true_eq, not_iff_not]
  constructor
  · intro member
    obtain ⟨⟨other, older⟩, hdropped, hname⟩ := List.mem_map.mp member
    have hfound := ((mem_terminalFiles before other older).mp (List.mem_of_mem_drop hdropped)).1
    simp only at hname
    rw [hname, found] at hfound
    cases hfound
    rwa [hname] at hdropped
  · intro member
    exact List.mem_map.mpr ⟨_, member, rfl⟩

theorem count_of_pruned (pruned : pruneDir limit before = .ok after) :
    after.count JournalFile.isTerminal = min limit (before.count JournalFile.isTerminal) := by
  have hlength (dir : StateDir) : dir.count JournalFile.isTerminal =
      (dir.entries.filter fun file => file.2.isTerminal).length := by
    rw [Dict.count, Dict.values, List.countP_map, List.countP_eq_length_filter]
    rfl
  have hafter : (after.entries.filter fun file => file.2.isTerminal).Perm
      ((terminalFiles before).take limit) := by
    rw [← filter_key_not_mem_drop Prod.fst _ (terminalFiles_distinct before) limit,
      pruneDir_eq pruned, Dict.filter, List.filter_filter]
    refine List.Perm.trans (List.Perm.of_eq ?_) ((terminalFiles_perm before).symm.filter _)
    rw [List.filter_filter]
    exact List.filter_congr fun file _ => Bool.and_comm _ _
  calc after.count JournalFile.isTerminal
      = ((terminalFiles before).take limit).length := by rw [hlength, hafter.length_eq]
    _ = min limit (before.count JournalFile.isTerminal) := by
        rw [List.length_take, (terminalFiles_perm before).length_eq, hlength]

theorem pruneDir_retained (pruned : pruneDir limit before = .ok after) :
    Retained limit before after where
  kept name file found := ((get_of_pruned pruned name file).mp found).1
  unpruned name file found active := by
    refine (get_of_pruned pruned name file).mpr ⟨found, fun member => ?_⟩
    have hterminal := ((mem_terminalFiles before name file).mp (List.mem_of_mem_drop member)).2
    rw [active] at hterminal
    cases hterminal
  count := count_of_pruned pruned
  newest name other file older found terminal found' removed := by
    obtain ⟨hfound, hkept⟩ := (get_of_pruned pruned name file).mp found
    have hdropped : (other, older) ∈ (terminalFiles before).drop limit := by
      by_contra hin
      have := (get_of_pruned pruned other older).mpr ⟨found', hin⟩
      rw [removed] at this
      cases this
    have hmember : (name, file) ∈ (terminalFiles before).take limit := by
      have := (mem_terminalFiles before name file).mpr ⟨hfound, terminal⟩
      rw [← List.take_append_drop limit (terminalFiles before), List.mem_append] at this
      exact this.resolve_right hkept
    have hsorted := terminalFiles_sorted before
    rw [← List.take_append_drop limit (terminalFiles before), List.pairwise_append] at hsorted
    exact hsorted.2.2 (name, file) hmember (other, older) hdropped

theorem kept_iff_written_last (pruned : pruneDir limit before = .ok after)
    (apart : ∀ name other file older, before.get name = some file → before.get other = some older →
      file.isTerminal = true → older.isTerminal = true → file.mtime = older.mtime → name = other)
    {name : String} {file : JournalFile} (found : before.get name = some file)
    (terminal : file.isTerminal = true) :
    after.get name = some file ↔
      before.count (fun other => other.isTerminal && decide (file.mtime < other.mtime)) < limit := by
  have falls : (terminalFiles before).Pairwise fun left right => right.2.mtime < left.2.mtime := by
    have distinct := terminalFiles_distinct before
    rw [List.Nodup, List.pairwise_map] at distinct
    refine ((terminalFiles_sorted before).and distinct).imp_of_mem ?_
    rintro ⟨left, file⟩ ⟨right, older⟩ hleft hright ⟨le, different⟩
    obtain ⟨hfile, first⟩ := (mem_terminalFiles before left file).mp hleft
    obtain ⟨holder, second⟩ := (mem_terminalFiles before right older).mp hright
    exact Rat.lt_of_le_of_ne le fun same =>
      different (apart left right file older hfile holder first second same.symm)
  have member := (mem_terminalFiles before name file).mpr ⟨found, terminal⟩
  have split : (name, file) ∉ (terminalFiles before).drop limit ↔
      (name, file) ∈ (terminalFiles before).take limit := by
    have nodup := List.Nodup.of_map _ (terminalFiles_distinct before)
    rw [← List.take_append_drop limit (terminalFiles before)] at member nodup
    constructor
    · exact fun kept => (List.mem_append.mp member).resolve_right kept
    · exact fun kept dropped => List.disjoint_of_nodup_append nodup kept dropped
  have count : (terminalFiles before).countP (fun other => file.mtime < other.2.mtime) =
      before.count (fun other => other.isTerminal && decide (file.mtime < other.mtime)) := by
    rw [(terminalFiles_perm before).countP_eq, List.countP_filter, Dict.count, Dict.values,
      List.countP_map]
    exact List.countP_congr fun entry _ => by simp [Function.comp_apply, and_comm]
  rw [get_of_pruned pruned, and_iff_right found, split,
    mem_take_iff_countP (fun entry : String × JournalFile => entry.2.mtime) falls member, count]

end Prune

def Records (dir : StateDir) (runId : String) (state : RunState) : Prop :=
  ∃ record mtime, dir.get (journalPath runId) = some ⟨.json (.obj record), mtime⟩ ∧
    record.lookup "state" = some (.str state.name)

/-- Journal writes succeed; nothing is asked about `cleanup`. -/
def Policy.durableWrites : Policy := ⟨True, fun _ => True⟩

structure JournalInvariant (supervisor : Supervisor) : Prop where
  sound : supervisor.Sound
  recorded : ∀ runId run, supervisor.runs.get runId = some run → run.isActive = true →
    Records supervisor.stateDir runId run.state

theorem records_active {dir : StateDir} {runId : String} {state : RunState}
    (active : state.isActive = true) {file : JournalFile}
    (found : dir.get (journalPath runId) = some file) (records : Records dir runId state) :
    file.isTerminal = false := by
  obtain ⟨record, mtime, hfile, hstate⟩ := records
  rw [found] at hfile
  cases hfile
  have : state.name ∉ terminalNames := by
    rw [RunState.name_mem_terminalNames]
    simp [RunState.isTerminal, active]
  simp [JournalFile.isTerminal, stateIn, hstate, this]

theorem Records.of_journalled {before after : Supervisor} {previous : Option RunState} {run : Run}
    (journal : Journalled .durableWrites before after previous run)
    (records : previous = some run.state → Records before.stateDir run.handle.runId run.state) :
    Records after.stateDir run.handle.runId run.state := by
  rcases journal with ⟨env, mtime, written⟩ | ⟨same, unchanged⟩
  · exact ⟨_, mtime, by rw [written, Dict.get_set_same], lookup_journalRecord env run⟩
  · rw [same]
    exact records (unchanged trivial)

theorem Records.of_other {before after : Supervisor} {previous : Option RunState} {run : Run}
    (journal : Journalled policy before after previous run) {runId : String} {state : RunState}
    (different : runId ≠ run.handle.runId) (records : Records before.stateDir runId state) :
    Records after.stateDir runId state := by
  rcases journal with ⟨env, mtime, written⟩ | ⟨same, -⟩
  · have hpath : journalPath runId ≠ journalPath run.handle.runId :=
      fun h => different (journalPath_injective h)
    obtain ⟨record, time, hfile, hstate⟩ := records
    exact ⟨record, time, by rw [written, Dict.get_set_other _ _ hpath, hfile], hstate⟩
  · rwa [same]

theorem Change.keeps_journal {before after : Supervisor}
    (change : Change config .durableWrites before after) (invariant : JournalInvariant before) :
    JournalInvariant after := by
  obtain ⟨sound, recorded⟩ := invariant
  refine ⟨change.keeps_sound sound, fun other record => ?_⟩
  cases change with
  | touch touch =>
    cases touch with
    | pruned dir runs released =>
      intro found active
      rw [runs] at found
      have hrecords := recorded other record found active
      have ⟨fields, mtime, hfile, hstate⟩ := hrecords
      exact ⟨fields, mtime, (pruneDir_retained dir).unpruned _ _ hfile
        (records_active active hfile hrecords), hstate⟩
    | run runId run run' found step runs journal released =>
      have hkey : run'.handle.runId = runId := by
        rw [step.handle_eq, (sound runId run found).2]
      rw [runs, Dict.get_set]
      split
      · rename_i hsame
        intro same active
        cases same
        rw [hsame, ← hkey]
        refine Records.of_journalled journal fun unchanged => ?_
        have hstate : run.state = record.state := Option.some.inj unchanged
        rw [hkey, ← hstate]
        exact recorded runId run found (by rwa [Run.isActive, hstate])
      · rename_i hne
        intro hfound active
        exact (recorded other record hfound active).of_other journal (by rwa [hkey])
  | admitted runId run unknown unreleased room pristine keyed runs journal released =>
    rw [runs, Dict.get_set]
    split
    · rename_i hsame
      intro same _
      cases same
      rw [hsame, ← keyed]
      exact Records.of_journalled journal fun absent => by cases absent
    · rename_i hne
      intro hfound active
      exact (recorded other record hfound active).of_other journal (by rwa [keyed])
  | withdrawn runId run found pristine runs journal released =>
    rw [runs, Dict.get_erase]
    split
    · intro absent
      cases absent
    · rename_i hne
      intro hfound active
      exact (recorded other record hfound active).of_other journal
        (by rwa [show run.handle.runId = runId from (sound runId run found).2])

/-- No file that some reader chokes on. -/
def Readable (dir : StateDir) : Prop :=
  ∀ name file, dir.get name = some file → file.content.wellFormed = true

theorem Journalled.keeps_readable {before after : Supervisor} {previous : Option RunState}
    {run : Run} (journal : Journalled policy before after previous run)
    (readable : Readable before.stateDir) : Readable after.stateDir := by
  rcases journal with ⟨env, mtime, written⟩ | ⟨same, -⟩
  · intro name file
    rw [written, Dict.get_set]
    split
    · intro same
      cases same
      exact wellFormed_journalRecord env run
    · exact readable name file
  · rwa [same]

theorem Change.keeps_readable {before after : Supervisor}
    (change : Change config policy before after) (readable : Readable before.stateDir) :
    Readable after.stateDir := by
  cases change with
  | touch touch =>
    cases touch with
    | pruned dir runs released =>
      intro name file found
      exact readable name file ((pruneDir_retained dir).kept name file found)
    | run runId run run' found step runs journal released => exact journal.keeps_readable readable
  | admitted runId run unknown unreleased room pristine keyed runs journal released =>
    exact journal.keeps_readable readable
  | withdrawn runId run found pristine runs journal released =>
    exact journal.keeps_readable readable

/-- In every state of every run of the threads, the states inside a method
included, the file of an active run says its state.  A prune in such a state
leaves that file alone, and of the terminal records the newest up to the limit;
and it returns unless the directory held a file it cannot read from the start. -/
theorem journal_tracks_active_runs {dir : StateDir} {system : System}
    (reachable : Reachable config .durableWrites dir system) {supervisor : Supervisor}
    (inside : ReflTransGen (Change config .durableWrites) system.supervisor supervisor) :
    (∀ runId run, supervisor.runs.get runId = some run → run.isActive = true →
      Records supervisor.stateDir runId run.state) ∧
    (∀ after, Effect.run (prune config) supervisor = (.ok (), after) →
      (∀ runId run, supervisor.runs.get runId = some run → run.isActive = true →
        Records after.stateDir runId run.state) ∧
      Retained config.maxCompleted supervisor.stateDir after.stateDir) ∧
    (Readable dir → ∃ after, Effect.run (prune config) supervisor = (.ok (), after)) := by
  have invariant : JournalInvariant supervisor := by
    refine changes_keep (fun _ _ change => change.keeps_journal) inside ?_
    refine reachable_invariant (fun _ _ change => change.keeps_journal) reachable fun workdirs => ?_
    exact ⟨fun runId run found => by simp at found, fun runId run found => by simp at found⟩
  refine ⟨invariant.recorded, fun after pruned => ?_, fun readable => ?_⟩
  · rcases run_prune config supervisor with ⟨raised, _, h⟩ | ⟨dir', hdir, h⟩
    · rw [h] at pruned
      cases pruned
    · rw [h] at pruned
      cases pruned
      have hretained := pruneDir_retained hdir
      refine ⟨fun runId run found active => ?_, hretained⟩
      have hrecords := invariant.recorded runId run found active
      have ⟨fields, mtime, hfile, hstate⟩ := hrecords
      exact ⟨fields, mtime, hretained.unpruned _ _ hfile (records_active active hfile hrecords),
        hstate⟩
  · have hreadable : Readable supervisor.stateDir := by
      refine changes_keep (fun _ _ change => change.keeps_readable) inside ?_
      exact reachable_invariant (fun _ _ change => change.keeps_readable) reachable fun _ => readable
    obtain ⟨dir', hdir⟩ := (pruneDir_ok_iff config.maxCompleted supervisor.stateDir).mpr hreadable
    rcases run_prune config supervisor with ⟨raised, hraised, _⟩ | ⟨_, _, h⟩
    · rw [hdir] at hraised
      cases hraised
    · exact ⟨_, h⟩

theorem calm_permits {system : System} {action : Action} :
    Policy.durableWrites.Permits calm system action :=
  ⟨fun _ _ _ => ⟨0, rfl⟩, fun _ _ _ _ _ _ => trivial⟩

/-- Room for one run and for no terminal record. -/
def noArchive : Config := { singleSlot with maxCompleted := 0 }

def archiveAndGoOn : List (Env × Action) :=
  [(calm, .start (startCall "a")), (calm, .complete "a" (.returned (.ok []))),
    (calm, .inspect "a"), (calm, .start (startCall "b"))]

theorem archiveAndGoOn_playable :
    Playable noArchive .durableWrites (initial .empty .empty) archiveAndGoOn := by
  refine ⟨⟨rfl, by simp [initial], rfl⟩, calm_permits, trivial, calm_permits, trivial,
    calm_permits, ?_, calm_permits, trivial⟩
  exact ⟨by decide, by decide, by decide⟩

theorem archiveAndGoOn_journal :
    ∃ after, Effect.run (prune noArchive)
        (play noArchive (initial .empty .empty) archiveAndGoOn).supervisor = (.ok (), after) ∧
      Records after.stateDir "b" .running ∧ after.stateDir.count JournalFile.isTerminal = 0 := by
  have hactive : ((play noArchive (initial .empty .empty)
      archiveAndGoOn).supervisor.runs.get "b").any (fun run => decide (run.state = .running)) =
      true := by
    decide
  obtain ⟨run, found, hrun⟩ := (Option.any_eq_true _ _).mp hactive
  have hstate : run.state = .running := by simpa using hrun
  obtain ⟨-, hprune, hreturns⟩ := journal_tracks_active_runs
    ⟨.empty, steps_of_playable archiveAndGoOn_playable⟩ .refl
  obtain ⟨after, hafter⟩ := hreturns fun _ _ found => by simp at found
  obtain ⟨hrecords, hretained⟩ := hprune after hafter
  refine ⟨after, hafter, ?_, ?_⟩
  · have := hrecords "b" run found (by rw [Run.isActive, hstate]; rfl)
    rwa [hstate] at this
  · simpa [noArchive] using hretained.count

end CodeCalc.Supervision
