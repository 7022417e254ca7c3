import CodeCalc.Sessions.Operations
import CodeCalc.Sessions.Steps

/-! A replacing restore that fails.  Everything up to the second identity check
works in a directory of its own; from there on the session's worker, lock and
directory go one after the other. -/
namespace CodeCalc.Sessions
open Lib Errors

/-- What undoes a failed restore goes through: a directory that is removed is
gone, and the one set aside can be put back. -/
def Undoes (aside : String) (env : Env) (_ : World) : Op → Prop
  | .rename source _ => source = aside → env.failure = none
  | .removeTree _ => env.failure = none
  | _ => True

/-- Besides, no rename is refused. -/
def Smooth (env : Env) (world : World) : Op → Prop
  | .rename source target => (perform env (.rename source target) world).1 = none
  | .removeTree _ => env.failure = none
  | _ => True

theorem failure_of_smooth {env : Env} {world : World} {source target : String}
    (smooth : Smooth env world (.rename source target)) : env.failure = none := by
  simp only [Smooth, perform] at smooth
  split at smooth
  · cases smooth
  · assumption

theorem undoes_of_smooth (aside : String) (env : Env) (world : World) (op : Op)
    (smooth : Smooth env world op) : Undoes aside env world op := by
  cases op with
  | rename source target => exact fun _ => failure_of_smooth smooth
  | removeTree name => exact smooth
  | _ => trivial

/-- The program runs by itself. -/
abbrev Undoing {α : Type} (aside : String) (program : Session α) (world : World) (value : α)
    (after : World) : Prop :=
  Alone perform (Undoes aside) program world value after

abbrev Smoothly {α : Type} (program : Session α) (world : World) (value : α) (after : World) : Prop :=
  Alone perform Smooth program world value after

section Steps

variable {world after : World} {sid temp aside : String}

theorem undoing_step {α : Type} {op : Op} {next : op.Answer → Session α} {value : α}
    (run : Undoing aside (.call op next) world value after) :
    ∃ env, Undoes aside env world op ∧
      Undoing aside (next (perform env op world).1) (perform env op world).2 value after :=
  alone_call run

theorem smoothly_step {α : Type} {op : Op} {next : op.Answer → Session α} {value : α}
    (run : Smoothly (.call op next) world value after) :
    ∃ env, Smooth env world op ∧
      Smoothly (next (perform env op world).1) (perform env op world).2 value after :=
  alone_call run

theorem identityVerified_keeps {verified : Bool}
    (run : Undoing aside (identityVerified sid) world verified after) : after = world := by
  obtain ⟨_, _, run⟩ := undoing_step run
  have read : ∀ env, perform env (.recorded sid) world = ((world.identities.get sid).join, world) :=
    fun _ => rfl
  rw [read] at run
  cases found : (world.identities.get sid).join with
  | none =>
    rw [found] at run
    exact (alone_done run).2
  | some created =>
    rw [found] at run
    obtain ⟨_, _, run⟩ := undoing_step run
    exact (alone_done run).2

/-- The two worlds differ in one directory, which only the second has. -/
def Beside (temp : String) (world after : World) : Prop :=
  ∃ root, after = { world with root := root } ∧ root.erase temp = world.root

theorem beside_makeDir (env : Env) (absent : world.root.get temp = none) :
    Beside temp world (perform env (.makeDir temp) world).2 := by
  simp only [perform, absent]
  exact ⟨_, rfl, Dict.erase_set_of_absent _ _ absent⟩

theorem beside_extract (env : Env) (beside : Beside temp world after) :
    Beside temp world (perform env (.extract temp) after).2 := by
  obtain ⟨root, rfl, same⟩ := beside
  simp only [perform, World.atDir]
  split
  · exact ⟨_, rfl, (Dict.erase_set _ _ _).trans same⟩
  · exact ⟨root, rfl, same⟩

theorem beside_removed {env : Env} (beside : Beside temp world after)
    (removed : env.failure = none) : (perform env (.removeTree temp) after).2 = world := by
  obtain ⟨root, rfl, same⟩ := beside
  simp only [perform, removed, Option.isSome_none, Bool.false_eq_true, if_false, same]

/-- What an extraction leaves behind: nothing if it fails, else a directory of
its own. -/
theorem materializeTarPlan_cases {failure : Option Fields} (absent : world.root.get temp = none)
    (run : Undoing aside (materializeTarPlan temp) world failure after) :
    (∃ refusal, failure = some refusal) ∧ after = world ∨
      failure = none ∧ Beside temp world after := by
  obtain ⟨env, _, run⟩ := undoing_step run
  obtain ⟨env', _, run⟩ := undoing_step run
  have beside := beside_extract env' (beside_makeDir env absent)
  have answered : (perform env' (.extract temp) (perform env (.makeDir temp) world).2).1 =
      env'.extraction := rfl
  rw [answered] at run
  cases found : env'.extraction with
  | none =>
    rw [found] at run
    obtain ⟨same, rfl⟩ := alone_done run
    exact .inr ⟨same, beside⟩
  | some refusal =>
    rw [found] at run
    obtain ⟨env'', undoes, run⟩ := undoing_step run
    obtain ⟨same, last⟩ := alone_done run
    rw [last]
    exact .inl ⟨⟨refusal, same⟩, beside_removed beside undoes⟩

/-- Renames that go through have nothing to undo. -/
theorem swapWorkspaces_smoothly {aside : String} {failure : Option Fields}
    (run : Smoothly (swapWorkspaces sid temp aside) world failure after) : failure = none := by
  obtain ⟨_, smooth, run⟩ := smoothly_step run
  rw [show (perform _ (.rename sid aside) world).1 = none from smooth] at run
  obtain ⟨_, smooth, run⟩ := smoothly_step run
  rw [show (perform _ (.rename temp sid) _).1 = none from smooth] at run
  obtain ⟨_, _, run⟩ := smoothly_step run
  exact (alone_done run).1

theorem finishRestoredSession_ok {plan : Plan} {result : Fields}
    (run : Undoing aside (finishRestoredSession sid plan) world result after) :
    entryOf "ok" result = some (.bool true) := by
  unfold finishRestoredSession at run
  split at run
  · obtain ⟨env, _, run⟩ := undoing_step run
    have answered : (perform env (.spawn plan.language sid) world).1 = env.spawned := rfl
    rw [answered] at run
    cases found : env.spawned with
    | error why =>
      rw [found] at run
      rw [(alone_done run).1]
      rfl
    | ok _ =>
      rw [found] at run
      obtain ⟨_, _, run⟩ := undoing_step run
      obtain ⟨_, _, run⟩ := undoing_step run
      rw [(alone_done run).1]
      rfl
  · rw [(alone_done run).1]
    rfl

/-- A marker or a lock comes or goes; no file does. -/
theorem files_atDir (world : World) (name : String) {change : Workspace → Workspace}
    (keeps : ∀ there, (change there).files = there.files) (other : String) :
    ((world.atDir name change).root.get other).map Workspace.files =
      (world.root.get other).map Workspace.files := by
  unfold World.atDir
  split
  · rename_i there found
    by_cases same : other = name
    · subst same
      rw [Dict.get_set_same, found, Option.map_some, Option.map_some, keeps]
    · rw [Dict.get_set_other _ _ same]
  · rfl

/-- A step that neither records an identity nor touches a file. -/
def Bookkeeping (world after : World) : Prop :=
  after.identities = world.identities ∧
    ∀ name, (after.root.get name).map Workspace.files = (world.root.get name).map Workspace.files

theorem Bookkeeping.refl : Bookkeeping world world := ⟨rfl, fun _ => rfl⟩

theorem Bookkeeping.trans {middle : World} (first : Bookkeeping world middle)
    (second : Bookkeeping middle after) : Bookkeeping world after :=
  ⟨second.1.trans first.1, fun name => (second.2 name).trans (first.2 name)⟩

theorem bookkeeping_atDir (world : World) (name : String) {change : Workspace → Workspace}
    (keeps : ∀ there, (change there).files = there.files) :
    Bookkeeping world (world.atDir name change) := by
  refine ⟨?_, files_atDir world name keeps⟩
  obtain ⟨root, same⟩ := world.atDir_eq name change
  rw [same]

theorem bookkeeping_unless (failed : Bool) (name : String) {change : Workspace → Workspace}
    (keeps : ∀ there, (change there).files = there.files) :
    Bookkeeping world (if failed then world else world.atDir name change) := by
  cases failed with
  | true => exact .refl
  | false => exact bookkeeping_atDir world name keeps

theorem bookkeeping_maybeReap (env : Env) : Bookkeeping world (world.maybeReap env sid).2 := by
  unfold World.maybeReap
  split
  · exact ⟨rfl, fun _ => rfl⟩
  · rename_i worker idle
    obtain ⟨_, _, same⟩ := World.markExpired_eq { world with
      workers := world.workers.erase sid
      lastActivity := world.lastActivity.erase sid
      reaped := worker.stamp :: world.reaped } sid
    rw [same]
    exact ⟨rfl, fun _ => rfl⟩

theorem bookkeeping_note (env : Env) : Bookkeeping world (perform env (.note sid) world).2 := by
  simp only [perform]
  split <;> exact ⟨rfl, fun _ => rfl⟩

theorem closeExpired_keeps {worker : Worker} (run : Undoing aside (closeExpired sid worker) world () after) :
    Bookkeeping world after := by
  obtain ⟨first, _, run⟩ := undoing_step run
  obtain ⟨second, _, run⟩ := undoing_step run
  obtain ⟨third, _, run⟩ := undoing_step run
  rw [(alone_done run).2]
  have closed : Bookkeeping world (perform first (.close worker) world).2 := ⟨rfl, fun _ => rfl⟩
  have marked : ∀ world, Bookkeeping world (perform second (.writeMarker sid) world).2 :=
    fun _ => bookkeeping_unless _ _ fun _ => rfl
  have unlocked : ∀ world, Bookkeeping world (perform third (.removeLock sid) world).2 :=
    fun _ => bookkeeping_unless _ _ fun _ => rfl
  exact (closed.trans (marked _)).trans (unlocked _)

theorem reapThenNote_keeps (run : Undoing aside (reapThenNote sid) world () after) :
    Bookkeeping world after := by
  obtain ⟨reaped, middle, reap, note⟩ := alone_bind run
  obtain ⟨env', _, note⟩ := undoing_step note
  have noted := (alone_done note).2
  obtain ⟨env, _, reap⟩ := undoing_step reap
  have answered : perform env (.maybeReap sid) world = world.maybeReap env sid := rfl
  rw [answered] at reap
  have last : Bookkeeping middle after := by
    rw [noted]
    exact bookkeeping_note env'
  rcases world.maybeReap_cases env sid with ⟨same, _⟩ | ⟨worker, left, _, taken, _⟩
  · rw [same] at reap
    have still := (alone_done reap).2
    subst still
    exact last
  · have first : Bookkeeping world left := by
      have := @bookkeeping_maybeReap world sid env
      rwa [taken] at this
    rw [taken] at reap
    have reap : Undoing aside (closeExpired sid worker >>= fun _ => pure true) left reaped middle := reap
    obtain ⟨_, closed, close, finish⟩ := alone_bind reap
    rw [(alone_done finish).2] at last
    exact (first.trans (closeExpired_keeps close)).trans last

/-- The clock and the TTL that the gate reads: `reap` is found where it looks
for an idle worker, `noted` where it sets the session's clock. -/
def Entered (reap noted env : Env) : Op → Prop
  | .maybeReap _ => env.ttl = reap.ttl ∧ env.now = reap.now
  | .note _ => env.now = noted.now
  | _ => True

abbrev Entering {α : Type} (reap noted : Env) (program : Session α) (world : World) (value : α)
    (after : World) : Prop :=
  Alone perform (fun env world op => Smooth env world op ∧ Entered reap noted env op) program world value
    after

theorem entering_of_ungated {α : Type} (reap noted : Env) {program : Session α} {value : α}
    (run : Smoothly program world value after) (uses : program.Uses Ungated) :
    Entering reap noted program world value after := by
  refine alone_mono (fun env world op met => ⟨met.1, ?_⟩) (run.uses uses)
  cases op with
  | maybeReap | note => exact met.2.elim
  | _ => trivial

theorem uses_closeExpired_ungated (sid : String) (worker : Worker) :
    (closeExpired sid worker).Uses Ungated :=
  uses_call (by trivial) fun _ => uses_call (by trivial) fun _ => uses_call (by trivial) fun _ => trivial

theorem reapThenNote_entering (run : Smoothly (reapThenNote sid) world () after) :
    ∃ reap noted, Entering reap noted (reapThenNote sid) world () after := by
  obtain ⟨reaped, middle, taking, noting⟩ := alone_bind run
  obtain ⟨noted, smooth, noting⟩ := alone_call noting
  obtain ⟨reap, _, taking⟩ := alone_call taking
  refine ⟨reap, noted, Alone.bind (?_ : Alone _ _ _ world reaped middle) ?_⟩
  · refine .call reap _ _ _ _ _ ⟨trivial, rfl, rfl⟩ (entering_of_ungated _ _ taking ?_)
    cases (perform reap (.maybeReap sid) world).1 with
    | none => trivial
    | some worker => exact (uses_closeExpired_ungated sid worker).bind fun _ => trivial
  · exact .call noted _ _ _ _ _ ⟨smooth, rfl⟩ (entering_of_ungated _ _ noting trivial)

theorem entering_of_smoothly {digits : String} {planned : Except Fields Plan} {result : Fields}
    (run : Smoothly (snapshotRestore sid temp aside digits true planned) world result after) :
    ∃ reap noted, Entering reap noted (snapshotRestore sid temp aside digits true planned) world result
      after := by
  cases planned with
  | error refusal => exact ⟨{}, {}, entering_of_ungated _ _ run trivial⟩
  | ok plan =>
    have run : Smoothly (snapshotRestoreReplace sid temp aside plan) world result after := run
    show ∃ reap noted, Entering reap noted (snapshotRestoreReplace sid temp aside plan) world result after
    obtain ⟨rest, uses, same⟩ := snapshotRestoreReplace_eq sid temp aside plan
    rw [same] at run ⊢
    split at run
    · rename_i safe
      rw [if_pos safe]
      obtain ⟨env, _, run⟩ := alone_call run
      suffices entered : ∃ reap noted, Entering reap noted _ _ result after by
        obtain ⟨reap, noted, entered⟩ := entered
        exact ⟨reap, noted, .call env _ _ _ _ _ ⟨trivial, trivial⟩ entered⟩
      split at run
      · rename_i there
        rw [if_pos there]
        obtain ⟨_, middle, gate, run⟩ := alone_bind run
        obtain ⟨reap, noted, entered⟩ := reapThenNote_entering gate
        exact ⟨reap, noted, entered.bind (entering_of_ungated _ _ run uses)⟩
      · rename_i missing
        rw [if_neg missing]
        exact ⟨{}, {}, entering_of_ungated _ _ run trivial⟩
    · rename_i invalid
      rw [if_neg invalid]
      exact ⟨{}, {}, entering_of_ungated _ _ run trivial⟩

/-- What every entry point does first: a worker idle at that time is reaped, a
live one has its clock set. -/
structure Gated (sid : String) (reap noted : Env) (world after : World) : Prop where
  live : world.idleWorker reap sid = none →
    after = if (world.workers.get sid).isSome then world.touch noted sid else world
  idle : ∀ worker, world.idleWorker reap sid = some worker →
    Smoothly (closeExpired sid worker) (world.maybeReap reap sid).2 () after

theorem maybeReap_congr {reap env : Env} (ttl : env.ttl = reap.ttl) (now : env.now = reap.now) :
    world.maybeReap env sid = world.maybeReap reap sid := by
  unfold World.maybeReap World.idleWorker
  rw [ttl, now]

theorem closeExpired_workers {worker : Worker}
    (run : Smoothly (closeExpired sid worker) world () after) : after.workers = world.workers := by
  obtain ⟨first, _, run⟩ := smoothly_step run
  obtain ⟨second, _, run⟩ := smoothly_step run
  obtain ⟨third, _, run⟩ := smoothly_step run
  rw [(alone_done run).2]
  have kept : ∀ env op world, ¬Registers op → (perform env op world).2.workers = world.workers := by
    intro env op world other
    obtain ⟨_, _, _, _, same⟩ := perform_other env op world other
    rw [same]
  rw [kept third _ _ id, kept second _ _ id, kept first _ _ id]

theorem gated_of_run {reap noted : Env}
    (run : Entering reap noted (reapThenNote sid) world () after) : Gated sid reap noted world after := by
  obtain ⟨reaped, middle, taking, noting⟩ := alone_bind run
  obtain ⟨env', ⟨_, now⟩, noting⟩ := alone_call noting
  have last : after = if (middle.workers.get sid).isSome then middle.touch noted sid else middle := by
    have same : middle.touch env' sid = middle.touch noted sid := by
      unfold World.touch
      rw [show env'.now = noted.now from now]
    rw [← same]
    exact (alone_done noting).2
  obtain ⟨env, ⟨_, ttl, now⟩, taking⟩ := alone_call taking
  have answered : perform env (.maybeReap sid) world = world.maybeReap reap sid :=
    maybeReap_congr ttl now
  rw [answered] at taking
  rcases world.maybeReap_cases reap sid with ⟨same, none⟩ | ⟨worker, left, idle, taken, workers, _⟩
  · rw [same] at taking
    have still := (alone_done taking).2
    subst still
    refine ⟨fun _ => last, ?_⟩
    intro worker idle
    rw [none] at idle
    cases idle
  · rw [taken] at taking
    have taking : Alone perform _ (closeExpired sid worker >>= fun _ => pure true) left reaped middle :=
      taking
    obtain ⟨_, closed, close, finish⟩ := alone_bind taking
    have close : Smoothly (closeExpired sid worker) left () closed := alone_mono (fun _ _ _ => And.left) close
    have same := (alone_done finish).2
    subst same
    have vacant : middle.workers.get sid = none := by
      rw [closeExpired_workers close, workers, Dict.get_erase, if_pos rfl]
    rw [vacant, Option.isSome_none, if_neg Bool.false_ne_true] at last
    subst last
    constructor
    · intro live
      rw [idle] at live
      cases live
    · intro other found
      rw [idle] at found
      cases found
      rw [taken]
      exact close

/-- From the second identity check on. -/
def takeOver (sid temp aside : String) (plan : Plan) : Session Fields := do
  let (worker, _) ← step (.retire sid false)
  closeRetired sid worker
  match ← swapWorkspaces sid temp aside with
  | some failure => pure failure
  | none => do
      step (.record sid)
      let result ← finishRestoredSession sid plan
      pure (result ++ [("replaced", .bool true)])

/-- However a replacing restore is refused: the archive, the identity of the
directory, the quota, an extraction that breaks off.  Nothing has happened but
the gate, or it has come to the renames. -/
theorem refused_cases {allowed : Env → World → Op → Prop}
    (weaken : ∀ env world op, allowed env world op → Undoes aside env world op) {digits : String}
    {planned : Except Fields Plan} {result : Fields}
    (run : Alone perform allowed (snapshotRestore sid temp aside digits true planned) world result after)
    (fresh : world.root.get temp = none) :
    after = world ∨ Alone perform allowed (reapThenNote sid) world () after ∨
      ∃ plan gate extracted, Alone perform allowed (reapThenNote sid) world () gate ∧
        Beside temp gate extracted ∧
        Alone perform allowed (takeOver sid temp aside plan) extracted result after := by
  cases planned with
  | error refusal => exact .inl (alone_done run).2
  | ok plan =>
    have run : Alone perform allowed (snapshotRestoreReplace sid temp aside plan) world result after := run
    unfold snapshotRestoreReplace at run
    split at run
    · obtain ⟨_, _, run⟩ := alone_call run
      have looked : ∀ env, perform env (.isDir sid) world = ((world.root.get sid).isSome, world) :=
        fun _ => rfl
      rw [looked] at run
      cases there : (world.root.get sid).isSome with
      | false =>
        rw [there] at run
        exact .inl (alone_done run).2
      | true =>
        rw [there] at run
        right
        have run : Alone perform allowed (reapThenNote sid >>= _) world result after := run
        obtain ⟨_, gate, entered, run⟩ := alone_bind run
        have vacant : gate.root.get temp = none := by
          have same := (reapThenNote_keeps (alone_mono weaken entered)).2 temp
          rw [fresh, Option.map_none, Option.map_eq_none_iff] at same
          exact same
        suffices still : after = gate ∨ ∃ extracted, Beside temp gate extracted ∧
            Alone perform allowed (takeOver sid temp aside plan) extracted result after by
          rcases still with rfl | ⟨extracted, beside, rest⟩
          · exact .inl entered
          · exact .inr ⟨plan, gate, extracted, entered, beside, rest⟩
        obtain ⟨verified, checked, check, run⟩ := alone_bind run
        have same := identityVerified_keeps (alone_mono weaken check)
        subst same
        cases verified with
        | false => exact .inl (alone_done run).2
        | true =>
          obtain ⟨env, _, run⟩ := alone_call run
          have limited : perform env (.quota sid plan.totalBytes) checked = (env.limit, checked) := rfl
          rw [limited] at run
          cases limit : env.limit with
          | some refusal =>
            rw [limit] at run
            exact .inl (alone_done run).2
          | none =>
            rw [limit] at run
            have extraction : Alone perform allowed (materializeTarPlan temp >>= _) checked result after :=
              run
            obtain ⟨failure, extracted, extract, rest⟩ := alone_bind extraction
            rcases materializeTarPlan_cases vacant (alone_mono weaken extract) with
              ⟨⟨refusal, failed⟩, same⟩ | ⟨made, beside⟩
            · subst failed
              exact .inl ((alone_done rest).2.trans same)
            · subst made
              have rest : Alone perform allowed (identityVerified sid >>= _) extracted result after := rest
              obtain ⟨verified, checked', check, rest⟩ := alone_bind rest
              have same := identityVerified_keeps (alone_mono weaken check)
              subst same
              cases verified with
              | false =>
                obtain ⟨env, met, rest⟩ := alone_call rest
                left
                rw [(alone_done rest).2]
                exact beside_removed beside (weaken _ _ _ met)
              | true => exact .inr ⟨_, beside, rest⟩
    · exact .inl (alone_done run).2

theorem restored_ok {plan : Plan} {result : Fields} (run : Undoing aside (do
      step (.record sid)
      let result ← finishRestoredSession sid plan
      pure (result ++ [("replaced", .bool true)])) world result after) :
    entryOf "ok" result = some (.bool true) := by
  obtain ⟨_, _, run⟩ := undoing_step run
  have run : Undoing aside (finishRestoredSession sid plan >>= _) _ result after := run
  obtain ⟨restored, _, finish, last⟩ := alone_bind run
  have ok := finishRestoredSession_ok finish
  rw [(alone_done last).1, entryOf, List.lookup_append]
  rw [entryOf] at ok
  rw [ok]
  rfl

/-- Where no rename is refused there is nothing to undo. -/
theorem takeOver_smoothly {plan : Plan} {result : Fields}
    (run : Smoothly (takeOver sid temp aside plan) world result after) :
    entryOf "ok" result = some (.bool true) := by
  obtain ⟨env, _, run⟩ := smoothly_step run
  have run : Smoothly (closeRetired sid _ >>= _) _ result after := run
  obtain ⟨_, _, _, run⟩ := alone_bind run
  have run : Smoothly (swapWorkspaces sid temp aside >>= _) _ result after := run
  obtain ⟨failure, _, swap, run⟩ := alone_bind run
  have swapped := swapWorkspaces_smoothly swap
  subst swapped
  exact restored_ok (alone_mono (undoes_of_smooth aside) run)

theorem closeRetired_keeps {worker : Option Worker}
    (run : Undoing aside (closeRetired sid worker) world () after) : Bookkeeping world after := by
  cases worker with
  | none =>
    rw [(alone_done run).2]
    exact .refl
  | some worker =>
    obtain ⟨first, _, run⟩ := undoing_step run
    obtain ⟨second, _, run⟩ := undoing_step run
    rw [(alone_done run).2]
    have closed : Bookkeeping world (perform first (.close worker) world).2 := ⟨rfl, fun _ => rfl⟩
    exact closed.trans (bookkeeping_unless _ _ fun _ => rfl)

theorem rename_refused {env : Env} {source target text : String}
    (refused : (perform env (.rename source target) world).1 = some text) :
    (perform env (.rename source target) world).2 = world := by
  simp only [perform] at refused ⊢
  split
  · rfl
  · rename_i free
    rw [free] at refused
    simp only [World.rename] at refused ⊢
    split
    · rfl
    · rename_i moved found
      rw [found] at refused
      dsimp only at refused
      split at refused
      · cases refused
      · rename_i occupied
        rw [if_neg occupied]

theorem rename_done {env : Env} {source target : String}
    (renamed : (perform env (.rename source target) world).1 = none) :
    ∃ moved, world.root.get source = some moved ∧ (perform env (.rename source target) world).2 =
      { world with root := (world.root.erase source).set target moved } := by
  simp only [perform] at renamed ⊢
  split
  · rename_i text failed
    rw [failed] at renamed
    cases renamed
  · rename_i free
    rw [free] at renamed
    simp only [World.rename] at renamed ⊢
    split
    · rename_i missing
      rw [missing] at renamed
      cases renamed
    · rename_i moved found
      rw [found] at renamed
      dsimp only at renamed
      split at renamed
      · rename_i vacant
        rw [if_pos vacant]
        exact ⟨moved, found, rfl⟩
      · cases renamed

theorem rename_into {env : Env} {source target : String} {moved : Workspace}
    (free : env.failure = none) (found : world.root.get source = some moved)
    (vacant : world.root.get target = none) : (perform env (.rename source target) world).2 =
      { world with root := (world.root.erase source).set target moved } := by
  simp only [perform, free, World.rename, found, vacant, Option.all_none, if_true]

/-- A swap that fails has put everything back in its place. -/
theorem swapWorkspaces_undone {refusal : Fields} (apart : aside ≠ sid)
    (absent : world.root.get aside = none)
    (run : Undoing aside (swapWorkspaces sid temp aside) world (some refusal) after) :
    after.identities = world.identities ∧ after.root.get temp = none ∧
      ∀ name, name ≠ temp → after.root.get name = world.root.get name := by
  have removed : ∀ (env : Env) (left : World), env.failure = none →
      (perform env (.removeTree temp) left).2 = { left with root := left.root.erase temp } := by
    intro env left gone
    simp only [perform, gone, Option.isSome_none, Bool.false_eq_true, if_false]
  obtain ⟨first, _, run⟩ := undoing_step run
  cases answer : (perform first (.rename sid aside) world).1 with
  | some text =>
    rw [answer, rename_refused answer] at run
    obtain ⟨last, gone, run⟩ := undoing_step run
    rw [(alone_done run).2, removed last world gone]
    refine ⟨rfl, by rw [Dict.get_erase, if_pos rfl], ?_⟩
    intro name other
    rw [Dict.get_erase, if_neg other]
  | none =>
    obtain ⟨moved, found, renamed⟩ := rename_done answer
    rw [answer, renamed] at run
    obtain ⟨second, _, run⟩ := undoing_step run
    cases answer : (perform second (.rename temp sid)
        { world with root := (world.root.erase sid).set aside moved }).1 with
    | some text =>
      rw [answer, rename_refused answer] at run
      obtain ⟨third, free, run⟩ := undoing_step run
      have held : ((world.root.erase sid).set aside moved).get aside = some moved :=
        Dict.get_set_same _ _ _
      have vacant : ((world.root.erase sid).set aside moved).get sid = none := by
        rw [Dict.get_set_other _ _ apart.symm, Dict.get_erase, if_pos rfl]
      rw [rename_into (free rfl) held vacant] at run
      obtain ⟨last, gone, run⟩ := undoing_step run
      rw [(alone_done run).2, removed last _ gone]
      refine ⟨rfl, by rw [Dict.get_erase, if_pos rfl], ?_⟩
      intro name other
      rw [Dict.get_erase, if_neg other, Dict.get_set, Dict.get_erase, Dict.get_set, Dict.get_erase]
      by_cases same : name = sid
      · rw [if_pos same, same, found]
      · rw [if_neg same, if_neg same]
        by_cases left : name = aside
        · rw [if_pos left, left, absent]
        · rw [if_neg left, if_neg left]
    | none =>
      rw [answer] at run
      obtain ⟨_, _, run⟩ := undoing_step run
      cases (alone_done run).1

theorem takeOver_undone {plan : Plan} {result : Fields} (apart : aside ≠ sid)
    (absent : world.root.get aside = none)
    (run : Undoing aside (takeOver sid temp aside plan) world result after)
    (refused : entryOf "ok" result = some (.bool false)) :
    after.identities = world.identities ∧ after.root.get temp = none ∧ ∀ name, name ≠ temp →
      (after.root.get name).map Workspace.files = (world.root.get name).map Workspace.files := by
  obtain ⟨env, _, run⟩ := undoing_step run
  have retired : Bookkeeping world (perform env (.retire sid false) world).2 := by
    obtain ⟨_, _, same⟩ := perform_retire env sid false world
    rw [same]
    exact ⟨rfl, fun _ => rfl⟩
  have run : Undoing aside (closeRetired sid _ >>= _) _ result after := run
  obtain ⟨_, closed, close, run⟩ := alone_bind run
  have kept := retired.trans (closeRetired_keeps close)
  have vacant : closed.root.get aside = none := by
    have same := kept.2 aside
    rw [absent, Option.map_none, Option.map_eq_none_iff] at same
    exact same
  have run : Undoing aside (swapWorkspaces sid temp aside >>= _) _ result after := run
  obtain ⟨failure, swapped, swap, run⟩ := alone_bind run
  cases failure with
  | none =>
    rw [restored_ok run] at refused
    cases refused
  | some refusal =>
    obtain ⟨identities, gone, same⟩ := swapWorkspaces_undone apart vacant swap
    rw [(alone_done run).2]
    refine ⟨identities.trans kept.1, gone, ?_⟩
    intro name other
    rw [same name other, kept.2 name]

/-- A replacing restore that is refused leaves every file and every recorded
identity as it was, and no directory of its own.  Where no rename is refused,
nothing at all has happened but the gate, at the clock the gate has read. -/
theorem restore_refused_keeps {digits : String} {planned : Except Fields Plan} {result : Fields}
    (run : Undoing aside (snapshotRestore sid temp aside digits true planned) world result after)
    (fresh : world.root.get temp = none) (absent : world.root.get aside = none) (apart : aside ≠ sid)
    (different : aside ≠ temp) (refused : entryOf "ok" result = some (.bool false)) :
    Bookkeeping world after ∧ ∀ reap noted,
      Entering reap noted (snapshotRestore sid temp aside digits true planned) world result after →
      after = world ∨ Gated sid reap noted world after := by
  constructor
  · rcases refused_cases (fun _ _ _ => id) run fresh with same | entered |
      ⟨plan, gate, extracted, entered, beside, rest⟩
    · rw [same]
      exact .refl
    · exact reapThenNote_keeps entered
    · have gated := reapThenNote_keeps entered
      obtain ⟨root, rfl, same⟩ := beside
      have others : ∀ name, name ≠ temp → root.get name = gate.root.get name := by
        intro name other
        rw [← same, Dict.get_erase, if_neg other]
      have vacant : root.get aside = none := by
        have kept := gated.2 aside
        rw [absent, Option.map_none, Option.map_eq_none_iff] at kept
        rw [others aside different, kept]
      obtain ⟨identities, gone, files⟩ := takeOver_undone apart vacant rest refused
      refine ⟨identities.trans gated.1, ?_⟩
      intro name
      by_cases other : name = temp
      · rw [other, gone, fresh]
      · rw [files name other, ← gated.2 name]
        exact congrArg _ (others name other)
  · intro reap noted smooth
    rcases refused_cases (fun env world op met => undoes_of_smooth aside env world op met.1) smooth fresh
      with same | entered | ⟨plan, gate, extracted, _, beside, rest⟩
    · exact .inl same
    · exact .inr (gated_of_run entered)
    · rw [takeOver_smoothly (alone_mono (fun _ _ _ => And.left) rest)] at refused
      cases refused

end Steps

def isRefusal (result : Fields) : Bool :=
  match entryOf "ok" result with
  | some (.bool false) => true
  | _ => false

theorem refused_of_isRefusal {result : Fields} (refused : isRefusal result = true) :
    entryOf "ok" result = some (.bool false) := by
  unfold isRefusal at refused
  split at refused
  · assumption
  · cases refused

def undoes (env : Env) : Op → Bool
  | .rename source _ => source ≠ "aside" || env.failure.isNone
  | .removeTree _ => env.failure.isNone
  | _ => true

theorem undoes_sound (env : Env) (world : World) (op : Op) (met : undoes env op = true) :
    Undoes "aside" env world op := by
  cases op with
  | rename source target =>
    intro same
    simp only [undoes, same, ne_eq, not_true_eq_false, decide_false, Bool.false_or,
      Option.isNone_iff_eq_none] at met
    exact met
  | removeTree name => exact Option.isNone_iff_eq_none.mp met
  | _ => trivial

/-- A session with a worker, five seconds after it was started. -/
def opened : World :=
  (play ⟨some, fun _ => "10"⟩ (boot 1) (.ask (.start "python3" "0") ::
    List.replicate 5 (.go 0 { identity := some (1, 1) }))).state

def restore : Session Fields :=
  snapshotRestore "python3-0" "temp" "aside" "1" true (.ok ⟨"python3", 0, 0⟩)

def smooth (env : Env) (world : World) : Op → Bool
  | .rename source target => (perform env (.rename source target) world).1.isNone
  | .removeTree _ => env.failure.isNone
  | _ => true

theorem smooth_sound (env : Env) (world : World) (op : Op) (met : smooth env world op = true) :
    Smooth env world op := by
  cases op with
  | rename source target => exact Option.isNone_iff_eq_none.mp met
  | removeTree name => exact Option.isNone_iff_eq_none.mp met
  | _ => trivial

def present : Env := { now := 5 }

def overQuota : List Env := List.replicate 5 present ++ [{ refusal := some ("", []) }]

/-- The new workspace cannot be put in its place. -/
def outOfPlace : List Env :=
  List.replicate 14 present ++ { failure := some "" } :: List.replicate 2 present

def entering (env : Env) (world : World) (op : Op) : Bool :=
  smooth env world op && match op with
    | .maybeReap _ => decide (env.ttl = none ∧ env.now = 5)
    | .note _ => decide (env.now = 5)
    | _ => true

theorem entering_sound (env : Env) (world : World) (op : Op) (met : entering env world op = true) :
    Smooth env world op ∧ Entered present present env op := by
  simp only [entering, Bool.and_eq_true] at met
  refine ⟨smooth_sound env world op met.1, ?_⟩
  cases op with
  | maybeReap sid =>
    obtain ⟨ttl, now⟩ : env.ttl = none ∧ env.now = 5 := of_decide_eq_true met.2
    exact ⟨ttl, now⟩
  | note sid =>
    have now : env.now = 5 := of_decide_eq_true met.2
    exact now
  | _ => trivial

theorem overQuota_refused : ∃ result after, Entering present present restore opened result after ∧
    entryOf "ok" result = some (.bool false) ∧
    after.lastActivity.get "python3-0" = some 5 := by
  have refused : (restore.follow perform entering overQuota opened).map
      (fun last => (isRefusal last.1, last.2.lastActivity.get "python3-0")) =
        some (true, some 5) := by decide
  obtain ⟨⟨result, after⟩, followed, refused⟩ := Option.map_eq_some_iff.mp refused
  obtain ⟨refused, touched⟩ := Prod.mk.inj refused
  exact ⟨result, after, alone_of_follow entering_sound followed, refused_of_isRefusal refused, touched⟩

theorem outOfPlace_refused : ∃ result after, Undoing "aside" restore opened result after ∧
    entryOf "ok" result = some (.bool false) ∧ after.workers.get "python3-0" = none := by
  have refused : (restore.follow perform (fun env _ op => undoes env op) outOfPlace opened).map
      (fun last => (isRefusal last.1, last.2.workers.get "python3-0")) = some (true, none) := by
    decide
  obtain ⟨⟨result, after⟩, followed, refused⟩ := Option.map_eq_some_iff.mp refused
  obtain ⟨refused, closed⟩ := Prod.mk.inj refused
  exact ⟨result, after, alone_of_follow undoes_sound followed, refused_of_isRefusal refused, closed⟩

theorem restore_refused_keeps_opened :
    (∃ after, Bookkeeping opened after ∧ after.workers.get "python3-0" = none) ∧
      ∃ after, after.lastActivity.get "python3-0" = some 5 ∧
        (after = opened ∨ Gated "python3-0" present present opened after) := by
  constructor
  · obtain ⟨result, after, run, refused, closed⟩ := outOfPlace_refused
    exact ⟨after, (restore_refused_keeps run (by decide) (by decide) (by decide)
      (by decide) refused).1, closed⟩
  · obtain ⟨result, after, run, refused, touched⟩ := overQuota_refused
    have undoing : Undoing "aside" restore opened result after :=
      alone_mono (fun env world op met => undoes_of_smooth "aside" env world op met.1) run
    exact ⟨after, touched, (restore_refused_keeps undoing (by decide) (by decide) (by decide)
      (by decide) refused).2 present present run⟩

/-- The idle clock of the session has been set all the same. -/
theorem restore_refused_touches : ¬∀ sid temp aside digits planned world result after,
    Smoothly (snapshotRestore sid temp aside digits true planned) world result after →
    world.root.get temp = none → world.root.get aside = none → aside ≠ sid → aside ≠ temp →
    entryOf "ok" result = some (.bool false) →
    after.lastActivity.get sid = world.lastActivity.get sid := by
  intro unchanged
  obtain ⟨result, after, run, refused, touched⟩ := overQuota_refused
  have same := unchanged _ _ _ _ _ opened result after (alone_mono (fun _ _ _ => And.left) run)
    (by decide) (by decide) (by decide) (by decide) refused
  rw [touched] at same
  exact absurd same (by decide)

end CodeCalc.Sessions
