import CodeCalc.Sessions.Operations
import CodeCalc.Sessions.Steps
import Mathlib.Data.List.Sort

/-! `codecalc cleanup`, a process of its own beside a running server.  It goes
through the session root once, remembers name and inode of each directory it may
remove, and then removes them one by one.  All it shares with the server is what
is on disk. -/
namespace CodeCalc.Sessions
open Lib Errors

/-- What the operator asks for. -/
structure Options where
  write : Bool
  includeUnmarked : Bool
  /-- `_abandoned_age_seconds()`. -/
  abandonedAge : ℚ
  /-- `SESSION_ROOT.resolve()`. -/
  root : String

def recentMtimeGuard : ℚ := 300

/-- The formats `:.0f`, `:.1f` and `:g`. -/
structure Figures where
  whole : ℚ → String
  tenths : ℚ → String
  general : ℚ → String

inductive Finding where
  | symlink
  | notDirectChild
  | noIdentity
  | recent (age : ℚ)
  | owned
  | unmarked
  | young
  | idleExpired
  | abandoned (age : ℚ)

def Finding.reason (figures : Figures) (options : Options) : Finding → String
  | symlink => "refused: symlink at SESSION_ROOT top level, not followed"
  | notDirectChild => "refused: not a direct child of SESSION_ROOT"
  | noIdentity => "refused: no stable directory identity available"
  | recent age => "skipped: modified " ++ figures.whole age ++ "s ago, under the " ++
      figures.general recentMtimeGuard ++ "s active-session floor"
  | owned => "refused: a live codecalc server process still holds this session's worker lock"
  | unmarked => "skipped: no expiry marker (pass include_unmarked=True / --include-unmarked to also " ++
      "consider old, unmarked, session-shaped directories — see the module docstring for why that " ++
      "path is opt-in)"
  | young => "skipped: no expiry marker and under the age threshold"
  | idleExpired => "idle-expired (on-disk marker present)"
  | abandoned age => "abandoned (untouched " ++ figures.tenths (age / 3600) ++ "h, over the " ++
      figures.general (options.abandonedAge / 3600) ++ "h threshold, " ++
      "CODECALC_CLEANUP_ABANDONED_AGE_HOURS)"

/-- A directory that may be removed, as the scan has seen it. -/
structure Eligible where
  sessionId : String
  finding : Finding
  sizeBytes : Nat
  ageSeconds : ℚ
  identity : Identity

def Eligible.key (candidate : Eligible) : String × Identity := (candidate.sessionId, candidate.identity)

inductive Candidate where
  | spared (sessionId : String) (finding : Finding)
  | eligible (which : Eligible)

def Candidate.eligible? : Candidate → Option Eligible
  | spared _ _ => none
  | eligible which => some which

structure Report where
  candidates : List Candidate
  removed : List Eligible := []
  removalErrors : List Eligible := []

/-- The dictionary `cleanup` returns. -/
def Report.fields (figures : Figures) (options : Options) (report : Report) : Fields :=
  let path := fun name => Json.str (options.root ++ "/" ++ name)
  let eligible := report.candidates.filterMap Candidate.eligible?
  let entry := fun (candidate : Eligible) =>
    [("session_id", .str candidate.sessionId), ("path", path candidate.sessionId),
      ("size_bytes", .int candidate.sizeBytes)]
  [("ok", .bool true), ("write", .bool options.write),
    ("include_unmarked", .bool options.includeUnmarked), ("session_root", .str options.root),
    ("candidates", .arr (report.candidates.map fun
      | .spared name finding => .obj [("session_id", .str name), ("path", path name),
          ("eligible", .bool false), ("reason", .str (finding.reason figures options))]
      | .eligible which => .obj [("session_id", .str which.sessionId),
          ("path", path which.sessionId), ("eligible", .bool true),
          ("reason", .str (which.finding.reason figures options)),
          ("size_bytes", .int which.sizeBytes), ("age_seconds", .float which.ageSeconds)])),
    ("eligible_count", .int eligible.length),
    ("total_candidate_bytes", .int (eligible.map Eligible.sizeBytes).sum),
    ("removed", .arr (report.removed.map fun candidate => .obj (entry candidate))),
    ("removal_errors", .arr (report.removalErrors.map fun candidate =>
      .obj (entry candidate ++ [("error", .str "removal refused or incomplete; see stderr")]))),
    ("total_reclaimed_bytes", .int (report.removed.map Eligible.sizeBytes).sum)]

/-- The entry the scan has come to, those that follow, and `out`. -/
structure Scan where
  entry : String
  rest : List String
  out : List Candidate

/-- Where `cleanup` stands: the step it comes to, and its local variables. -/
inductive Cleaner where
  | listing
  | lstat (scan : Scan)
  | resolve (scan : Scan) (age : ℚ)
  | identity (scan : Scan) (age : ℚ)
  | owner (scan : Scan) (age : ℚ) (identity : Identity)
  | marker (scan : Scan) (age : ℚ) (identity : Identity)
  | size (scan : Scan) (age : ℚ) (identity : Identity) (finding : Finding)
  | check (candidate : Eligible) (rest : List Eligible) (report : Report)
  | delete (candidate : Eligible) (rest : List Eligible) (report : Report)
  | left (candidate : Eligible) (rest : List Eligible) (report : Report)
  | finished (report : Report)

/-- What a step finds besides the directories of the session root. -/
structure View where
  rootIsDir : Bool := true
  /-- The entries that are no directories; is it a symbolic link? -/
  strays : List (String × Bool) := []
  /-- `now - st_mtime`. -/
  age : ℚ := 0
  directChild : Bool := true
  /-- `_is_pid_alive`. -/
  alive : Nat → Bool
  /-- A read or a removal that fails. -/
  failure : Bool := false
  size : Nat := 0
  /-- The files that a failed removal leaves. -/
  files : Files := []

namespace Cleaner

/-- The head of the second loop. -/
def removeFrom (report : Report) : List Eligible → Cleaner
  | [] => finished report
  | candidate :: rest => check candidate rest report

/-- The head of the first loop; past its end, what `cleanup` does with `out`. -/
def scanFrom (options : Options) (out : List Candidate) : List String → Cleaner
  | [] =>
      if options.write then removeFrom { candidates := out } (out.filterMap Candidate.eligible?)
      else finished { candidates := out }
  | entry :: rest => lstat ⟨entry, rest, out⟩

/-- `out.append({.., "eligible": False, ..})` and `continue`. -/
def spare (options : Options) (scan : Scan) (finding : Finding) : Cleaner :=
  scanFrom options (scan.out ++ [.spared scan.entry finding]) scan.rest

def lockOwnerAlive (view : View) (world : World) (name : String) : Bool :=
  match (world.root.get name).bind Workspace.lock with
  | none => false
  | some pid => !view.failure && view.alive pid

def next (options : Options) (view : View) (world : World) : Cleaner → Cleaner × World
  | listing =>
      if view.rootIsDir then
        (scanFrom options [] ((world.root.keys ++ view.strays.map Prod.fst).insertionSort (· ≤ ·)), world)
      else (scanFrom options [] [], world)
  | lstat scan =>
      match world.root.get scan.entry, view.strays.lookup scan.entry with
      | some _, _ => (resolve scan view.age, world)
      | none, some true => (spare options scan .symlink, world)
      | none, _ => (scanFrom options scan.out scan.rest, world)
  | resolve scan age =>
      if view.directChild then (identity scan age, world)
      else (spare options scan .notDirectChild, world)
  | identity scan age =>
      match world.dirIdentity scan.entry with
      | none => (spare options scan .noIdentity, world)
      | some found =>
          if age < recentMtimeGuard then (spare options scan (.recent age), world)
          else (owner scan age found, world)
  | owner scan age found =>
      if lockOwnerAlive view world scan.entry then (spare options scan .owned, world)
      else (marker scan age found, world)
  | marker scan age found =>
      if !view.failure && (world.root.get scan.entry).any Workspace.marked then
        (size scan age found .idleExpired, world)
      else if !options.includeUnmarked then (spare options scan .unmarked, world)
      else if safeName scan.entry && decide (options.abandonedAge ≤ age) then
        (size scan age found (.abandoned age), world)
      else (spare options scan .young, world)
  | size scan age found finding =>
      (scanFrom options (scan.out ++ [.eligible ⟨scan.entry, finding, view.size, age, found⟩]) scan.rest,
        world)
  | check candidate rest report =>
      if world.dirIdentity candidate.sessionId = some candidate.identity then
        (delete candidate rest report, world)
      else
        (removeFrom { report with removalErrors := report.removalErrors ++ [candidate] } rest, world)
  | delete candidate rest report =>
      (left candidate rest report,
        if view.failure then
          world.atDir candidate.sessionId fun there => { there with files := view.files }
        else { world with root := world.root.erase candidate.sessionId })
  | left candidate rest report =>
      let gone := (world.root.get candidate.sessionId).isNone &&
        (view.strays.lookup candidate.sessionId).isNone
      (removeFrom (if gone then { report with removed := report.removed ++ [candidate] }
        else { report with removalErrors := report.removalErrors ++ [candidate] }) rest, world)
  | finished report => (finished report, world)

/-- The directories that have been found without a live owner and not been dealt
with yet: those that may be removed, and the one the scan is still at. -/
def passed : Cleaner → List (String × Identity)
  | listing | finished _ => []
  | lstat scan | resolve scan _ | identity scan _ | owner scan _ _ =>
      (scan.out.filterMap Candidate.eligible?).map Eligible.key
  | marker scan _ found | size scan _ found _ =>
      (scan.entry, found) :: (scan.out.filterMap Candidate.eligible?).map Eligible.key
  | check candidate rest _ | delete candidate rest _ => (candidate :: rest).map Eligible.key
  | left _ rest _ => rest.map Eligible.key

/-- The path that is about to be removed, whatever directory is there. -/
def target : Cleaner → Option String
  | delete candidate _ _ => some candidate.sessionId
  | _ => none

/-- A directory of this identity is taken for one without a live owner at this
name. -/
def Claims (cleaner : Cleaner) (name : String) (found : Option Identity) : Prop :=
  cleaner.target = some name ∨ ∃ key ∈ cleaner.passed, key.1 = name ∧ found = some key.2

instance (cleaner : Cleaner) (name : String) (found : Option Identity) :
    Decidable (cleaner.Claims name found) :=
  inferInstanceAs (Decidable (_ ∨ ∃ key ∈ cleaner.passed, key.1 = name ∧ found = some key.2))

end Cleaner

def Held (world : World) (name : String) : Prop :=
  (world.root.get name).bind Workspace.lock = some world.pid

instance (world : World) (name : String) : Decidable (Held world name) :=
  inferInstanceAs (Decidable (_ = _))

structure Site where
  server : Server
  cleaner : Cleaner

/-- The cleanup sees that the server is alive, and can read the lock it looks
for. -/
def Sees (view : View) (site : Site) : Prop :=
  view.alive site.server.state.pid = true ∧
    ∀ scan age found, site.cleaner = .owner scan age found → view.failure = false

inductive Site.Step (host : Host) (options : Options) (allowed : Env → Site → Op → Prop) (site : Site) :
    Site → Prop
  | server (after : Server)
      (step : Pool.Step perform (Requested host) (fun env server op => allowed env ⟨server, site.cleaner⟩ op)
        site.server after) :
      Step host options allowed site ⟨after, site.cleaner⟩
  | cleaner (view : View) (sees : Sees view site) :
      Step host options allowed site
        ⟨{ site.server with state := (site.cleaner.next options view site.server.state).2 },
          (site.cleaner.next options view site.server.state).1⟩

abbrev Site.Steps (host : Host) (options : Options) (allowed : Env → Site → Op → Prop) :
    Site → Site → Prop :=
  Relation.ReflTransGen (Site.Step host options allowed)

/-- The server writes no lock into a directory that the cleanup has taken for
one without a live owner, and moves none with its lock to such a place. -/
def Unintruding (env : Env) (site : Site) : Op → Prop
  | .writeLock name => env.failure = none →
      ¬site.cleaner.Claims name (site.server.state.dirIdentity name)
  | .rename source target => env.failure = none → Held site.server.state source →
      ¬site.cleaner.Claims target (site.server.state.dirIdentity source)
  | _ => True

instance (env : Env) (site : Site) : (op : Op) → Decidable (Unintruding env site op)
  | .writeLock _ => inferInstanceAs (Decidable (_ → _))
  | .rename _ _ => inferInstanceAs (Decidable (_ → _ → _))
  | .isDir _ | .precheck _ | .maybeReap _ | .workerOrExpired _ | .note _ | .candidates | .retire _ _
  | .register _ _ _ | .recorded _ | .record _ | .idleTtl | .expiredOnDisk _ | .close _
  | .writeMarker _ | .removeLock _ | .run _ _ | .fresh _ | .work _ | .makeDir _ | .spawn _ _
  | .dirIdentity _ | .quota _ _ | .extract _ | .removeTree _ | .lexists _ | .deleteSnapshots _ =>
      isTrue trivial

/-- What the cleanup is about to remove is not in use. -/
def SparesHeld (site : Site) : Prop :=
  ∀ name, site.cleaner.target = some name → ¬Held site.server.state name

/-- Nothing the cleanup has passed has come to be in use since. -/
def Sound (site : Site) : Prop :=
  ∀ name, site.cleaner.Claims name (site.server.state.dirIdentity name) →
    ¬Held site.server.state name

section Steps

variable {world after : World} {name : String}

def Stays (name : String) (world after : World) : Prop :=
  after.pid = world.pid ∧ (Held after name → Held world name ∧
    after.dirIdentity name = world.dirIdentity name)

theorem Stays.refl : Stays name world world := ⟨rfl, fun held => ⟨held, rfl⟩⟩

theorem Stays.of_root (pid : after.pid = world.pid) (root : after.root = world.root) :
    Stays name world after := by
  refine ⟨pid, ?_⟩
  unfold Held World.dirIdentity
  rw [root, pid]
  intro held
  exact ⟨held, rfl⟩

theorem stays_atDir (world : World) (other : String) {change : Workspace → Workspace}
    (keeps : ∀ there, (change there).identity = there.identity)
    (releases : ∀ there, (change there).lock = there.lock ∨ (change there).lock = none) :
    Stays name world (world.atDir other change) := by
  unfold World.atDir
  split
  · rename_i there found
    refine ⟨rfl, ?_⟩
    by_cases same : name = other
    · subst same
      intro held
      simp only [Held, World.dirIdentity, Dict.get_set_same, found, Option.bind_some] at held ⊢
      rcases releases there with same | gone
      · exact ⟨same ▸ held, keeps there⟩
      · rw [gone] at held
        cases held
    · simp only [Held, World.dirIdentity, Dict.get_set_other _ _ same]
      exact fun held => ⟨held, trivial⟩
  · exact .refl

theorem stays_erase (other : String) :
    Stays name world { world with root := world.root.erase other } := by
  refine ⟨rfl, ?_⟩
  simp only [Held, World.dirIdentity, Dict.get_erase]
  split
  · intro held
    cases held
  · exact fun held => ⟨held, rfl⟩

theorem stays_maybeReap (env : Env) (sid : String) : Stays name world (world.maybeReap env sid).2 := by
  unfold World.maybeReap
  split
  · exact .refl
  · rename_i worker idle
    obtain ⟨_, _, same⟩ := World.markExpired_eq { world with
      workers := world.workers.erase sid
      lastActivity := world.lastActivity.erase sid
      reaped := worker.stamp :: world.reaped } sid
    rw [same]
    exact .of_root rfl rfl

theorem stays_perform (env : Env) (op : Op) (unlocking : ∀ name, op ≠ .writeLock name)
    (unmoving : ∀ source target, op ≠ .rename source target) :
    Stays name world (perform env op world).2 := by
  cases op with
  | writeLock other => exact absurd rfl (unlocking other)
  | rename source target => exact absurd rfl (unmoving source target)
  | maybeReap sid => exact stays_maybeReap env sid
  | workerOrExpired sid =>
    simp only [perform]
    rcases world.workerOrExpired_cases env sid with ⟨_, same⟩ | ⟨_, _, after, reap, same⟩ | ⟨_, _, same⟩
    · rw [same]
      exact .refl
    · have stays := @stays_maybeReap world name env sid
      rw [reap] at stays
      rwa [same]
    · rw [same]
      exact .refl
  | retire sid forget =>
    obtain ⟨_, _, same⟩ := perform_retire env sid forget world
    rw [same]
    exact .of_root rfl rfl
  | register sid language fresh =>
    obtain ⟨_, _, same⟩ := perform_register env sid language fresh world
    rw [same]
    exact .of_root rfl rfl
  | note sid =>
    simp only [perform]
    split <;> exact .of_root rfl rfl
  | writeMarker other =>
    simp only [perform]
    split
    · exact .refl
    · exact stays_atDir world other (fun _ => rfl) fun _ => .inl rfl
  | removeLock other =>
    simp only [perform]
    split
    · exact .refl
    · exact stays_atDir world other (fun _ => rfl) fun _ => .inr rfl
  | run sid worker =>
    exact stays_atDir { world with closed := _ } sid (fun _ => rfl) fun _ => .inl rfl
  | fresh sid | work sid | extract sid =>
    exact stays_atDir world sid (fun _ => rfl) fun _ => .inl rfl
  | makeDir other =>
    simp only [perform]
    split
    · exact .refl
    · refine ⟨rfl, ?_⟩
      simp only [Held, World.dirIdentity, Dict.get_set]
      split
      · intro held
        cases held
      · exact fun held => ⟨held, rfl⟩
  | removeTree other =>
    simp only [perform]
    split
    · exact stays_atDir world other (fun _ => rfl) fun _ => .inl rfl
    · exact stays_erase other
  | _ => exact .of_root rfl rfl

theorem dirIdentity_atDir (world : World) (other : String) {change : Workspace → Workspace}
    (keeps : ∀ there, (change there).identity = there.identity) (name : String) :
    (world.atDir other change).dirIdentity name = world.dirIdentity name := by
  unfold World.atDir World.dirIdentity
  split
  · rename_i there found
    rw [Dict.get_set]
    split
    · rename_i same
      rw [same, found, Option.bind_some, Option.bind_some, keeps]
    · rfl
  · rfl

theorem stays_writeLock (env : Env) (other : String)
    (apart : env.failure = none → name ≠ other) :
    Stays name world (perform env (.writeLock other) world).2 := by
  simp only [perform]
  split
  · exact .refl
  · rename_i written
    have apart := apart (Option.not_isSome_iff_eq_none.mp written)
    unfold World.atDir
    split
    · refine ⟨rfl, ?_⟩
      simp only [Held, World.dirIdentity, Dict.get_set_other _ _ apart]
      exact fun held => ⟨held, trivial⟩
    · exact .refl

theorem rename_cases (env : Env) (source target : String) :
    Stays name world (perform env (.rename source target) world).2 ∨
      env.failure = none ∧ name = target ∧
        (perform env (.rename source target) world).2.pid = world.pid ∧
        (perform env (.rename source target) world).2.root.get name = world.root.get source := by
  simp only [perform]
  split
  · exact .inl .refl
  · rename_i free
    unfold World.rename
    split
    · exact .inl .refl
    · rename_i moved found
      split
      · by_cases same : name = target
        · exact .inr ⟨free, same, rfl, by rw [same, Dict.get_set_same, found]⟩
        · left
          have stays := @stays_erase world name source
          refine ⟨rfl, ?_⟩
          simpa only [Held, World.dirIdentity, Dict.get_set_other _ _ same] using stays.2
      · exact .inl .refl

end Steps

section Runs

variable {host : Host} {options : Options} {site after : Site}

theorem sound_server (env : Env) (op : Op) (cleaner : Cleaner) (server : Server)
    (threads : List (Session Fields)) (met : Unintruding env ⟨server, cleaner⟩ op)
    (sound : Sound ⟨server, cleaner⟩) :
    Sound ⟨⟨(perform env op server.state).2, threads⟩, cleaner⟩ := by
  intro name claims held
  have kept : ¬Stays name server.state (perform env op server.state).2 := by
    rintro ⟨_, stays⟩
    obtain ⟨before, same⟩ := stays held
    rw [same] at claims
    exact sound name claims before
  by_cases writes : ∃ other, op = .writeLock other
  · obtain ⟨other, rfl⟩ := writes
    by_cases written : env.failure = none ∧ name = other
    · obtain ⟨written, rfl⟩ := written
      have same : (perform env (.writeLock name) server.state).2.dirIdentity name =
          server.state.dirIdentity name := by
        simp only [perform, written, Option.isSome_none, Bool.false_eq_true, if_false]
        apply dirIdentity_atDir
        exact fun _ => rfl
      rw [same] at claims
      exact met written claims
    · exact kept (stays_writeLock env other fun free same => written ⟨free, same⟩)
  · by_cases moves : ∃ source target, op = .rename source target
    · obtain ⟨source, target, rfl⟩ := moves
      rcases @rename_cases server.state name env source target with stays | ⟨free, rfl, pid, there⟩
      · exact kept stays
      · simp only [Held, World.dirIdentity, there, pid] at held claims
        exact met free held claims
    · apply kept
      apply stays_perform
      · intro other same
        exact writes ⟨other, same⟩
      · intro source target same
        exact moves ⟨source, target, same⟩

theorem passed_removeFrom (report : Report) (rest : List Eligible) :
    (Cleaner.removeFrom report rest).target = none ∧
      (Cleaner.removeFrom report rest).passed = rest.map Eligible.key := by
  cases rest <;> exact ⟨rfl, rfl⟩

theorem passed_scanFrom (out : List Candidate) (rest : List String) :
    (Cleaner.scanFrom options out rest).target = none ∧
      ∀ key ∈ (Cleaner.scanFrom options out rest).passed,
        key ∈ (out.filterMap Candidate.eligible?).map Eligible.key := by
  cases rest with
  | nil =>
    obtain ⟨aimless, same⟩ :=
      passed_removeFrom { candidates := out } (out.filterMap Candidate.eligible?)
    unfold Cleaner.scanFrom
    by_cases writes : options.write = true
    · rw [if_pos writes, same]
      exact ⟨aimless, fun _ member => member⟩
    · rw [if_neg writes]
      refine ⟨rfl, ?_⟩
      intro key member
      cases member
  | cons entry rest => exact ⟨rfl, fun _ member => member⟩

theorem claims_mono {before later : Cleaner} {name : String} {found : Option Identity}
    (aimless : later.target = none) (fewer : ∀ key ∈ later.passed, key ∈ before.passed)
    (claims : later.Claims name found) : before.Claims name found := by
  rcases claims with aimed | ⟨key, member, named⟩
  · rw [aimless] at aimed
    cases aimed
  · exact .inr ⟨key, fewer key member, named⟩

theorem claims_spare {before : Cleaner} {scan : Scan} {finding : Finding} {name : String}
    {found : Option Identity}
    (passed : ∀ key ∈ (scan.out.filterMap Candidate.eligible?).map Eligible.key, key ∈ before.passed)
    (claims : (Cleaner.spare options scan finding).Claims name found) : before.Claims name found := by
  obtain ⟨aimless, fewer⟩ := @passed_scanFrom options
    (scan.out ++ [.spared scan.entry finding]) scan.rest
  apply claims_mono aimless _ claims
  intro key member
  have member := fewer key member
  rw [List.filterMap_append, List.map_append] at member
  apply passed
  simpa [Candidate.eligible?] using member

theorem sound_cleaner (view : View) (sees : Sees view site) (sound : Sound site) :
    Sound ⟨{ site.server with state := (site.cleaner.next options view site.server.state).2 },
      (site.cleaner.next options view site.server.state).1⟩ := by
  obtain ⟨server, cleaner⟩ := site
  have onward : ∀ later : Cleaner, (∀ name found, later.Claims name found → cleaner.Claims name found) →
      Sound ⟨server, later⟩ :=
    fun later fewer name claims => sound name (fewer name _ claims)
  have removing : ∀ report rest, (∀ key ∈ rest.map Eligible.key, key ∈ cleaner.passed) →
      Sound ⟨server, Cleaner.removeFrom report rest⟩ := by
    intro report rest fewer
    apply onward
    intro name found claims
    obtain ⟨aimless, same⟩ := passed_removeFrom report rest
    exact claims_mono aimless (same ▸ fewer) claims
  have sparing : ∀ scan finding,
      (∀ key ∈ (scan.out.filterMap Candidate.eligible?).map Eligible.key, key ∈ cleaner.passed) →
      Sound ⟨server, Cleaner.spare options scan finding⟩ :=
    fun scan finding passed => onward _ fun name found => claims_spare passed
  have scanning : ∀ out rest,
      (∀ key ∈ (out.filterMap Candidate.eligible?).map Eligible.key, key ∈ cleaner.passed) →
      Sound ⟨server, Cleaner.scanFrom options out rest⟩ := by
    intro out rest passed
    apply onward
    intro name found claims
    obtain ⟨aimless, fewer⟩ := @passed_scanFrom options out rest
    exact claims_mono aimless (fun key member => passed key (fewer key member)) claims
  cases cleaner with
  | listing =>
    simp only [Cleaner.next]
    split
    · apply scanning
      intro _ member
      cases member
    · refine scanning [] [] ?_
      intro _ member
      cases member
  | lstat scan =>
    simp only [Cleaner.next]
    split
    · exact onward _ fun _ _ => id
    · exact sparing scan _ fun _ => id
    · exact scanning scan.out _ fun _ => id
  | resolve scan age =>
    simp only [Cleaner.next]
    split
    · exact onward _ fun _ _ => id
    · exact sparing scan _ fun _ => id
  | identity scan age =>
    simp only [Cleaner.next]
    split
    · exact sparing scan _ fun _ => id
    · split
      · exact sparing scan _ fun _ => id
      · exact onward _ fun _ _ => id
  | owner scan age found =>
    simp only [Cleaner.next]
    split
    · exact sparing scan _ fun _ => id
    · rename_i unowned
      rintro name (aimed | ⟨key, member, rfl, there⟩) held
      · cases aimed
      · rcases List.mem_cons.mp member with rfl | member
        · apply unowned
          simp only [Cleaner.lockOwnerAlive, Held] at held ⊢
          rw [held]
          simp only [sees.1, sees.2 _ _ _ rfl, Bool.not_false, Bool.and_self]
        · exact sound key.1 (.inr ⟨key, member, rfl, there⟩) held
  | marker scan age found =>
    have passed : ∀ key ∈ (scan.out.filterMap Candidate.eligible?).map Eligible.key,
        key ∈ (Cleaner.marker scan age found).passed := fun _ => List.mem_cons_of_mem _
    simp only [Cleaner.next]
    split
    · exact onward _ fun _ _ => id
    · split
      · exact sparing scan _ passed
      · split
        · exact onward _ fun _ _ => id
        · exact sparing scan _ passed
  | size scan age found finding =>
    apply scanning
    intro key member
    rw [List.filterMap_append, List.map_append, List.mem_append] at member
    rcases member with earlier | new
    · exact List.mem_cons_of_mem _ earlier
    · rw [List.mem_singleton.mp new]
      exact List.mem_cons_self
  | check candidate rest report =>
    simp only [Cleaner.next]
    split
    · rename_i same
      rintro name (aimed | claims) held
      · cases aimed
        exact sound _ (.inr ⟨candidate.key, List.mem_cons_self, rfl, same⟩) held
      · exact sound name (.inr claims) held
    · exact removing _ rest fun _ => List.mem_cons_of_mem _
  | delete candidate rest report =>
    intro name claims held
    have stays : Stays name server.state
        ((Cleaner.delete candidate rest report).next options view server.state).2 := by
      simp only [Cleaner.next]
      split
      · exact stays_atDir _ _ (fun _ => rfl) fun _ => .inl rfl
      · exact stays_erase _
    obtain ⟨before, same⟩ := stays.2 held
    apply sound name _ before
    rcases claims with aimed | ⟨key, member, named, there⟩
    · cases aimed
    · exact .inr ⟨key, List.mem_cons_of_mem _ member, named, same ▸ there⟩
  | left candidate rest report => exact removing _ rest fun _ => id
  | finished report => exact onward _ fun _ _ => id

/-- In every run in which the server leaves the directories alone that the
cleanup has passed, the cleanup comes to remove none that is in use. -/
theorem cleanup_spares {server : Server}
    (run : Site.Steps host options Unintruding ⟨server, .listing⟩ site) : SparesHeld site := by
  have sound : Sound site := by
    induction run with
    | refl =>
      intro name claims
      rcases claims with aimed | ⟨_, member, _⟩
      · cases aimed
      · cases member
    | tail _ step ih =>
      cases step with
      | server after step =>
        cases step with
        | arrive program known => exact ih
        | advance env thread op next standing met => exact sound_server env op _ _ _ met ih
      | cleaner view sees => exact sound_cleaner view sees ih
  intro name aimed
  exact sound name (.inl aimed)

/-- A client's request, a step of a thread, or a step of the cleanup. -/
inductive Act where
  | server (turn : Turn)
  | cleaner (view : View)

def sees (view : View) (site : Site) : Bool :=
  view.alive site.server.state.pid && match site.cleaner with
    | .owner _ _ _ => !view.failure
    | _ => true

theorem sees_of_sees {view : View} (checked : sees view site = true) : Sees view site := by
  unfold sees at checked
  rw [Bool.and_eq_true] at checked
  refine ⟨checked.1, ?_⟩
  rintro scan age found stands
  rw [stands, Bool.not_eq_true'] at checked
  exact checked.2

def admits (check : Env → Site → Op → Bool) (site : Site) : Turn → Bool
  | .ask _ => true
  | .go thread env => ((site.server.threads[thread]?).bind Prog.head?).all (check env site)

/-- The script, if each of its steps is allowed when it comes up. -/
def Site.follow (host : Host) (options : Options) (check : Env → Site → Op → Bool) :
    List Act → Site → Option Site
  | [], site => some site
  | .server turn :: rest, site =>
      if admits check site turn then
        follow host options check rest ⟨Pool.play perform site.server (turn.move host), site.cleaner⟩
      else none
  | .cleaner view :: rest, site =>
      if sees view site then
        let stepped := site.cleaner.next options view site.server.state
        follow host options check rest ⟨{ site.server with state := stepped.2 }, stepped.1⟩
      else none

theorem steps_of_follow {allowed : Env → Site → Op → Prop} {check : Env → Site → Op → Bool}
    (sound : ∀ env site op, check env site op = true → allowed env site op) {script : List Act}
    (followed : site.follow host options check script = some after) :
    Site.Steps host options allowed site after := by
  induction script generalizing site with
  | nil =>
    cases followed
    exact .refl
  | cons act rest ih =>
    cases act with
    | cleaner view =>
      simp only [Site.follow] at followed
      split at followed
      · rename_i checked
        exact .head (.cleaner view (sees_of_sees checked)) (ih followed)
      · cases followed
    | server turn =>
      simp only [Site.follow] at followed
      split at followed
      · rename_i checked
        have onward := ih followed
        cases turn with
        | ask request =>
          exact .head (.server _ (.arrive _ ⟨request, rfl⟩)) onward
        | go thread env =>
          simp only [Turn.move, Pool.play] at onward
          split at onward
          · rename_i op next standing
            rw [admits, standing] at checked
            exact .head (.server _ (.advance env thread op next standing (sound _ _ _ checked))) onward
          · exact onward
      · cases followed

/-- A session that has been idle for long enough, and the sweep that closes its
worker. -/
def expired : Server :=
  play ⟨some, fun _ => "10"⟩ (boot 1) (.ask (.start "python3" "0") ::
    List.replicate 5 (.go 0 { identity := some (1, 1) }) ++
    .ask .sweep :: List.replicate 6 (.go 1 { ttl := some 10, now := 20 }))

def plainOptions : Options := ⟨true, false, 86400, "sessions"⟩

/-- The cleanup goes through the root and comes to remove the session. -/
def scanning : List Act := List.replicate 8 (.cleaner { age := 1000, alive := fun _ => true })

def removing (site : Site) : Bool := site.cleaner.target = some "python3-0"

/-- Meanwhile another session is started. -/
theorem cleanup_spares_expired : ∃ site : Site, removing site = true ∧ SparesHeld site := by
  have followed : ((Site.mk expired .listing).follow ⟨some, fun _ => "10"⟩ plainOptions
      (fun env site op => decide (Unintruding env site op))
      (.server (.ask (.start "python3" "1")) :: scanning ++
        List.replicate 4 (.server (.go 2 { identity := some (1, 2) })))).map removing = some true := by
    decide +kernel
  obtain ⟨site, followed, removes⟩ := Option.map_eq_some_iff.mp followed
  have run := @steps_of_follow _ _ _ _ Unintruding _ (fun _ _ _ => of_decide_eq_true) _ followed
  exact ⟨site, removes, cleanup_spares run⟩

/-- Between the last look at the directory and its removal the server puts a
restored workspace in its place and starts a worker there. -/
theorem cleanup_removes_live : ¬∀ host options server site name,
    Runs host (fun _ _ _ => True) (boot 1) server →
    Site.Steps host options (fun _ _ _ => True) ⟨server, .listing⟩ site →
    site.cleaner.target = some name →
    ¬(Held site.server.state name ∧ (site.server.state.workers.get name).isSome = true) := by
  intro spared
  let script := scanning ++ .server (.ask (.snapshotRestore "python3-0" "temp" "aside" "1" true
    (.ok ⟨"python3", 0, 0⟩))) :: List.replicate 18 (.server (.go 2 { identity := some (1, 2) }))
  have followed : ((Site.mk expired .listing).follow ⟨some, fun _ => "10"⟩ plainOptions
      (fun _ _ _ => true) script).map (fun site => removing site &&
        decide (Held site.server.state "python3-0") &&
        (site.server.state.workers.get "python3-0").isSome) = some true := by
    decide +kernel
  obtain ⟨site, followed, facts⟩ := Option.map_eq_some_iff.mp followed
  simp only [Bool.and_eq_true, decide_eq_true_eq, removing] at facts
  have run := @steps_of_follow _ _ _ _ (fun _ _ _ => True) _ (fun _ _ _ _ => trivial) _ followed
  exact spared _ _ expired site "python3-0" (runs_of_turns _ _) run facts.1.1 ⟨facts.1.2, facts.2⟩

end Runs

end CodeCalc.Sessions
