import CodeCalc.Runtimes.Checkers

/-! `status` and `update`: which of the names a caller asks for are reported, and
under which heading. -/
namespace CodeCalc.Runtimes
open Lib
open Lib.Text (ofString)

section Source

inductive Filter where
  | none
  | text (languages : Text)
  | list (languages : List Text)

variable (host : Host) (py : Python) (tiers : Text → Option Text)

/-- `name.strip().lower()`. -/
def normal (name : Text) : Text := py.lower (stripSpace name)

/-- The names of a comma string, the blank ones left out. -/
def namesOf (languages : Text) : List Text :=
  (((languages.splitOn (CodePoint.ofChar ',')).filter fun name =>
    !(stripSpace name).isEmpty).map (normal py)).eraseDups

/-- `want`; a filter that names nothing is none. -/
def want : Filter → Option (List Text)
  | .none => none
  | .text languages => if (namesOf py languages).isEmpty then none else some (namesOf py languages)
  | .list languages => if languages.isEmpty then none else some languages.eraseDups

structure Scan where
  results : Entries := []
  matched : List Text := []
  managerErrors : List (Manager × Text) := []

/-- `want is None or lang in want or info.get("tool") in want`. -/
def selects (wanted : Option (List Text)) (entry : Text × Info) : Bool :=
  match wanted with
  | none => true
  | some names => decide (entry.1 ∈ names) || decide (entry.2.tool ∈ names)

def mentions (wanted : Option (List Text)) (entry : Text × Info) : List Text :=
  [entry.1, entry.2.tool].filter fun name => decide (name ∈ wanted.getD [])

/-- The inner loop of `status`. -/
def scanEntry (wanted : Option (List Text)) (scan : Scan) (entry : Text × Info) : Scan :=
  { scan with
    results := if selects wanted entry then setEntry entry.1 entry.2 scan.results else scan.results
    matched := scan.matched ++ mentions wanted entry }

/-- The outer loop of `status`, on how a checker ended. -/
def scanChecker (wanted : Option (List Text)) (scan : Scan)
    (row : Manager × Except Text Checked) : Scan :=
  match row.2 with
  | .error message =>
    { scan with
      managerErrors := setEntry row.1 ((given (some message)).getD (ofString "check failed"))
        scan.managerErrors }
  | .ok (.failed manager error) =>
    { scan with
      managerErrors := setEntry manager ((given error).getD (ofString "check failed"))
        scan.managerErrors }
  | .ok (.entries found) => found.foldl (scanEntry wanted) scan

def scanned (wanted : Option (List Text)) : Scan :=
  (checkers host py).foldl (scanChecker wanted) {}

def elevators : List Text := ["sudo", "doas", "pkexec", "run0"].map ofString

def isElevated (cmd : List Text) : Bool := cmd.any fun part => decide (part ∈ elevators)

def joinWords (cmd : List Text) : Text := (ofString " ").intercalate cmd

def withPackages (cmd packages : List Text) : List Text :=
  cmd.filter (fun part => decide (part ≠ ofString "<PKGS>")) ++ packages

/-- The two loops over the rows: the tier, the command and whether it is elevated. -/
def finish (entry : Text × Info) : Text × Info :=
  let info := entry.2
  let packages := info.packages.getD []
  let cmd := updateCommand info.manager
  let cmd := if info.manager = .apt ∧ packages ≠ [] then withPackages cmd packages else cmd
  (entry.1, { info with
    tier := tiers entry.1
    updateCommand := if cmd ≠ [] ∧ info.installed ≠ some false then some (joinWords cmd) else none
    elevated := isElevated cmd })

def sorted (names : List Text) : List Text :=
  names.mergeSort fun left right => decide (left ≤ right)

def joinNames (names : List Text) : Text := (ofString ", ").intercalate names

structure Report where
  ok : Bool
  dryRun : Bool := true
  languages : Entries
  updatable : Nat
  total : Nat
  notInstalled : Nat
  managerErrors : List (Manager × Text)
  unknown : List Text
  checkFailed : List Text
  error : Option Text := none
  note : Option Text := none
  message : Option Text := none

def errorText (errors : List (Manager × Text)) (unknown checkFailed : List Text) : Text :=
  let unknownReason :=
    if unknown.isEmpty then [] else [ofString "no known runtime named " ++ joinNames unknown]
  let failedReason :=
    if checkFailed.isEmpty then []
    else [ofString "the check failed for " ++ joinNames checkFailed ++ ofString ": " ++
      (ofString "; ").intercalate (checkFailed.map fun name =>
        (((languageManager name).bind fun manager => entryOf manager errors).getD []))]
  (ofString ". ").intercalate (unknownReason ++ failedReason) ++
    ofString ". Nothing was checked or updated."

def noteText (unknown checkFailed : List Text) : Text :=
  (ofString "; ").intercalate
    ((if unknown.isEmpty then []
      else [ofString "ignored unrecognised name(s): " ++ joinNames unknown]) ++
    (if checkFailed.isEmpty then []
      else [ofString "could not check (manager unavailable): " ++ joinNames checkFailed]))

def status (filter : Filter) : Report :=
  let wanted := want py filter
  let scan := scanned host py wanted
  let results := scan.results.map (finish tiers)
  let unresolved := (wanted.getD []).filter fun name => decide (name ∉ scan.matched)
  let unknown := sorted (unresolved.filter fun name => (languageManager name).isNone)
  let checkFailed := sorted (unresolved.filter fun name =>
    (languageManager name).any fun manager => (entryOf manager scan.managerErrors).isSome)
  let lacking := !unknown.isEmpty || !checkFailed.isEmpty
  { ok := !(lacking && results.isEmpty)
    languages := results
    updatable := results.countP fun entry => entry.2.updatable = some true
    total := results.length
    notInstalled := results.countP fun entry => entry.2.installed = some false
    managerErrors := scan.managerErrors
    unknown := unknown
    checkFailed := checkFailed
    error :=
      if lacking && results.isEmpty then some (errorText scan.managerErrors unknown checkFailed)
      else none
    note := if lacking && !results.isEmpty then some (noteText unknown checkFailed) else none }

def elevatedApplyAllowed : Bool :=
  decide (normal py (host.allowRuntimeApply.getD []) ∈ ["1", "true", "yes", "on"].map ofString)

structure Reselected where
  command : Option Text
  ok : Bool
  outputTail : Text

structure Executed where
  manager : Manager
  languages : List Text
  command : Text
  exitCode : Option Int
  elevated : Bool
  skipped : Bool := false
  outputTail : Text
  ok : Bool
  default_ : Option Reselected := none

def lastOf (count : Nat) (text : Text) : Text := text.drop (text.length - count)

/-- `Successfully updated .*Swift (\S+)` -/
def updatedSwiftRe : Regex CodePoint :=
  .concat [.word (ofString "Successfully updated "),
    .many true (.one fun code => decide (code ≠ newline)), .word (ofString "Swift "),
    .group 1 (.some_ solid)]

def reselectSwiftDefault (output : Text) : Except Text Reselected :=
  match updatedSwiftRe.search output with
  | none => .ok ⟨none, false, ofString ("could not read the new swift version from swiftly's " ++
      "output; no global default was selected")⟩
  | some found => do
    let cmd := ["swiftly", "use", "--global-default"].map ofString ++ [(found.group 1).getD []]
    let result ← run host cmd 60
    pure ⟨some (joinWords cmd), result.spawned && decide (result.exitCode = some 0),
      if result.spawned then lastOf 500 result.output
      else (given result.error).getD (ofString "command did not run")⟩

def byManager (languages : Entries) : List (Manager × List Text) :=
  languages.foldl (fun groups entry =>
    if entry.2.manager ≠ .nix ∧ entry.2.updatable = some true then
      setEntry entry.2.manager ((entryOf entry.2.manager groups).getD [] ++ [entry.1]) groups
    else groups) []

def groupCommand (languages : Entries) (group : Manager × List Text) : List Text :=
  let cmd := updateCommand group.1
  if group.1 = .apt then
    withPackages cmd (group.2.flatMap fun name =>
      ((entryOf name languages).bind Info.packages).getD []).eraseDups
  else cmd

def refusal : Text :=
  ofString ("refused: this command raises privilege and CODECALC_ALLOW_RUNTIME_APPLY is not set " ++
    "on the host. Set CODECALC_ALLOW_RUNTIME_APPLY=1 in the server's environment to allow it.")

/-- The body of the loop of `update`. -/
def executeGroup (languages : Entries) (timeout : Int) (group : Manager × List Text) :
    Except Text Executed := do
  let cmd := groupCommand languages group
  if isElevated cmd && !elevatedApplyAllowed host py then
    pure { manager := group.1, languages := group.2, command := joinWords cmd, exitCode := none,
           elevated := true, skipped := true, outputTail := refusal, ok := false }
  else do
    let result ← run host cmd timeout
    let ok := result.spawned && decide (result.exitCode = some 0)
    let default_ ← if group.1 = .swiftly && ok then
        (reselectSwiftDefault host result.output).map some
      else pure none
    pure { manager := group.1, languages := group.2, command := joinWords cmd,
           exitCode := result.exitCode, elevated := isElevated cmd
           outputTail := if result.spawned then lastOf 1500 result.output
             else (given result.error).getD (ofString "command did not run")
           ok := (default_.map Reselected.ok).getD ok
           default_ := default_ }

inductive Answer where
  | report (st : Report)
  | applied (ok : Bool) (executed : List Executed) (partialFailure : Bool)
      (blockedByPolicy : List Manager) (message : Option Text)

def Answer.ok : Answer → Bool
  | .report st => st.ok
  | .applied ok .. => ok

def Answer.executed : Answer → List Executed
  | .report _ => []
  | .applied _ executed .. => executed

def update (filter : Filter) (apply : Bool) (timeout : Int) : Except Text Answer :=
  let st := status host py tiers filter
  if !apply then
    .ok (.report { st with
      message := some (ofString
        "Dry run: nothing was updated. Call with apply=True to execute.") })
  else if !st.ok then .ok (.report { st with dryRun := false })
  else do
    let groups := (byManager st.languages).filter fun group =>
      !(groupCommand st.languages group).isEmpty
    let executed ← groups.mapM (executeGroup host py st.languages timeout)
    let allOk := executed.all Executed.ok
    let skipped := executed.filter Executed.skipped
    pure (.applied allOk executed (!executed.isEmpty && !allOk && executed.any Executed.ok)
      (skipped.map Executed.manager)
      (if skipped.isEmpty then none
       else some (decimal skipped.length ++ ofString (" elevated command(s) were refused: " ++
        "CODECALC_ALLOW_RUNTIME_APPLY is not enabled on this host."))))

end Source

section Checked

variable (host : Host) (py : Python) (tiers : Text → Option Text)

/-- What a checker may report: every runtime once, and only its manager's own. -/
structure Owned (manager : Manager) (found : Entries) : Prop where
  distinct : (found.map Prod.fst).Nodup
  managed : ∀ entry ∈ found, languageManager entry.1 = some manager

theorem languageManager_miseAlias {tool language : Text} (alias_ : miseAlias tool = some language) :
    languageManager language = some .mise := by
  have rows : ∀ row ∈ miseAliases, languageManager row.2 = some .mise := by decide +kernel
  exact rows _ (mem_of_entryOf alias_)

theorem Owned.setEntry {manager : Manager} {found : Entries} (owned : Owned manager found)
    {language : Text} (managed : languageManager language = some manager) (info : Info) :
    Owned manager (setEntry language info found) where
  distinct := nodup_setEntry language info found owned.distinct
  managed entry member := by
    cases mem_of_mem_setEntry member with
    | inl same => rw [same, managed]
    | inr old => exact owned.managed entry old

theorem owned_nil (manager : Manager) : Owned manager [] where
  distinct := List.nodup_nil
  managed _ member := nomatch member

theorem owned_single {manager : Manager} {language : Text}
    (managed : languageManager language = some manager) (info : Info) :
    Owned manager [(language, info)] := (owned_nil manager).setEntry managed info

theorem Owned.miseInstalled {found : Entries} (owned : Owned .mise found) (line : Text) :
    Owned .mise (miseInstalled found line) := by
  unfold Runtimes.miseInstalled
  split
  · split
    next => exact owned
    next alias_ => exact owned.setEntry (languageManager_miseAlias alias_) _
  · exact owned

theorem Owned.miseOutdated {found : Entries} (owned : Owned .mise found) (line : Text) :
    Owned .mise (miseOutdated found line) := by
  unfold Runtimes.miseOutdated
  split
  · split
    · exact owned
    · split
      next => exact owned
      next alias_ =>
        have managed := languageManager_miseAlias alias_
        split
        · exact owned.setEntry managed _
        · exact owned.setEntry managed _
  · exact owned

theorem owned_foldl {manager : Manager} {step : Entries → Text → Entries}
    (keeps : ∀ found line, Owned manager found → Owned manager (step found line))
    (lines : List Text) {found : Entries} (owned : Owned manager found) :
    Owned manager (lines.foldl step found) := by
  induction lines generalizing found with
  | nil => exact owned
  | cons line lines ih => exact ih (keeps found line owned)

theorem owned_aptRows (info : Text × List Text × List Text → Info) :
    Owned .apt (aptRows.map fun row => (row.1, info row)) where
  distinct := by
    rw [List.map_map]
    exact (by decide +kernel : (aptRows.map Prod.fst).Nodup)
  managed entry member := by
    have rows : ∀ row ∈ aptRows, languageManager row.1 = some .apt := by decide +kernel
    obtain ⟨row, inside, rfl⟩ := List.mem_map.mp member
    exact rows row inside

/-- Only the checkers of mise and rustup can leave a runtime of theirs out. -/
def Complete (manager : Manager) (found : Entries) : Prop :=
  manager = .mise ∨ manager = .rustup ∨
    ∀ name, languageManager name = some manager → name ∈ found.map Prod.fst

theorem complete_of_rows {manager : Manager} {found : Entries}
    (rows : ∀ row ∈ languageManagers, row.2 = manager → row.1 ∈ found.map Prod.fst) :
    Complete manager found :=
  Or.inr (Or.inr fun _ managed => rows _ (mem_of_entryOf managed) rfl)

theorem complete_aptRows (info : Text × List Text × List Text → Info) :
    Complete .apt (aptRows.map fun row => (row.1, info row)) := by
  have names : ∀ row ∈ languageManagers, row.2 = .apt → row.1 ∈ aptRows.map Prod.fst := by
    decide +kernel
  apply complete_of_rows
  rwa [List.map_map]

/-- How a checker can end: with a failure of its own, or with entries of its own. -/
inductive Proper (manager : Manager) : Except Text Checked → Prop
  | raised (message : Text) : Proper manager (.error message)
  | failed (error : Option Text) : Proper manager (.ok (.failed manager error))
  | entries {found : Entries} (owned : Owned manager found) (complete : Complete manager found) :
      Proper manager (.ok (.entries found))

theorem Proper.bind {α : Type} {manager : Manager} (step : Except Text α)
    {next : α → Except Text Checked} (rest : ∀ value, Proper manager (next value)) :
    Proper manager (step >>= next) := by
  cases step with
  | error message => exact .raised message
  | ok value => exact rest value

theorem proper_checkMise : Proper .mise (checkMise host) := by
  refine Proper.bind _ fun installed => Proper.bind _ fun outdated => ?_
  split
  · exact .failed _
  · exact .entries (owned_foldl (fun found line owned => owned.miseOutdated line) _
      (owned_foldl (fun found line owned => owned.miseInstalled line) _ (owned_nil .mise)))
      (Or.inl rfl)

theorem proper_checkRustup : Proper .rustup (checkRustup host) := by
  refine Proper.bind _ fun result => ?_
  split
  · exact .failed _
  · refine .entries ?_ (Or.inr (Or.inl rfl))
    split
    · exact owned_single (by decide +kernel) _
    · exact owned_nil .rustup

theorem Proper.single {manager : Manager} {language : Text}
    (managed : languageManager language = some manager)
    (sole : ∀ row ∈ languageManagers, row.2 = manager → row.1 = language) (info : Info) :
    Proper manager (.ok (.entries [(language, info)])) :=
  .entries (owned_single managed info)
    (complete_of_rows fun row member theirs => List.mem_singleton.mpr (sole row member theirs))

example (info : Info) : Proper .rustup (.ok (.entries [(ofString "rust", info)])) :=
  .single (by decide +kernel) (by decide +kernel) info

theorem proper_checkSwiftly : Proper .swiftly (checkSwiftly host py) := by
  refine Proper.bind _ fun version => Proper.bind _ fun available => ?_
  split
  · exact .failed _
  · exact Proper.bind _ fun releases =>
      .single (by decide +kernel) (by decide +kernel) _

theorem proper_checkApt : Proper .apt (checkApt host) := by
  refine Proper.bind _ fun upgradable => ?_
  split
  · exact .failed _
  · refine Proper.bind _ fun installed => ?_
    split
    · exact .failed _
    · exact .entries (owned_aptRows _) (complete_aptRows _)

theorem proper_npmEntry (current latest : JsonValue) (updatable : Bool) :
    Proper .npm (.ok (npmEntry current latest updatable)) :=
  .single (by decide +kernel) (by decide +kernel) _

theorem proper_checkNpm : Proper .npm (checkNpm host py) := by
  refine Proper.bind _ fun outdated => ?_
  split
  · exact .failed _
  · refine Proper.bind _ fun found => ?_
    split
    · exact proper_npmEntry _ _ _
    · exact .raised _
    · refine Proper.bind _ fun installed => ?_
      split
      · exact .failed _
      · exact proper_npmEntry _ _ _

theorem proper_checkUv : Proper .uv (checkUv host py) := by
  refine Proper.bind _ fun result => ?_
  split
  · exact .failed _
  · exact .single (by decide +kernel) (by decide +kernel) _

theorem proper_checkNix : Proper .nix checkNix :=
  .single (by decide +kernel) (by decide +kernel) _

theorem proper_checkers : ∀ row ∈ checkers host py, Proper row.1 row.2 := by
  simp only [checkers, List.forall_mem_cons, List.not_mem_nil, false_implies, implies_true, and_true]
  exact ⟨proper_checkMise host, proper_checkRustup host, proper_checkSwiftly host py,
    proper_checkApt host, proper_checkNpm host py, proper_checkUv host py, proper_checkNix⟩

end Checked

section Scanning

variable (host : Host) (py : Python)

def entriesOf : Except Text Checked → Entries
  | .ok (.entries found) => found
  | _ => []

def foundEntries : Entries := (checkers host py).flatMap fun row => entriesOf row.2

def Failed (manager : Manager) : Prop :=
  ∃ checked, (manager, checked) ∈ checkers host py ∧ ∀ found, checked ≠ .ok (.entries found)

theorem Proper.owned {manager : Manager} {checked : Except Text Checked}
    (proper : Proper manager checked) : Owned manager (entriesOf checked) := by
  cases proper with
  | raised message => exact owned_nil manager
  | failed error => exact owned_nil manager
  | entries owned complete => exact owned

theorem distinct_rows {rows : List (Manager × Except Text Checked)}
    (managers : (rows.map Prod.fst).Nodup) (proper : ∀ row ∈ rows, Proper row.1 row.2) :
    ((rows.flatMap fun row => entriesOf row.2).map Prod.fst).Nodup ∧
      ∀ entry ∈ rows.flatMap fun row => entriesOf row.2,
        ∃ manager ∈ rows.map Prod.fst, languageManager entry.1 = some manager := by
  induction rows with
  | nil => exact ⟨List.nodup_nil, fun _ member => nomatch member⟩
  | cons row rows ih =>
    rw [List.map_cons, List.nodup_cons] at managers
    rw [List.forall_mem_cons] at proper
    obtain ⟨distinct, managed⟩ := ih managers.2 proper.2
    have first := proper.1.owned
    rw [List.flatMap_cons, List.map_append]
    refine ⟨List.nodup_append.mpr ⟨first.distinct, distinct, ?_⟩, ?_⟩
    · intro name here other there same
      obtain ⟨entry, inside, rfl⟩ := List.mem_map.mp here
      obtain ⟨later, inside', rfl⟩ := List.mem_map.mp there
      obtain ⟨manager, listed, theirs⟩ := managed later inside'
      rw [← same, first.managed entry inside] at theirs
      cases theirs
      exact managers.1 listed
    · intro entry member
      cases List.mem_append.mp member with
      | inl here => exact ⟨row.1, List.mem_cons_self, first.managed entry here⟩
      | inr there =>
        obtain ⟨manager, listed, theirs⟩ := managed entry there
        exact ⟨manager, List.mem_cons_of_mem _ listed, theirs⟩

theorem distinct_foundEntries : ((foundEntries host py).map Prod.fst).Nodup :=
  (distinct_rows (by simp [checkers]) (proper_checkers host py)).1

variable {host py}

theorem foldl_scanEntry (wanted : Option (List Text)) (found : Entries) (scan : Scan) :
    found.foldl (scanEntry wanted) scan =
      { results := (found.filter (selects wanted)).foldl
          (fun entries entry => setEntry entry.1 entry.2 entries) scan.results
        matched := scan.matched ++ found.flatMap (mentions wanted)
        managerErrors := scan.managerErrors } := by
  induction found generalizing scan with
  | nil => simp
  | cons entry found ih =>
    rw [List.foldl_cons, ih]
    by_cases selected : selects wanted entry <;> simp [scanEntry, selected]

theorem foldl_scanChecker (wanted : Option (List Text))
    (rows : List (Manager × Except Text Checked)) (scan : Scan) :
    (rows.foldl (scanChecker wanted) scan).results =
        ((rows.flatMap fun row => entriesOf row.2).filter (selects wanted)).foldl
          (fun entries entry => setEntry entry.1 entry.2 entries) scan.results ∧
      (rows.foldl (scanChecker wanted) scan).matched =
        scan.matched ++ (rows.flatMap fun row => entriesOf row.2).flatMap (mentions wanted) := by
  induction rows generalizing scan with
  | nil => simp
  | cons row rows ih =>
    obtain ⟨results, matched⟩ := ih (scanChecker wanted scan row)
    rw [List.foldl_cons, results, matched, List.flatMap_cons, List.filter_append, List.foldl_append,
      List.flatMap_append]
    obtain ⟨manager, checked⟩ := row
    cases checked with
    | error message => simp [scanChecker, entriesOf]
    | ok checked =>
      cases checked with
      | failed reporter error => simp [scanChecker, entriesOf]
      | entries found => simp [scanChecker, entriesOf, foldl_scanEntry]

theorem results_scanned (wanted : Option (List Text)) :
    (scanned host py wanted).results = (foundEntries host py).filter (selects wanted) := by
  rw [scanned, (foldl_scanChecker wanted _ _).1, ← foundEntries, foldl_setEntry, List.nil_append]
  rw [List.nil_append]
  exact (distinct_foundEntries host py).sublist ((List.filter_sublist).map Prod.fst)

/-- An entry is the one a name asks for: by its language or by its tool. -/
def Answers (entry : Text × Info) (name : Text) : Prop := entry.1 = name ∨ entry.2.tool = name

theorem mem_matched {wanted : Option (List Text)} {name : Text} :
    name ∈ (scanned host py wanted).matched ↔
      name ∈ wanted.getD [] ∧ ∃ entry ∈ foundEntries host py, Answers entry name := by
  rw [scanned, (foldl_scanChecker wanted _ _).2, ← foundEntries, List.nil_append, List.mem_flatMap]
  simp only [mentions, List.mem_filter, List.mem_cons, List.not_mem_nil, or_false,
    decide_eq_true_eq, Answers]
  constructor
  · rintro ⟨entry, found, same, asked⟩
    exact ⟨asked, entry, found, same.imp Eq.symm Eq.symm⟩
  · rintro ⟨asked, entry, found, same⟩
    exact ⟨entry, found, same.imp Eq.symm Eq.symm, asked⟩

theorem managerErrors_scanEntry (wanted : Option (List Text)) (found : Entries) (scan : Scan) :
    (found.foldl (scanEntry wanted) scan).managerErrors = scan.managerErrors := by
  rw [foldl_scanEntry]

theorem managerErrors_scanChecker (wanted : Option (List Text)) (manager : Manager) {owner : Manager}
    {checked : Except Text Checked} (proper : Proper owner checked) (scan : Scan) :
    (entryOf manager (scanChecker wanted scan (owner, checked)).managerErrors).isSome = true ↔
      (entryOf manager scan.managerErrors).isSome = true ∨
        owner = manager ∧ ∀ found, checked ≠ .ok (.entries found) := by
  cases proper with
  | raised message =>
    by_cases same : manager = owner
    · simp [scanChecker, entryOf_setEntry, same]
    · simp [scanChecker, entryOf_setEntry, same, Ne.symm same]
  | failed error =>
    by_cases same : manager = owner
    · simp [scanChecker, entryOf_setEntry, same]
    · simp [scanChecker, entryOf_setEntry, same, Ne.symm same]
  | entries owned complete => simp [scanChecker, managerErrors_scanEntry]

theorem managerErrors_foldl (wanted : Option (List Text)) (manager : Manager)
    {rows : List (Manager × Except Text Checked)} (proper : ∀ row ∈ rows, Proper row.1 row.2)
    (scan : Scan) :
    (entryOf manager (rows.foldl (scanChecker wanted) scan).managerErrors).isSome = true ↔
      (entryOf manager scan.managerErrors).isSome = true ∨
        ∃ checked, (manager, checked) ∈ rows ∧ ∀ found, checked ≠ .ok (.entries found) := by
  induction rows generalizing scan with
  | nil => simp
  | cons row rows ih =>
    rw [List.forall_mem_cons] at proper
    rw [List.foldl_cons, ih proper.2]
    obtain ⟨owner, checked⟩ := row
    rw [managerErrors_scanChecker wanted manager proper.1, or_assoc]
    apply or_congr_right
    constructor
    · rintro (⟨rfl, fails⟩ | ⟨later, member, fails⟩)
      · exact ⟨checked, List.mem_cons_self, fails⟩
      · exact ⟨later, List.mem_cons_of_mem _ member, fails⟩
    · rintro ⟨found, member, fails⟩
      cases List.mem_cons.mp member with
      | inl same =>
        cases same
        exact Or.inl ⟨rfl, fails⟩
      | inr later => exact Or.inr ⟨found, later, fails⟩

theorem managerErrors_scanned (wanted : Option (List Text)) (manager : Manager) :
    (entryOf manager (scanned host py wanted).managerErrors).isSome = true ↔
      Failed host py manager := by
  rw [scanned, managerErrors_foldl wanted manager (proper_checkers host py)]
  simp [entryOf, Failed]

end Scanning

section Accounting

variable {host : Host} {py : Python} {tiers : Text → Option Text} {filter : Filter}

/-- The names a caller asks for, trimmed and in lower case. -/
def requested (py : Python) : Filter → List Text
  | .none => []
  | .text languages => namesOf py languages
  | .list languages => (languages.map (normal py)).eraseDups

def Matched (report : Report) (name : Text) : Prop :=
  ∃ entry ∈ report.languages, Answers entry name

/-- One of three and no other. -/
def OneOf (first second third : Prop) : Prop :=
  first ∧ ¬ second ∧ ¬ third ∨ ¬ first ∧ second ∧ ¬ third ∨ ¬ first ∧ ¬ second ∧ third

structure Accounts (host : Host) (py : Python) (tiers : Text → Option Text) (filter : Filter) :
    Prop where
  reported : ∀ name ∈ requested py filter,
    OneOf (Matched (status host py tiers filter) name)
      (name ∈ (status host py tiers filter).unknown)
      (name ∈ (status host py tiers filter).checkFailed)
  unmanaged : ∀ name ∈ (status host py tiers filter).unknown, languageManager name = none
  empty : (status host py tiers filter).ok = true →
    (status host py tiers filter).languages = [] → requested py filter = []
  applied : requested py filter ≠ [] → (status host py tiers filter).languages = [] →
    ∀ timeout answer, update host py tiers filter true timeout = .ok answer →
      ¬ (answer.ok = true ∧ answer.executed = [])

theorem matched_status {name : Text} :
    Matched (status host py tiers filter) name ↔
      ∃ entry ∈ foundEntries host py, Answers entry name ∧ selects (want py filter) entry = true := by
  simp only [Matched, status, results_scanned, List.mem_map, List.mem_filter]
  constructor
  · rintro ⟨_, ⟨entry, ⟨found, selected⟩, rfl⟩, answers⟩
    exact ⟨entry, found, answers, selected⟩
  · rintro ⟨entry, found, answers, selected⟩
    exact ⟨_, ⟨entry, ⟨found, selected⟩, rfl⟩, answers⟩

def Answered (host : Host) (py : Python) (name : Text) : Prop :=
  ∃ entry ∈ foundEntries host py, Answers entry name

theorem mem_sorted {names : List Text} {name : Text} : name ∈ sorted names ↔ name ∈ names :=
  List.mem_mergeSort

theorem mem_unresolved {name : Text} :
    name ∈ ((want py filter).getD []).filter (fun name =>
        decide (name ∉ (scanned host py (want py filter)).matched)) ↔
      name ∈ (want py filter).getD [] ∧ ¬ Answered host py name := by
  rw [List.mem_filter, decide_eq_true_eq, mem_matched]
  exact and_congr_right fun asked => not_congr (and_iff_right asked)

theorem mem_unknown {name : Text} :
    name ∈ (status host py tiers filter).unknown ↔
      name ∈ (want py filter).getD [] ∧ ¬ Answered host py name ∧ languageManager name = none := by
  rw [status, mem_sorted, List.mem_filter, mem_unresolved, Option.isNone_iff_eq_none, and_assoc]

theorem mem_checkFailed {name : Text} :
    name ∈ (status host py tiers filter).checkFailed ↔
      name ∈ (want py filter).getD [] ∧ ¬ Answered host py name ∧
        ∃ manager, languageManager name = some manager ∧ Failed host py manager := by
  rw [status, mem_sorted, List.mem_filter, mem_unresolved, Option.any_eq_true, and_assoc]
  simp only [managerErrors_scanned]

theorem selects_of_answers {entry : Text × Info} {name : Text}
    (asked : name ∈ (want py filter).getD []) (answers : Answers entry name) :
    selects (want py filter) entry = true := by
  unfold selects
  cases wanted : want py filter with
  | none => rfl
  | some names =>
    rw [wanted, Option.getD_some] at asked
    cases answers with
    | inl same => simp [same, asked]
    | inr same => simp [same, asked]

/-- The name itself is looked up, or an entry that it asks for is asked for by
its other name. -/
def LookedUp (host : Host) (py : Python) (filter : Filter) (name : Text) : Prop :=
  name ∈ (want py filter).getD [] ∨
    ∃ entry ∈ foundEntries host py, Answers entry name ∧ selects (want py filter) entry = true

/-- Some entry answers to a name, or no manager is there for it, or its manager's
check failed. -/
def Settled (host : Host) (py : Python) (name : Text) : Prop :=
  Answered host py name ∨ languageManager name = none ∨
    ∃ manager, languageManager name = some manager ∧ Failed host py manager

theorem oneOf_iff {name : Text} :
    OneOf (Matched (status host py tiers filter) name)
        (name ∈ (status host py tiers filter).unknown)
        (name ∈ (status host py tiers filter).checkFailed) ↔
      LookedUp host py filter name ∧ Settled host py name := by
  have shown : Matched (status host py tiers filter) name → Answered host py name := by
    intro matched
    obtain ⟨entry, found, answers, _⟩ := matched_status.mp matched
    exact ⟨entry, found, answers⟩
  have selected : name ∈ (want py filter).getD [] → Answered host py name →
      Matched (status host py tiers filter) name := by
    rintro asked ⟨entry, found, answers⟩
    exact matched_status.mpr ⟨entry, found, answers, selects_of_answers asked answers⟩
  have lookedUp : LookedUp host py filter name ↔
      name ∈ (want py filter).getD [] ∨ Matched (status host py tiers filter) name := by
    rw [LookedUp, matched_status]
  have apart : languageManager name = none →
      ¬ ∃ manager, languageManager name = some manager ∧ Failed host py manager := by
    rintro none ⟨manager, some, _⟩
    rw [none] at some
    cases some
  rw [OneOf, mem_unknown, mem_checkFailed, lookedUp, Settled]
  by_cases matched : Matched (status host py tiers filter) name
  · simp [matched, shown matched]
  · by_cases asked : name ∈ (want py filter).getD []
    · have silent : ¬ Answered host py name := fun answered => matched (selected asked answered)
      by_cases managed : languageManager name = none
      · simp [matched, asked, silent, managed]
      · simp [matched, asked, silent, managed]
    · simp [matched, asked]

/-- The checkers of mise and rustup, where they ran, say something of a name of
theirs. -/
def Heard (host : Host) (py : Python) (name : Text) : Prop :=
  ∀ manager, languageManager name = some manager → manager = .mise ∨ manager = .rustup →
    Answered host py name ∨ Failed host py manager

theorem exists_checker (host : Host) (py : Python) (manager : Manager) :
    ∃ checked, (manager, checked) ∈ checkers host py := by
  cases manager <;> simp [checkers]

theorem settled_iff_heard {name : Text} : Settled host py name ↔ Heard host py name := by
  constructor
  · rintro (answered | none | ⟨manager, some, failed⟩) other managed _
    · exact Or.inl answered
    · rw [none] at managed
      cases managed
    · rw [some] at managed
      cases managed
      exact Or.inr failed
  · intro heard
    cases managed : languageManager name with
    | none => exact Or.inr (Or.inl managed)
    | some manager =>
      have settled : Answered host py name ∨ Failed host py manager := by
        by_cases partly : manager = .mise ∨ manager = .rustup
        · exact heard manager managed partly
        · obtain ⟨checked, listed⟩ := exists_checker host py manager
          by_cases silent : ∀ found, checked ≠ .ok (.entries found)
          · exact Or.inr ⟨checked, listed, silent⟩
          · push Not at silent
            obtain ⟨found, rfl⟩ := silent
            rw [not_or] at partly
            cases proper_checkers host py _ listed with
            | entries owned complete =>
              obtain ⟨entry, inside, same⟩ := List.mem_map.mp
                (((complete.resolve_left partly.1).resolve_left partly.2) name managed)
              exact Or.inl ⟨entry, List.mem_flatMap.mpr ⟨_, listed, inside⟩, Or.inl same⟩
      exact settled.imp_right fun failed => Or.inr ⟨manager, managed, failed⟩

theorem ok_status : (status host py tiers filter).ok =
    !((!(status host py tiers filter).unknown.isEmpty ||
      !(status host py tiers filter).checkFailed.isEmpty) &&
        (status host py tiers filter).languages.isEmpty) := rfl

theorem not_ok_of_reported
    (reported : ∀ name ∈ requested py filter, OneOf (Matched (status host py tiers filter) name)
      (name ∈ (status host py tiers filter).unknown)
      (name ∈ (status host py tiers filter).checkFailed))
    (asked : requested py filter ≠ [])
    (nothing : (status host py tiers filter).languages = []) :
    (status host py tiers filter).ok = false := by
  obtain ⟨name, member⟩ := List.exists_mem_of_ne_nil _ asked
  have unmatched : ¬ Matched (status host py tiers filter) name := by
    rintro ⟨entry, inside, _⟩
    rw [nothing] at inside
    cases inside
  rw [ok_status, nothing]
  rcases reported name member with ⟨matched, _⟩ | ⟨_, unknown, _⟩ | ⟨_, _, failed⟩
  · exact absurd matched unmatched
  · simp [List.isEmpty_eq_false_iff.mpr (List.ne_nil_of_mem unknown)]
  · simp [List.isEmpty_eq_false_iff.mpr (List.ne_nil_of_mem failed)]

theorem status_accounts_iff (host : Host) (py : Python) (tiers : Text → Option Text)
    (filter : Filter) :
    Accounts host py tiers filter ↔
      ∀ name ∈ requested py filter, LookedUp host py filter name ∧ Heard host py name := by
  have heading := fun name : Text => @oneOf_iff host py tiers filter name
  simp only [← settled_iff_heard, ← heading]
  constructor
  · intro accounts
    exact accounts.reported
  · intro reported
    have refused := not_ok_of_reported reported
    refine ⟨reported, fun name unknown => (mem_unknown.mp unknown).2.2, ?_, ?_⟩
    · intro ok nothing
      by_contra asked
      rw [refused asked nothing] at ok
      cases ok
    · intro asked nothing timeout answer updated
      have closed : update host py tiers filter true timeout =
          .ok (.report { status host py tiers filter with dryRun := false }) := by
        simp [update, refused asked nothing]
      rw [closed] at updated
      cases updated
      simp [Answer.ok, refused asked nothing]

theorem update_of_nothing (ok : (status host py tiers filter).ok = true)
    (nothing : (status host py tiers filter).languages = []) (timeout : Int) :
    update host py tiers filter true timeout = .ok (.applied true [] false [] none) := by
  simp only [update, ok, nothing]
  rfl

/-- A host on which only rustup is there, with no toolchain to report. -/
def bareRustup : Host where
  process cmd _ := if cmd = ["rustup", "check"].map ofString then .ran [] [] 0
    else .notFound (ofString "No such file or directory")
  onPath _ := false
  allowRuntimeApply := none
  setOrder names := names

def asciiPython : Python where
  lower name := name.map fun code =>
    if 65 ≤ code.val ∧ code.val ≤ 90 then code + 32 else code
  digit code := if isDigit code then some (code.val - 48) else none
  isWord code := isDigit code
  limits := ⟨1000, 4300⟩
  equal _ _ := true

/-- A valid name whose manager ran and said nothing is under no heading, and an
update of it answers that all went well. -/
theorem rust_unreported :
    let st := status bareRustup asciiPython (fun _ => none) (.text (ofString "rust"))
    st.ok = true ∧ st.languages = [] ∧ st.unknown = [] ∧ st.checkFailed = [] ∧
      update bareRustup asciiPython (fun _ => none) (.text (ofString "rust")) true 600 =
        .ok (.applied true [] false [] none) ∧
      ¬ Accounts bareRustup asciiPython (fun _ => none) (.text (ofString "rust")) := by
  intro st
  have names : namesOf asciiPython (ofString "rust") = [ofString "rust"] := by decide +kernel
  have wanted : want asciiPython (.text (ofString "rust")) = some [ofString "rust"] := by
    simp [want, names]
  have found : (foundEntries bareRustup asciiPython).map (fun entry => (entry.1, entry.2.tool)) =
      [(ofString "haskell", ofString "haskell")] := by decide +kernel
  have managed : languageManager (ofString "rust") = some .rustup := by decide +kernel
  have silent : ¬ Answered bareRustup asciiPython (ofString "rust") := by
    rintro ⟨entry, inside, answers⟩
    have only := List.mem_map_of_mem (f := fun entry => (entry.1, entry.2.tool)) inside
    rw [found, List.mem_singleton, Prod.mk.injEq] at only
    rw [Answers, only.1, only.2, or_self] at answers
    exact absurd answers (by decide +kernel)
  have ran : ¬ Failed bareRustup asciiPython .rustup := by
    rintro ⟨checked, listed, fails⟩
    have same : checked = checkRustup bareRustup := by simpa [checkers] using listed
    exact fails [] (same.trans rfl)
  have unknown : st.unknown = [] := by
    refine List.eq_nil_iff_forall_not_mem.mpr fun name member => ?_
    obtain ⟨asked, _, none⟩ := mem_unknown.mp member
    rw [wanted, Option.getD_some, List.mem_singleton] at asked
    rw [asked, managed] at none
    cases none
  have checkFailed : st.checkFailed = [] := by
    refine List.eq_nil_iff_forall_not_mem.mpr fun name member => ?_
    obtain ⟨asked, _, manager, theirs, failed⟩ := mem_checkFailed.mp member
    rw [wanted, Option.getD_some, List.mem_singleton] at asked
    rw [asked, managed] at theirs
    cases theirs
    exact ran failed
  have languages : st.languages = [] := by
    refine List.eq_nil_iff_forall_not_mem.mpr fun entry member => ?_
    obtain ⟨source, inside, _, selected⟩ := matched_status.mp ⟨entry, member, Or.inl rfl⟩
    simp only [wanted, selects, Bool.or_eq_true, decide_eq_true_eq, List.mem_singleton] at selected
    exact silent ⟨source, inside, selected⟩
  have ok : st.ok = true := by
    have headings : st.ok =
        !((!st.unknown.isEmpty || !st.checkFailed.isEmpty) && st.languages.isEmpty) := ok_status
    rw [headings, unknown, checkFailed]
    rfl
  refine ⟨ok, languages, unknown, checkFailed, update_of_nothing ok languages 600, ?_⟩
  intro accounts
  have reported := accounts.reported (ofString "rust") (by simp [requested, names])
  rw [oneOf_iff, settled_iff_heard] at reported
  exact (reported.2 .rustup managed (Or.inr rfl)).elim silent ran

end Accounting

end CodeCalc.Runtimes
