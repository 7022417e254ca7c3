import CodeCalc.Packages.Install

/-! What a package manager is started with.  Only what passed the checks, and the
operator's list where there is one, comes to a process; the text of the caller takes
the one place meant for it, and the directories the manager may write are the
workspace's, with those that the server's own environment names. -/
namespace CodeCalc.Packages

open Lib Lib.Effect Errors Dependencies Capabilities

section Filling

variable {mark text word : String}

theorem replaceAll_of_absent (nonempty : mark.toList ≠ []) (absent : ¬ mark.toList <:+: word.toList) :
    replaceAll mark text word = word := by
  have same := (replaces_replace nonempty word.toList).unique nonempty
    (@Replaces.of_absent _ mark.toList text.toList word.toList absent)
  rw [replaceAll, same, String.ofList_toList]

theorem replaceAll_self (nonempty : mark.toList ≠ []) : replaceAll mark text mark = text := by
  have hit : Replaces mark.toList text.toList (mark.toList ++ []) (text.toList ++ []) := .hit .nil
  rw [List.append_nil, List.append_nil] at hit
  rw [replaceAll, (replaces_replace nonempty mark.toList).unique nonempty hit, String.ofList_toList]

/-- A word of a command in its final form. -/
def placed (cwd spec word : String) : String :=
  if word = pkgMark then spec else if word = targetMark then cwd else word

theorem fill_eq {cwd spec : String} (clear : ¬ pkgMark.toList <:+: cwd.toList)
    (known : word = pkgMark ∨ word = targetMark ∨ '\x7b' ∉ word.toList) :
    fill cwd spec word = placed cwd spec word := by
  have package : pkgMark.toList ≠ [] := by decide
  have target : targetMark.toList ≠ [] := by decide
  rw [fill, placed]
  rcases known with rfl | rfl | plain
  · rw [replaceAll_of_absent target (by decide), replaceAll_self package, if_pos rfl]
  · rw [replaceAll_self target, replaceAll_of_absent package clear, if_neg (by decide), if_pos rfl]
  · have absent {mark : String} (marked : '\x7b' ∈ mark.toList) : ¬ mark.toList <:+: word.toList :=
      fun found => plain (found.subset marked)
    rw [replaceAll_of_absent target (absent (by decide)), replaceAll_of_absent package (absent (by decide)),
      if_neg, if_neg]
    · rintro rfl
      exact plain (by decide)
    · rintro rfl
      exact plain (by decide)

end Filling

section Promises

def spawns (log : Log) : List Process :=
  log.filterMap fun event => match event with
    | .spawned process => some process
    | _ => none

variable (world : World)

/-- A directory that the manager may write to. -/
inductive Writable (installer : Installer) (cwd : String) : String → Prop
  | target : Writable installer cwd cwd
  | tmp : Writable installer cwd (world.child cwd ".tmp")
  | device {path : String} (listed : path ∈ deviceNodes) : Writable installer cwd path
  | cache {hint : String × String} (own : hint ∈ installer.hints) :
      Writable installer cwd (world.expanduser (replaceAll targetMark cwd hint.2))
  /-- Three variables reach the manager from the server's own environment. -/
  | inherited {key value : String} (passed : key ∈ ["CARGO_HOME", "GOMODCACHE", "GOPATH"])
      (other : key ∉ installer.hints.map Prod.fst) (set : world.environ.lookup key = some value) :
      Writable installer cwd (world.expanduser value)

/-- How a manager is confined, and that what is not enforced is said. -/
inductive Confined (installer : Installer) (cwd : String) (front : Log) : Confinement → Prop
  | landlock {readWrite readOnly unenforced : List String} {env : Environment}
      (known : 0 < world.landlockAbi) (within : ∀ path ∈ readWrite, Writable world installer cwd path)
      (told : Landlock.unenforcedReasons world.landlockAbi "install" ⊆ unenforced) :
      Confined installer cwd front ⟨[], some (readWrite, readOnly), unenforced, env⟩
  | sandbox {readWrite readOnly : List String} {profile : String} {env : Environment}
      (written : .profile profile (buildProfile world readWrite readOnly) ∈ front)
      (within : ∀ path ∈ readWrite, Writable world installer cwd path) :
      Confined installer cwd front ⟨["sandbox-exec", "-f", profile], none, sandboxReasons true, env⟩
  | bare {unenforced : List String} {env : Environment}
      (told : "package_install_not_confined_no_landlock" ∈ unenforced ∨
        "package_install_not_confined_no_sandbox_exec" ∈ unenforced) :
      Confined installer cwd front ⟨[], none, unenforced, env⟩

/-- The manager's own command in a confinement, the text in its one place. -/
structure Starts (language spec : String) (front : Log) (confined : Confinement) (process : Process) :
    Prop where
  installer : ∃ installer, installers.lookup language = some installer ∧
    installer.command.count pkgMark = 1 ∧
    (¬ pkgMark.toList <:+: process.cwd.toList →
      process.argv = confined.wrapper ++ installer.command.map (placed process.cwd spec)) ∧
    (∀ hint ∈ installer.hints,
      process.env.lookup hint.1 = some (replaceAll targetMark process.cwd hint.2)) ∧
    Confined world installer process.cwd front confined
  rules : process.rules = confined.rules
  env : process.env = confined.env

variable (call : Call)

/-- What the checks and the operator's list let pass. -/
structure Admissible : Prop where
  inert : Inert (spec call.package call.version).toList
  listed : Listed world.strings world.environ (canonicalOr call.language)
    (spec call.package call.version).toList

def Allowed (front : Log) : Event → Prop
  | .decided .. => False
  | .elicited _ => False
  | .denied reason language package => spawns front = [] ∧ call.audited = true ∧
      language = canonicalOr call.language ∧ package = bareName world.strings call.package ∧
      allowlistDenial world.strings world.environ language call.package = some reason
  | .mkdir _ => Admissible world call
  | .profile .. => Admissible world call
  | .spawned process => spawns front = [] ∧ Admissible world call ∧ ∃ confined,
      Starts world (canonicalOr call.language) (spec call.package call.version) front confined process

/-- A result with a process before it says what was not enforced. -/
def Discloses (fields : Fields) (log : Log) : Prop :=
  ∀ front process back, log = front ++ .spawned process :: back → ∃ confined,
    Starts world (canonicalOr call.language) (spec call.package call.version) front confined process ∧
      fields.lookup "unenforced" = some (.arr (confined.unenforced.map .str))

end Promises

section Confining

variable {world : World} {call : Call} {log : Log} {installer : Installer} {cwd language : String}
  {env : Environment}

abbrev Follows (world : World) (call : Call) : Log → Log → Prop := Extends (Allowed world call)

theorem spawns_append (front back : Log) : spawns (front ++ back) = spawns front ++ spawns back :=
  List.filterMap_append

/-- The three cache variables that reach a manager when it does not set them itself. -/
theorem lookup_filter {keep : String → Bool} (environ : Environment) (key : String) :
    (environ.filter fun entry => keep entry.1).lookup key =
      if keep key then environ.lookup key else none := by
  induction environ with
  | nil => simp
  | cons entry rest ih =>
    obtain ⟨name, value⟩ := entry
    rw [List.filter_cons]
    by_cases same : key = name
    · subst same
      cases kept : keep key with
      | true => simp
      | false => simpa [kept] using ih
    · cases kept : keep name with
      | true =>
        rw [if_pos rfl, List.lookup_cons, List.lookup_cons, beq_eq_false_iff_ne.mpr same]
        exact ih
      | false =>
        rw [if_neg Bool.false_ne_true, ih, List.lookup_cons, beq_eq_false_iff_ne.mpr same]

theorem passed_of_lookup {key value : String} (listed : key ∈ cacheKeys)
    (found : (executorEnv world).lookup key = some value) :
    key ∈ ["CARGO_HOME", "GOMODCACHE", "GOPATH"] ∧ world.environ.lookup key = some value := by
  have others : ∀ key ∈ cacheKeys, key ≠ "PYTHONUNBUFFERED" ∧ key ≠ "PATH" := by decide
  rw [executorEnv, lookup_setEntry, if_neg (others key listed).1, lookup_setEntry,
    if_neg (others key listed).2, lookup_filter] at found
  split_ifs at found with allowed
  have passes : ∀ windows, cacheKeys.filter (allowedName windows) = ["CARGO_HOME", "GOMODCACHE", "GOPATH"] := by
    decide
  exact ⟨passes world.windows ▸ List.mem_filter.mpr ⟨listed, allowed⟩, found⟩

section Hints

variable {write : String → String} {hints : List (String × String)} {key : String}

theorem lookup_setEach_other (other : key ∉ hints.map Prod.fst) (env : Environment) :
    (hints.foldl (fun env hint => setEntry hint.1 (write hint.2) env) env).lookup key = env.lookup key := by
  induction hints generalizing env with
  | nil => rfl
  | cons hint rest ih =>
    rw [List.map_cons, List.mem_cons, not_or] at other
    rw [List.foldl_cons, ih other.2, lookup_setEntry, if_neg other.1]

theorem lookup_setEach {hint : String × String} (distinct : (hints.map Prod.fst).Nodup)
    (own : hint ∈ hints) (env : Environment) :
    (hints.foldl (fun env hint => setEntry hint.1 (write hint.2) env) env).lookup hint.1 =
      some (write hint.2) := by
  induction hints generalizing env with
  | nil => cases own
  | cons first rest ih =>
    rw [List.map_cons, List.nodup_cons] at distinct
    rw [List.foldl_cons]
    rcases List.mem_cons.mp own with rfl | later
    · rw [lookup_setEach_other distinct.1, lookup_setEntry, if_pos rfl]
    · exact ih distinct.2 later _

end Hints

theorem lookup_withTmpdir {tmp key : String} (other : key ≠ "TMPDIR") (env : Environment) :
    (withTmpdir tmp env).lookup key = env.lookup key := by
  unfold withTmpdir
  split_ifs
  · rfl
  · rw [List.lookup_append]
    cases env.lookup key <;> simp [other]

/-- What holds of every entry of the table. -/
structure Sound (language : String) (installer : Installer) : Prop where
  confinable : language ∈ confinable
  confinableDarwin : language ∈ confinableDarwin
  single : installer.command.count pkgMark = 1
  words : ∀ word ∈ installer.command, word = pkgMark ∨ word = targetMark ∨ '\x7b' ∉ word.toList
  distinct : (installer.hints.map Prod.fst).Nodup
  cached : ∀ key ∈ installer.hints.map Prod.fst, key ∈ cacheKeys

theorem sound_of_lookup (found : installers.lookup language = some installer) :
    Sound language installer := by
  have entries : ∀ entry ∈ installers, entry.1 ∈ confinable ∧ entry.1 ∈ Packages.confinableDarwin ∧
      entry.2.command.count pkgMark = 1 ∧
      (∀ word ∈ entry.2.command, word = pkgMark ∨ word = targetMark ∨ '\x7b' ∉ word.toList) ∧
      (entry.2.hints.map Prod.fst).Nodup ∧ ∀ key ∈ entry.2.hints.map Prod.fst, key ∈ cacheKeys := by
    decide
  have member : (language, installer) ∈ installers := mem_of_entryOf found
  obtain ⟨linux, darwin, single, words, distinct, cached⟩ := entries _ member
  exact ⟨linux, darwin, single, words, distinct, cached⟩

theorem writable_cacheDirs {path : String} (sound : Sound language installer)
    (member : path ∈ cacheDirs world (hinted cwd installer (executorEnv world))) :
    Writable world installer cwd path := by
  obtain ⟨value, found, rfl⟩ := List.mem_map.mp member
  obtain ⟨key, listed, found⟩ := List.mem_filterMap.mp found
  have found := (Option.filter_eq_some_iff.mp found).1
  by_cases own : key ∈ installer.hints.map Prod.fst
  · obtain ⟨hint, inside, rfl⟩ := List.mem_map.mp own
    rw [hinted, lookup_setEach sound.distinct inside] at found
    obtain rfl := Option.some.inj found
    exact .cache inside
  · rw [hinted, lookup_setEach_other own] at found
    obtain ⟨passed, set⟩ := passed_of_lookup listed found
    exact .inherited passed own set

theorem lookup_hint {hint : String × String} {tmp : String} (sound : Sound language installer)
    (own : hint ∈ installer.hints) :
    (hinted cwd installer (executorEnv world)).lookup hint.1 = some (replaceAll targetMark cwd hint.2) ∧
      (withTmpdir tmp (hinted cwd installer (executorEnv world))).lookup hint.1 =
        some (replaceAll targetMark cwd hint.2) := by
  have others : ∀ key ∈ cacheKeys, key ≠ "TMPDIR" := by decide
  rw [lookup_withTmpdir (others _ (sound.cached _ (List.mem_map_of_mem own)))]
  have found := @lookup_setEach (replaceAll targetMark cwd) _ _ sound.distinct own (executorEnv world)
  exact ⟨found, found⟩

end Confining

section Steps

variable {world : World} {call : Call} {log : Log} {installer : Installer} {cwd language : String}
  {env : Environment}

theorem ensures_write {event : Event} (allows : Allowed world call log event) :
    Ensures (Follows world call) (write world event) log fun _ after => after = log ++ [event] := by
  apply ensures_bind (ensures_record allows)
  rintro _ _ - rfl
  apply ensures_bind ensures_ask
  rintro answer _ - ⟨rfl, -⟩
  exact ensures_ofExcept fun _ _ => rfl

theorem ensures_makeTmp (admissible : Admissible world call) :
    Ensures (Follows world call) (makeTmp world cwd) log fun tmp after =>
      tmp = world.child cwd ".tmp" ∧ after = log ++ [.mkdir tmp] := by
  apply ensures_bind (@ensures_write world call log (.mkdir _) admissible)
  rintro _ _ - rfl
  exact ensures_pure ⟨rfl, rfl⟩

structure Settles (world : World) (installer : Installer) (cwd : String) (log : Log)
    (confined : Confinement) (after : Log) : Prop where
  spawns : spawns after = spawns log
  hints : ∀ hint ∈ installer.hints,
    confined.env.lookup hint.1 = some (replaceAll targetMark cwd hint.2)
  confined : Confined world installer cwd after confined

theorem ensures_landlock (admissible : Admissible world call) (sound : Sound language installer) :
    Ensures (Follows world call) (landlockConfinement world installer.manager cwd
      (hinted cwd installer (executorEnv world)) language) log fun confined after =>
        confined.wrapper = [] ∧ Settles world installer cwd log confined after := by
  unfold landlockConfinement
  dsimp only
  rw [if_neg (not_not.mpr sound.confinable)]
  by_cases absent : world.landlockAbi = 0
  · rw [if_pos absent]
    refine ensures_pure ⟨rfl, rfl,
      fun hint own => (@lookup_hint world installer cwd language hint "" sound own).1, .bare (.inl ?_)⟩
    rw [absent]
    exact List.mem_singleton_self _
  rw [if_neg absent]
  apply ensures_bind (ensures_makeTmp admissible)
  rintro tmp after - ⟨rfl, rfl⟩
  refine ensures_pure ⟨rfl, ?_, fun hint own => (lookup_hint sound own).2,
    .landlock (Nat.pos_of_ne_zero absent) ?_ (List.Subset.refl _)⟩
  · rw [spawns_append]
    exact List.append_nil _
  · intro path member
    simp only [List.cons_append, List.mem_cons, List.mem_append, List.not_mem_nil, or_false,
      List.mem_filter] at member
    rcases member with rfl | (inside | rfl) | ⟨listed, -⟩
    · exact .target
    · exact writable_cacheDirs sound inside
    · exact .tmp
    · exact .device listed

theorem ensures_macos (admissible : Admissible world call) (sound : Sound language installer) :
    Ensures (Follows world call) (macosConfinement world installer.manager cwd
      (hinted cwd installer (executorEnv world)) language) log
      (Settles world installer cwd log) := by
  unfold macosConfinement
  rw [if_neg (not_not.mpr sound.confinableDarwin)]
  by_cases absent : world.sandboxExec = false
  · rw [if_pos absent]
    exact ensures_pure ⟨rfl, fun hint own => (@lookup_hint world installer cwd language hint "" sound own).1,
      .bare (.inr (List.mem_singleton_self _))⟩
  rw [if_neg absent]
  apply ensures_bind (ensures_makeTmp admissible)
  rintro tmp after - ⟨rfl, rfl⟩
  dsimp only
  apply ensures_bind (@ensures_write world call _ (.profile _ _) admissible)
  rintro _ _ - rfl
  refine ensures_pure ⟨?_, fun hint own => (lookup_hint sound own).2,
    .sandbox (List.mem_append_right _ (List.mem_singleton_self _)) ?_⟩
  · rw [spawns_append, spawns_append]
    simp [spawns]
  · intro path member
    simp only [List.cons_append, List.mem_cons, List.mem_append, List.not_mem_nil, or_false] at member
    rcases member with rfl | inside | rfl
    · exact .target
    · exact writable_cacheDirs sound inside
    · exact .tmp

theorem Confined.more {front : Log} {confined : Confinement} (reasons : List String)
    (held : Confined world installer cwd front confined) (plain : confined.wrapper = []) :
    Confined world installer cwd front { confined with unenforced := confined.unenforced ++ reasons } := by
  cases held with
  | landlock known within told =>
    exact .landlock known within (List.Subset.trans told (List.subset_append_left _ _))
  | sandbox => cases plain
  | bare told => exact .bare (told.imp (List.mem_append_left _) (List.mem_append_left _))

theorem ensures_confinement (admissible : Admissible world call) (sound : Sound language installer) :
    Ensures (Follows world call) (confinement world installer.manager cwd
      (hinted cwd installer (executorEnv world)) language) log
      (Settles world installer cwd log) := by
  unfold confinement
  by_cases mac : world.darwin = true
  · rw [if_pos mac]
    exact ensures_macos admissible sound
  rw [if_neg mac]
  apply ensures_bind (ensures_landlock admissible sound)
  rintro confined after - ⟨plain, settles⟩
  split_ifs with windows
  · exact ensures_pure ⟨settles.spawns, settles.hints, settles.confined.more _ plain⟩
  · exact ensures_pure settles

theorem unenforced_ne_nil {front : Log} {confined : Confinement}
    (held : Confined world installer cwd front confined) : confined.unenforced ≠ [] := by
  cases held with
  | landlock known within told =>
    have metadata : "install_metadata_syscalls_unrestricted" ∈
        Landlock.unenforcedReasons world.landlockAbi "install" := by
      rw [Landlock.unenforcedReasons, if_neg known.ne']
      exact List.mem_append_left _ (List.mem_append_left _ (List.mem_singleton_self _))
    exact List.ne_nil_of_mem (told metadata)
  | sandbox => exact List.cons_ne_nil _ _
  | bare told =>
    rcases told with told | told
    · exact List.ne_nil_of_mem told
    · exact List.ne_nil_of_mem told

theorem lookup_noted {key flag shown limit : String} (others : key ∉ [flag, shown, limit]) (exceeded : Bool)
    (found allowed : Nat) (result : Fields) :
    (noted exceeded flag shown limit found allowed result).lookup key = result.lookup key := by
  simp only [List.mem_cons, List.not_mem_nil, or_false, not_or] at others
  unfold noted
  split_ifs
  · rw [lookup_setEntry, if_neg others.2.2, lookup_setEntry, if_neg others.2.1, lookup_setEntry,
      if_neg others.1]
  · rfl

theorem lookup_quotaPostcheck (usage : Usage) (result : Fields) :
    (quotaPostcheck usage result).lookup "unenforced" = result.lookup "unenforced" := by
  rw [quotaPostcheck, lookup_noted (by decide), lookup_noted (by decide), lookup_noted (by decide)]

theorem ensures_disclose {confined : Confinement} {front : Log} {result : Fields}
    (held : Confined world installer cwd front confined) :
    Ensures (Follows world call) (disclose world call confined.unenforced result) log fun fields after =>
      after = log ∧ fields.lookup "unenforced" = some (.arr (confined.unenforced.map .str)) := by
  unfold disclose
  rw [if_neg (unenforced_ne_nil held)]
  have shows := @lookup_setEntry String Json _ "unenforced" "unenforced"
    (.arr (confined.unenforced.map .str)) result
  rw [if_pos rfl] at shows
  cases given call.sessionId with
  | none => exact ensures_pure ⟨rfl, shows⟩
  | some sessionId =>
    apply ensures_bind ensures_ask
    rintro answer _ - ⟨rfl, -⟩
    apply ensures_bind (ensures_ofExcept fun _ _ => rfl : Ensures _ _ _ fun _ after => after = _)
    rintro usage _ - rfl
    exact ensures_pure ⟨rfl, (lookup_quotaPostcheck usage _).trans shows⟩

end Steps

section Runs

variable {world : World} {call : Call} {log : Log} {installer : Installer} {cwd language : String}

/-- A run of `install`: what its result says of the one process, or that there is none. -/
def Answers (world : World) (call : Call) (fields : Fields) (after : Log) : Prop :=
  spawns after = [] ∨ Discloses world call fields after

theorem discloses_of_spawn {fields : Fields} {confined : Confinement} {process : Process}
    (fresh : spawns log = [])
    (starts : Starts world (canonicalOr call.language) (spec call.package call.version) log confined process)
    (shows : fields.lookup "unenforced" = some (.arr (confined.unenforced.map .str))) :
    Discloses world call fields (log ++ [.spawned process]) := by
  intro front other back split
  rcases List.eq_nil_or_concat back with rfl | ⟨others, last, rfl⟩
  · obtain ⟨rfl, same⟩ := List.append_inj' split rfl
    cases List.singleton_inj.mp same
    exact ⟨confined, starts, shows⟩
  · exfalso
    have regroup : log ++ [.spawned process] = (front ++ .spawned other :: others) ++ [last] := by
      rw [split]
      simp
    obtain ⟨rfl, -⟩ := List.append_inj' regroup rfl
    rw [spawns_append] at fresh
    exact List.cons_ne_nil _ _ (List.append_eq_nil_iff.mp fresh).2

theorem ensures_perform (fresh : spawns log = []) (admissible : Admissible world call)
    (found : installers.lookup (canonicalOr call.language) = some installer) :
    Ensures (Follows world call) (perform world call installer cwd) log (Answers world call) := by
  have sound := sound_of_lookup found
  unfold perform
  dsimp only
  apply ensures_bind (ensures_confinement admissible sound)
  rintro confined after - settles
  have still : spawns after = [] := settles.spawns.trans fresh
  generalize hprocess : (⟨confined.wrapper ++ installer.command.map (fill cwd (spec call.package call.version)),
    cwd, confined.env, confined.rules, call.timeout⟩ : Process) = process
  have starts : Starts world (canonicalOr call.language) (spec call.package call.version) after confined
      process := by
    subst hprocess
    refine ⟨⟨installer, found, sound.single, fun clear => ?_, settles.hints, settles.confined⟩, rfl, rfl⟩
    exact congrArg (confined.wrapper ++ ·)
      (List.map_congr_left fun word member => fill_eq clear (sound.words word member))
  apply ensures_bind (ensures_record ⟨still, admissible, confined, starts⟩)
  rintro _ _ - rfl
  apply ensures_bind ensures_ask
  rintro answer _ - ⟨rfl, -⟩
  refine (ensures_disclose settles.confined).weaken ?_
  rintro fields _ - ⟨rfl, shows⟩
  exact .inr (discloses_of_spawn still starts shows)

theorem ensures_place (fresh : spawns log = []) (admissible : Admissible world call) :
    Ensures (Follows world call) (place world call) log fun _ after => spawns after = [] := by
  unfold place
  cases given call.sessionId with
  | some sessionId =>
    apply ensures_bind (ensures_ofExcept fun _ _ => rfl : Ensures _ _ _ fun _ after => after = log)
    rintro ⟨directory, isDir⟩ _ - rfl
    dsimp only
    split_ifs
    · exact ensures_pure fresh
    apply ensures_bind ensures_ask
    rintro answer _ - ⟨rfl, -⟩
    apply ensures_bind (ensures_ofExcept fun _ _ => rfl : Ensures _ _ _ fun _ after => after = _)
    rintro refusal _ - rfl
    cases refusal <;> exact ensures_pure fresh
  | none =>
    cases given call.workdir with
    | some workdir =>
      apply ensures_bind ensures_ask
      rintro isDir _ - ⟨rfl, -⟩
      split_ifs <;> exact ensures_pure fresh
    | none =>
      apply ensures_bind (@ensures_write world call log (.mkdir _) admissible)
      rintro _ _ - rfl
      refine ensures_pure ?_
      rw [spawns_append, fresh]
      rfl

theorem ensures_install (fresh : spawns log = []) :
    Ensures (Follows world call) (install world call) log (Answers world call) := by
  unfold install
  dsimp only
  by_cases declined : canonicalOr call.language ∈ unsupported
  · rw [if_pos declined]
    exact ensures_pure (.inl fresh)
  rw [if_neg declined]
  cases found : installers.lookup (canonicalOr call.language) with
  | none => exact ensures_pure (.inl fresh)
  | some installer =>
    by_cases missing : world.which installer.manager = none
    · dsimp only
      rw [if_pos missing]
      exact ensures_pure (.inl fresh)
    dsimp only
    rw [if_neg missing]
    cases checked : fault world.strings call.package call.version with
    | some message => exact ensures_pure (.inl fresh)
    | none =>
      cases denial : allowlistDenial world.strings world.environ (canonicalOr call.language) call.package with
      | some reason =>
        cases audited : call.audited with
        | true =>
          dsimp only
          rw [if_pos rfl]
          apply ensures_bind (ensures_record ⟨fresh, audited, rfl, rfl, denial⟩)
          rintro _ _ - rfl
          refine ensures_pure (.inl ?_)
          rw [spawns_append, fresh]
          rfl
        | false => exact ensures_pure (.inl fresh)
      | none =>
        have admissible : Admissible world call := ⟨inert_spec checked, listed_spec checked denial⟩
        apply ensures_bind (ensures_place fresh admissible)
        intro outcome after _ still
        cases outcome with
        | error refusal => exact ensures_pure (.inl still)
        | ok cwd => exact ensures_perform still admissible found

/-- In every run of `install` whatever is done is allowed by what was done before it,
and a result with a process behind it says what was not enforced. -/
theorem install_contained (world : World) (call : Call) :
    Extends (Allowed world call) [] (run (install world call) []).2 ∧
      ∀ fields, (run (install world call) []).1 = .ok fields →
        spawns (run (install world call) []).2 = [] ∨
          Discloses world call fields (run (install world call) []).2 := by
  have ensures := @ensures_install world call [] rfl
  exact ⟨ensures.1, fun fields same => ensures.returned same⟩

end Runs

end CodeCalc.Packages
