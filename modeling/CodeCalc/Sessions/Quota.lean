import CodeCalc.Sessions.Snapshot

/-! Restoring a snapshot under the disk quotas.  The refusal measures what a
session holds and adds what is coming in; a restore into a new session or in
place of the old contents hands it the session that the snapshot was taken of. -/
namespace CodeCalc.Quota
open Lib Errors Snapshots

section Refusal

/-- The ceilings in force, in bytes. -/
structure Ceilings where
  sessionQuota : Nat
  totalQuota : Nat
  minHostFree : Nat

/-- What `_session_dir` of an id comes to. -/
inductive Place where
  /-- It raises `ValueError`. -/
  | refused (message : String)
  | absent
  | directory (tree : Tree)

structure Sessions where
  place : String → Place
  /-- The directories under `SESSION_ROOT`. -/
  workspaces : List Tree
  /-- The bytes that are free, where the host can be measured. -/
  free : Option Nat
  /-- The recorded identity is there and is that of the directory. -/
  verified : String → Bool

/-- `st.st_size` of a regular file. -/
def Entry.size (entry : Entry) : Nat :=
  match entry.stat with
  | .file _ data => data.length
  | _ => 0

/-- The sizes that `_iter_regular_files` yields, summed. -/
def usage (tree : Tree) : Nat := (tree.entries.map Entry.size).sum

variable (ceilings : Ceilings) (sessions : Sessions)

def sessionDirSize (sid : String) : Nat :=
  match sessions.place sid with
  | .directory tree => usage tree
  | _ => 0

def globalDiskUsage : Nat := (sessions.workspaces.map usage).sum

def diskQuotaRefusal (sid : String) (incoming : Int) : Option Fields :=
  let sessionUsage := sessionDirSize sessions sid
  let globalUsage := globalDiskUsage sessions
  if (ceilings.sessionQuota : Int) < sessionUsage + incoming then
    some (errorResult .resourceExhausted ("session '" ++ sid ++ "' disk quota exceeded: " ++
      toString (sessionUsage + incoming) ++ " bytes would exceed the " ++
      toString ceilings.sessionQuota ++ "-byte per-session limit (CODECALC_SESSION_DISK_QUOTA_MB)")
      [("remedy", .str ("delete files in this session's workspace (session_files to see what's " ++
        "there), raise CODECALC_SESSION_DISK_QUOTA_MB, or free space by overwriting a large file " ++
        "with a smaller one (a same-size-or-shrinking write is always allowed, even over quota), or " ++
        "session_stop")),
        ("usage_bytes", .int sessionUsage), ("quota_bytes", .int ceilings.sessionQuota),
        ("scope", .str "session")])
  else if (ceilings.totalQuota : Int) < globalUsage + incoming then
    some (errorResult .resourceExhausted ("global session disk quota exceeded: " ++
      toString (globalUsage + incoming) ++ " bytes across all sessions would exceed the " ++
      toString ceilings.totalQuota ++ "-byte total limit (CODECALC_TOTAL_DISK_QUOTA_MB)")
      [("remedy", .str ("stop idle sessions (session_stop) to free disk shared across every " ++
        "session, or raise CODECALC_TOTAL_DISK_QUOTA_MB")),
        ("usage_bytes", .int globalUsage), ("quota_bytes", .int ceilings.totalQuota),
        ("scope", .str "global")])
  else match sessions.free with
    | none => none
    | some free =>
        if free < ceilings.minHostFree then
          some (errorResult .resourceExhausted ("host free disk space (" ++ toString free ++
            " bytes) is below the configured floor (" ++ toString ceilings.minHostFree ++
            " bytes, CODECALC_MIN_HOST_FREE_MB)")
            [("remedy", .str "free disk space on the host, or lower CODECALC_MIN_HOST_FREE_MB"),
              ("free_bytes", .int free), ("min_free_bytes", .int ceilings.minHostFree),
              ("scope", .str "host")])
        else none

end Refusal

section Restore

/-- What a call answers, or the exception that leaves it. -/
inductive Outcome where
  | answered (result : Fields)
  | raised (text : String)

/-- How the steps of a restore go on the host, in their order. -/
structure Attempt where
  /-- The text of the `OSError` of `temp_dir.mkdir`. -/
  makeDir : Option String
  os : List Text → Option String
  verifiedAgain : Bool
  setAside : Option String
  moveIn : Option String
  spawn : Except String (Bool × Json)
  workdir : String
  listing : Json

/-- A snapshot as its two files hold it. -/
structure Stored where
  /-- The language of the metadata, or why it cannot be read. -/
  language : Except String String
  archive : Archive

variable (host : Host) (ceilings : Ceilings) (limits : Limits) (sessions : Sessions)
  (attempt : Attempt)

/-- `_guard_error` of what `_session_dir` and `_snapshot_paths` raise. -/
def guardError (message : String) : Fields :=
  errorResult (if isIn "invalid session id" message then .validation
    else if isIn "too long" message || isIn "too many segments" message then .resourceExhausted
    else .permissionDenied) message []

def materializeTarPlan (archive : Archive) (plan : Plan) : Option Outcome :=
  match attempt.makeDir with
  | some text => some (.raised text)
  | none =>
      match extractFrom host attempt.os .empty plan.members archive with
      | .error failure => some (.answered failure)
      | .ok _ => none

def workerLangs : List String := ["python3", "node"]

def finishRestoredSession (sid language : String) (plan : Plan) (replaced : Bool) : Fields :=
  [("ok", .bool true), ("action", .str "restore"), ("session_id", .str sid),
    ("language", .str language), ("workdir", .str attempt.workdir),
    ("restored_files", .int plan.fileCount), ("bytes", .int plan.totalBytes)] ++
  (if replaced then [("replaced", .bool true)] else []) ++
  (if language ∈ workerLangs then
    match attempt.spawn with
    | .ok (confined, unenforced) =>
        [("stateful", .bool true), ("confined", .bool confined), ("unenforced", unenforced)]
    | .error why =>
        [("stateful", .bool false),
          ("worker_restart_error", .str (if why = "" then "unknown cause" else why))]
  else [("stateful", .bool false)]) ++
  [("files", attempt.listing)]

def snapshotRestoreNew (origin digits language : String) (archive : Archive) (plan : Plan) : Outcome :=
  match diskQuotaRefusal ceilings sessions origin plan.totalBytes with
  | some refusal => .answered refusal
  | none =>
      match materializeTarPlan host attempt archive plan with
      | some failure => failure
      | none =>
          match attempt.moveIn with
          | some text => .answered (errorResult .internal
              ("could not finalize the restored workspace: " ++ text) [])
          | none => .answered (finishRestoredSession attempt (language ++ "-" ++ digits) language plan false)

def identityRefusal (sid problem : String) : Fields :=
  errorResult .permissionDenied ("session '" ++ sid ++ "' workspace identity " ++ problem ++
    " — refusing to replace it") [("remedy", .str "use a session this server process started")]

def snapshotRestoreReplace (sid language : String) (archive : Archive) (plan : Plan) : Outcome :=
  match sessions.place sid with
  | .refused message => .answered (guardError message)
  | .absent => .answered [("ok", .bool false), ("error", .str ("unknown session '" ++ sid ++ "'"))]
  | .directory _ =>
      if sessions.verified sid = false then
        .answered (identityRefusal sid "could not be verified")
      else match diskQuotaRefusal ceilings sessions sid plan.totalBytes with
        | some refusal => .answered refusal
        | none =>
            match materializeTarPlan host attempt archive plan with
            | some failure => failure
            | none =>
                if attempt.verifiedAgain = false then
                  .answered (identityRefusal sid "changed during restore")
                else match attempt.setAside with
                  | some text => .answered (errorResult .internal
                      ("could not set aside the existing workspace: " ++ text) [])
                  | none =>
                      match attempt.moveIn with
                      | some text => .answered (errorResult .internal
                          ("could not finalize the restored workspace: " ++ text) [])
                      | none => .answered (finishRestoredSession attempt sid language plan true)

/-- What `snapshot_restore` has before it looks at the session: the language of
the snapshot, its archive and the plan. -/
def loadSnapshot (sid snapshotId : String) (stored : Except String (Option Stored)) :
    Except Fields (String × Archive × Plan) :=
  match stored with
  | .error message => .error (guardError message)
  | .ok none => .error [("ok", .bool false), ("error", .str ("unknown snapshot '" ++ snapshotId ++
      "' for session '" ++ sid ++ "'"))]
  | .ok (some stored) =>
      match stored.language with
      | .error text => .error (errorResult .internal ("snapshot metadata unreadable: " ++ text) [])
      | .ok language =>
          match planTarExtraction host limits stored.archive with
          | .error refusal => .error refusal
          | .ok plan => .ok (language, stored.archive, plan)

/-- `snapshot_restore`; `stored` is what `_snapshot_paths` and the two files come to. -/
def snapshotRestore (sid snapshotId digits : String) (stored : Except String (Option Stored))
    (replace : Bool) : Outcome :=
  match loadSnapshot host limits sid snapshotId stored with
  | .error refusal => .answered refusal
  | .ok (language, archive, plan) =>
      if replace then snapshotRestoreReplace host ceilings sessions attempt sid language archive plan
      else snapshotRestoreNew host ceilings sessions attempt sid digits language archive plan

end Restore

section Scope

def scope (result : Fields) : Option Json := result.lookup "scope"

def RefusedForSession (outcome : Outcome) : Prop :=
  ∃ result, outcome = .answered result ∧ scope result = some (.str "session")

variable {host : Host} {ceilings : Ceilings} {limits : Limits} {sessions : Sessions}
  {attempt : Attempt} {sid language : String} {archive : Archive} {plan : Plan}

theorem refusedForSession_answered {result : Fields} :
    RefusedForSession (.answered result) ↔ scope result = some (.str "session") := by
  constructor
  · rintro ⟨other, same, named⟩
    cases same
    exact named
  · exact fun named => ⟨result, rfl, named⟩

theorem not_refusedForSession {result : Fields} (unscoped : scope result = none) :
    ¬RefusedForSession (.answered result) := by
  rw [refusedForSession_answered, unscoped]
  exact nofun

theorem not_refusedForSession_raised {text : String} : ¬RefusedForSession (.raised text) := by
  rintro ⟨result, same, -⟩
  cases same

/-- A failure that carries nothing, or the member it is about, has no scope. -/
theorem scope_errorResult (code : Code) (message : String) : scope (errorResult code message []) = none :=
  rfl

theorem scope_errorResult_one (code : Code) (message key : String) (value : Json)
    (other : key ≠ "scope") : scope (errorResult code message [(key, value)]) = none := by
  have assigned : scope (errorResult code message [(key, value)]) =
      if "scope" = key then some value else scope (errorResult code message []) :=
    lookup_setEntry key "scope" value (errorResult code message [])
  rw [assigned, if_neg other.symm, scope_errorResult]

theorem scope_extractMember {os : List Text → Option String} {disk : Disk} {planned : Planned}
    {member : Member} {failure : Fields}
    (failed : extractMember host os disk planned member = .error failure) :
    scope failure = none := by
  unfold extractMember extractMemberOn at failed
  dsimp only at failed
  split at failed
  · cases failed
    rfl
  · split at failed
    · cases failed
      exact scope_errorResult_one _ _ _ _ (by decide)
    · split at failed
      · cases failed
        rfl
      · split at failed
        · cases failed
          rfl
        · cases failed

theorem scope_extractFrom {os : List Text → Option String} {disk : Disk} {planned : List Planned}
    {failure : Fields} (failed : extractFrom host os disk planned archive = .error failure) :
    scope failure = none := by
  induction archive generalizing disk planned with
  | nil =>
    cases planned with
    | nil => cases failed
    | cons first rest =>
      cases failed
      rfl
  | cons entry rest ih =>
    cases entry with
    | error text =>
      cases planned <;> cases failed <;> rfl
    | ok member =>
      cases planned with
      | nil =>
        rw [extractFrom_nil] at failed
        split at failed
        · exact ih failed
        · cases failed
          rfl
      | cons next planned =>
        rw [extractFrom_cons] at failed
        split at failed
        · exact ih failed
        · split at failed
          · rename_i refusal stopped
            cases failed
            exact scope_extractMember stopped
          · exact ih failed

theorem scope_finishRestoredSession (replaced : Bool) :
    scope (finishRestoredSession attempt sid language plan replaced) = none := by
  rw [finishRestoredSession]
  cases replaced <;> by_cases worker : language ∈ workerLangs <;> cases attempt.spawn <;>
    simp only [worker, if_true, if_false] <;> rfl

/-- What the quota check says, if anything, says `session` exactly when the
session would hold more than its quota. -/
theorem diskQuotaRefusal_session {incoming : Int} :
    (∃ refusal, diskQuotaRefusal ceilings sessions sid incoming = some refusal ∧
      scope refusal = some (.str "session")) ↔
      (ceilings.sessionQuota : Int) < sessionDirSize sessions sid + incoming := by
  unfold diskQuotaRefusal
  dsimp only
  split
  · rename_i large
    exact iff_of_true ⟨_, rfl, rfl⟩ large
  · rename_i small
    refine iff_of_false ?_ small
    rintro ⟨refusal, refused, named⟩
    split at refused
    · cases refused
      have same : some (Json.str "global") = some (.str "session") := named
      exact absurd (Json.str.inj (Option.some.inj same)) (by decide)
    · split at refused
      · cases refused
      · split at refused
        · cases refused
          have same : some (Json.str "host") = some (.str "session") := named
          exact absurd (Json.str.inj (Option.some.inj same)) (by decide)
        · cases refused

theorem materializeTarPlan_unscoped {failure : Outcome}
    (failed : materializeTarPlan host attempt archive plan = some failure) :
    ¬RefusedForSession failure := by
  unfold materializeTarPlan at failed
  split at failed
  · cases failed
    exact not_refusedForSession_raised
  · split at failed
    · rename_i stopped
      cases failed
      exact not_refusedForSession (scope_extractFrom stopped)
    · cases failed

theorem refusedForSession_check {rest : Outcome} {incoming : Int} (later : ¬RefusedForSession rest) :
    RefusedForSession (match diskQuotaRefusal ceilings sessions sid incoming with
      | some refusal => .answered refusal
      | none => rest) ↔
      (ceilings.sessionQuota : Int) < sessionDirSize sessions sid + incoming := by
  rw [← diskQuotaRefusal_session]
  cases check : diskQuotaRefusal ceilings sessions sid incoming with
  | none => exact iff_of_false later (by rintro ⟨_, none, -⟩; cases none)
  | some refusal =>
    rw [refusedForSession_answered]
    constructor
    · exact fun named => ⟨refusal, rfl, named⟩
    · rintro ⟨other, same, named⟩
      cases same
      exact named

theorem snapshotRestoreNew_session {digits : String} :
    RefusedForSession (snapshotRestoreNew host ceilings sessions attempt sid digits language archive plan) ↔
      (ceilings.sessionQuota : Int) < sessionDirSize sessions sid + plan.totalBytes := by
  apply refusedForSession_check
  split
  · rename_i failed
    exact materializeTarPlan_unscoped failed
  · split
    · exact not_refusedForSession (scope_errorResult _ _)
    · exact not_refusedForSession (scope_finishRestoredSession false)

/-- The workspace that is to be replaced is there and is the session's own. -/
def InPlace (sessions : Sessions) (sid : String) : Prop :=
  (∃ tree, sessions.place sid = .directory tree) ∧ sessions.verified sid = true

theorem snapshotRestoreReplace_session :
    RefusedForSession (snapshotRestoreReplace host ceilings sessions attempt sid language archive plan) ↔
      InPlace sessions sid ∧
        (ceilings.sessionQuota : Int) < sessionDirSize sessions sid + plan.totalBytes := by
  unfold snapshotRestoreReplace InPlace
  cases place : sessions.place sid with
  | refused message =>
    refine iff_of_false (not_refusedForSession (scope_errorResult _ _)) ?_
    rintro ⟨⟨⟨tree, same⟩, -⟩, -⟩
    cases same
  | absent =>
    refine iff_of_false (not_refusedForSession rfl) ?_
    rintro ⟨⟨⟨tree, same⟩, -⟩, -⟩
    cases same
  | directory tree =>
    cases verified : sessions.verified sid with
    | false =>
      refine iff_of_false (not_refusedForSession rfl) ?_
      rintro ⟨⟨-, same⟩, -⟩
      cases same
    | true =>
      have here : (∃ other, Place.directory tree = .directory other) ∧ true = true := ⟨⟨tree, rfl⟩, rfl⟩
      simp only [here, true_and]
      apply refusedForSession_check
      split
      · rename_i failed
        exact materializeTarPlan_unscoped failed
      · split
        · exact not_refusedForSession rfl
        · split
          · exact not_refusedForSession (scope_errorResult _ _)
          · split
            · exact not_refusedForSession (scope_errorResult _ _)
            · exact not_refusedForSession (scope_finishRestoredSession true)

/-- The quota of the session is named exactly when the snapshot alone is over it,
provided that the check is reached and what the session holds does not make
the difference; a replacement that is turned away before the check never
names it. -/
theorem snapshotRestore_quota_iff {snapshotId digits : String}
    {stored : Except String (Option Stored)} {replace : Bool}
    (loaded : loadSnapshot host limits sid snapshotId stored = .ok (language, archive, plan)) :
    (RefusedForSession (snapshotRestore host ceilings limits sessions attempt sid snapshotId digits
        stored replace) ↔ ceilings.sessionQuota < plan.totalBytes) ↔
      ((replace = true → InPlace sessions sid) ∧ (plan.totalBytes ≤ ceilings.sessionQuota →
          sessionDirSize sessions sid + plan.totalBytes ≤ ceilings.sessionQuota)) ∨
        (¬(replace = true → InPlace sessions sid) ∧ plan.totalBytes ≤ ceilings.sessionQuota) := by
  have refused : RefusedForSession (snapshotRestore host ceilings limits sessions attempt sid
      snapshotId digits stored replace) ↔ (replace = true → InPlace sessions sid) ∧
        (ceilings.sessionQuota : Int) < sessionDirSize sessions sid + plan.totalBytes := by
    rw [snapshotRestore, loaded]
    cases replace with
    | false =>
      refine snapshotRestoreNew_session.trans ⟨fun over_ => ⟨nofun, over_⟩, And.right⟩
    | true =>
      refine snapshotRestoreReplace_session.trans (and_congr_left fun _ => ?_)
      exact ⟨fun here _ => here, fun here => here rfl⟩
  rw [refused]
  by_cases reached : replace = true → InPlace sessions sid
  · rw [and_iff_right reached, and_iff_right reached, or_iff_left fun other => other.1 reached]
    omega
  · rw [or_iff_right fun both => reached both.1, and_iff_right reached]
    constructor
    · intro same
      by_contra large
      exact reached (same.mpr (by omega)).1
    · intro small
      exact ⟨fun both => absurd both.1 reached, fun large => by omega⟩

/-- A session of six bytes and its snapshot, under a quota of ten. -/
def sixBytes : Tree where
  entries := [⟨[Text.ofString "a"], .file 1 (List.replicate 6 0)⟩]
  valid := by decide
  distinct := by simp
  nested := by
    intro above first entry second _ apart
    rw [List.mem_singleton.mp first, List.mem_singleton.mp second] at apart
    exact absurd rfl apart

def plainHost : Host := ⟨id, fun _ => false, fun _ => "a", fun _ => "'a'"⟩

def smallCeilings : Ceilings := ⟨10, 1000, 0⟩

def smallLimits : Limits := ⟨1000, 1000, 10, 10⟩

def oneSession : Sessions :=
  ⟨fun sid => if sid = "python3-0" then .directory sixBytes else .absent, [sixBytes], none, fun _ => true⟩

def smooth : Attempt := ⟨none, fun _ => none, true, none, none, .ok (true, .arr []), "", .arr []⟩

def savedArchive : Archive := [.ok ⟨Text.ofString "a", .regular, 6, List.replicate 6 0⟩]

theorem loaded_saved : ∃ plan : Plan, plan.totalBytes = 6 ∧
    loadSnapshot plainHost smallLimits "python3-0" "s" (.ok (some ⟨.ok "python3", savedArchive⟩)) =
      .ok ("python3", savedArchive, plan) := by
  exact ⟨_, rfl, rfl⟩

theorem snapshotRestore_quota_iff_saved :
    ∃ plan : Plan, loadSnapshot plainHost smallLimits "python3-0" "s"
        (.ok (some ⟨.ok "python3", savedArchive⟩)) = .ok ("python3", savedArchive, plan) ∧
      ((RefusedForSession (snapshotRestore plainHost smallCeilings smallLimits oneSession smooth
          "python3-0" "s" "1" (.ok (some ⟨.ok "python3", savedArchive⟩)) true) ↔
            smallCeilings.sessionQuota < plan.totalBytes) ↔
        ((true = true → InPlace oneSession "python3-0") ∧
            (plan.totalBytes ≤ smallCeilings.sessionQuota →
              sessionDirSize oneSession "python3-0" + plan.totalBytes ≤ smallCeilings.sessionQuota)) ∨
          (¬(true = true → InPlace oneSession "python3-0") ∧
            plan.totalBytes ≤ smallCeilings.sessionQuota)) := by
  obtain ⟨plan, -, loaded⟩ := loaded_saved
  exact ⟨plan, loaded, snapshotRestore_quota_iff loaded⟩

/-- The quota of the session is named exactly when the snapshot alone is over it. -/
def MeasuresAlone (replace : Bool) : Prop :=
  ∀ (host : Host) (ceilings : Ceilings) (limits : Limits) (sessions : Sessions) (attempt : Attempt)
      (sid snapshotId digits language : String) (stored : Except String (Option Stored))
      (archive : Archive) (plan : Plan),
    loadSnapshot host limits sid snapshotId stored = .ok (language, archive, plan) →
      (RefusedForSession (snapshotRestore host ceilings limits sessions attempt sid snapshotId digits
        stored replace) ↔ ceilings.sessionQuota < plan.totalBytes)

/-- Six bytes fit into ten, but not beside the six bytes they are to replace, nor
beside those of the session that the snapshot was taken of. -/
theorem snapshotRestore_counts_twice : ¬MeasuresAlone true ∧ ¬MeasuresAlone false := by
  obtain ⟨plan, total, loaded⟩ := loaded_saved
  have both : (smallCeilings.sessionQuota : Int) <
      sessionDirSize oneSession "python3-0" + plan.totalBytes := by
    rw [total]
    decide
  have within : ¬smallCeilings.sessionQuota < plan.totalBytes := by
    rw [total]
    decide
  constructor
  · intro alone
    apply within
    apply (alone plainHost smallCeilings smallLimits oneSession smooth _ _ "1" _ _ _ _ loaded).mp
    rw [snapshotRestore, loaded]
    exact snapshotRestoreReplace_session.mpr ⟨⟨⟨sixBytes, rfl⟩, rfl⟩, both⟩
  · intro alone
    apply within
    apply (alone plainHost smallCeilings smallLimits oneSession smooth _ _ "1" _ _ _ _ loaded).mp
    rw [snapshotRestore, loaded]
    exact snapshotRestoreNew_session.mpr both

end Scope

end CodeCalc.Quota
