import CodeCalc.Errors
import CodeCalc.Lib.Directory
import CodeCalc.Lib.Text

/-! Snapshots of a session: what `snapshot_save` archives of a workspace, and
what planning and extraction make of an archive.  An archive is the members
that come out of it again, one call of `tf.next()` after the other. -/
namespace CodeCalc.Snapshots
open Lib Errors

def slash : CodePoint := .ofChar '/'

/-- `path.as_posix()`. -/
def joinPath (parts : List Text) : Text := [slash].intercalate parts

/-- `name.split("/")`. -/
def splitPath (name : Text) : List Text := name.splitOn slash

def dot : Text := .ofString "."

def dotDot : Text := .ofString ".."

/-- What a file system accepts as one component of a path. -/
def validName (name : Text) : Prop :=
  name ≠ [] ∧ name ≠ dot ∧ name ≠ dotDot ∧ slash ∉ name ∧ CodePoint.ofChar '\x00' ∉ name

instance (name : Text) : Decidable (validName name) :=
  inferInstanceAs (Decidable (_ ∧ _ ∧ _ ∧ _ ∧ _))

inductive Stat where
  | file (nlink : Nat) (data : List UInt8)
  | directory
  /-- A symbolic link, a pipe, a socket, a device. -/
  | other

structure Entry where
  parts : List Text
  stat : Stat

/-- What `sorted(d.rglob("*"))` comes to in a workspace. -/
structure Tree where
  entries : List Entry
  valid : ∀ entry ∈ entries, entry.parts ≠ [] ∧ ∀ part ∈ entry.parts, validName part
  distinct : entries.Pairwise fun left right => left.parts ≠ right.parts
  /-- Only a directory has something under it. -/
  nested : ∀ above ∈ entries, ∀ entry ∈ entries, above.parts <+: entry.parts →
    above.parts ≠ entry.parts → above.stat = .directory

/-- The Unicode tables of Python, and how a text is shown in a result: as it is,
and by `repr`. -/
structure Host where
  casefold : Text → Text
  isDecimal : CodePoint → Bool
  plain : Text → String
  repr : Text → String

structure Limits where
  maxSnapshotBytes : Nat
  maxArtifactBytes : Nat
  maxArtifactCount : Nat
  maxSnapshots : Nat

section Save

variable (host : Host)

/-- `_EIGHT_DOT_THREE_RE.search(name)`. -/
def eightDotThree : Text → Bool
  | code :: digit :: rest =>
      (code = .ofChar '~' && host.isDecimal digit) || eightDotThree (digit :: rest)
  | _ => false

def normalizedComponentMatches (name : Text) (targets : List Text) : Bool :=
  let stripped := name.rdropWhile (· ∈ Text.ofString ". ")
  let stripped := if stripped = [] then name else stripped
  eightDotThree host name || [name, stripped].any fun candidate =>
    host.casefold candidate ∈ targets.map host.casefold

def isRunnerInternal : List Text → Bool
  | [] => false
  | first :: rest =>
      normalizedComponentMatches host first [.ofString ".codecalc-spill", .ofString ".codecalc-run"] ||
      (first :: rest).any (fun part => host.casefold part = .ofString "__pycache__") ||
      (Text.ofString ".pyc").isSuffixOf (host.casefold ((first :: rest).getLast (List.cons_ne_nil _ _))) ||
      (rest.isEmpty && normalizedComponentMatches host first
        [.ofString ".codecalc-session-lock", .ofString ".codecalc-session-expired"])

abbrev File := List Text × List UInt8

/-- The entries of `_workspace_scan` that are no hard links: `to_archive`. -/
def toArchive (entries : List Entry) : List File :=
  entries.filterMap fun entry =>
    match entry.stat with
    | .file 1 data => if isRunnerInternal host entry.parts then none else some (entry.parts, data)
    | _ => none

inductive Kind where
  | regular
  | directory
  | link
  | special
  deriving DecidableEq

/-- `TarInfo`, with the data that follows it. -/
structure Member where
  name : Text
  kind : Kind
  size : Nat
  data : List UInt8

/-- What `tf.next()` returns, or why the archive is corrupt. -/
abbrev Archive := List (Except String Member)

/-- `tf.add(p, arcname=.., recursive=False)`. -/
def member (file : File) : Member := ⟨joinPath file.1, .regular, file.2.length, file.2⟩

/-- What `snapshot_save` finds outside the workspace. -/
structure Found where
  /-- `_disk_quota_refusal`. -/
  quota : Nat → Option Fields
  /-- The snapshots the session has. -/
  existing : Nat
  sessionId : String
  /-- The text of an `OSError` while the archive is written. -/
  failure : Option String

def snapshotSave (limits : Limits) (found : Found) (tree : Tree) : Except Fields Archive :=
  let files := toArchive host tree.entries
  let rawBytes := (files.map fun file => file.2.length).sum
  if limits.maxSnapshotBytes < rawBytes then
    .error (errorResult .resourceExhausted ("snapshot would be at least " ++ toString rawBytes ++
      " bytes, over the " ++ toString limits.maxSnapshotBytes ++
      "-byte cap (CODECALC_MAX_SNAPSHOT_BYTES)")
      [("remedy", .str ("delete files from the session first, or raise CODECALC_MAX_SNAPSHOT_BYTES")),
        ("raw_bytes", .int rawBytes), ("max_snapshot_bytes", .int limits.maxSnapshotBytes)])
  else match found.quota rawBytes with
    | some refusal => .error refusal
    | none =>
        if limits.maxSnapshots ≤ found.existing then
          .error (errorResult .resourceExhausted ("session '" ++ found.sessionId ++ "' already has " ++
            toString found.existing ++ " snapshot(s), at the " ++ toString limits.maxSnapshots ++
            "-snapshot cap (CODECALC_MAX_SNAPSHOTS_PER_SESSION)")
            [("remedy", .str ("delete an old snapshot first (session_snapshot action=\"delete\"), or " ++
              "raise CODECALC_MAX_SNAPSHOTS_PER_SESSION")),
              ("snapshot_count", .int found.existing), ("max_snapshots", .int limits.maxSnapshots)])
        else match found.failure with
          | some text => .error (errorResult .internal ("failed to write snapshot: " ++ text) [])
          | none => .ok (files.map fun file => .ok (member file))

end Save

section Plan

/-- `known_paths`: the paths that are files, and those that are directories.
Its keys are the split paths. -/
abbrev Known := Directory Text Unit

/-- One entry of a plan's `members`. -/
structure Planned where
  relpath : Text
  isDir : Bool
  size : Nat
  deriving DecidableEq

structure Plan where
  known : Known := .empty
  members : List Planned := []
  totalBytes : Nat := 0
  memberCount : Nat := 0

def Plan.fileCount (plan : Plan) : Nat := plan.members.countP fun planned => !planned.isDir

variable (host : Host) (limits : Limits)

def extractionByteBudget : Nat := limits.maxSnapshotBytes + limits.maxArtifactBytes

def tarPathCollision (known : Known) (name : Text) (isDir : Bool) : Except String Known :=
  match known.add (splitPath name) (if isDir then none else some ()) with
  | .ok known => .ok known
  | .error (.above ancestor) => .error ("snapshot member " ++ host.repr name ++ " treats " ++
      host.repr (joinPath ancestor) ++ " as a directory, but an earlier member declared it a file")
  | .error (.same existing) =>
      let kind := fun (isDir : Bool) => if isDir then "dir" else "file"
      .error ("snapshot member " ++ host.repr name ++ " collides with an earlier member of a different " ++
        "kind (" ++ kind existing ++ " vs " ++ kind isDir ++ ")")

/-- `re.match(r"^[A-Za-z]:", name)`. -/
def drivePrefix : Text → Bool
  | letter :: colon :: _ =>
      decide (65 ≤ letter.val ∧ letter.val ≤ 90 ∨ 97 ≤ letter.val ∧ letter.val ≤ 122) &&
        decide (colon = .ofChar ':')
  | _ => false

/-- The bare root entry some tar writers emit. -/
def isRoot (name : Text) : Bool := name = [] || name = dot || name = .ofString "./"

def nameRefusal (member : Member) : Option Fields :=
  let name := member.name
  let refuse := fun text => some (errorResult .permissionDenied text [("member", .str (host.plain name))])
  if .ofChar '\x00' ∈ name ∨ .ofChar '\\' ∈ name then
    refuse ("snapshot member name is malformed: " ++ host.repr name)
  else if name.head? = some slash ∨ drivePrefix name then
    refuse ("snapshot member has an absolute path: " ++ host.repr name)
  else if (splitPath name).any (fun part => part = [] || part = dot || part = dotDot) then
    refuse ("snapshot member path traverses out of the workspace: " ++ host.repr name)
  else match member.kind with
    | .link => refuse ("snapshot member " ++ host.repr name ++ " is a symlink/hardlink — refused")
    | .special => refuse ("snapshot member " ++ host.repr name ++ " is not a regular file or directory " ++
        "(device/FIFO/socket) — refused")
    | .regular | .directory => none

def planMember (plan : Plan) (member : Member) : Except Fields Plan :=
  if isRoot member.name then .ok plan
  else if limits.maxArtifactCount < plan.memberCount + 1 then
    .error (errorResult .resourceExhausted ("snapshot has more than " ++
      toString limits.maxArtifactCount ++ " member(s), over the cap (CODECALC_MAX_ARTIFACT_COUNT)")
      [("remedy", .str "raise CODECALC_MAX_ARTIFACT_COUNT"),
        ("max_members", .int limits.maxArtifactCount)])
  else match nameRefusal host member with
    | some refusal => .error refusal
    | none =>
        let isDir := decide (member.kind = .directory)
        let memberBytes := if isDir then 0 else member.size
        if limits.maxArtifactBytes < memberBytes then
          .error (errorResult .resourceExhausted ("snapshot member " ++ host.repr member.name ++ " is " ++
            toString memberBytes ++ " bytes, over the " ++ toString limits.maxArtifactBytes ++
            "-byte per-file cap (CODECALC_MAX_ARTIFACT_BYTES)")
            [("remedy", .str "raise CODECALC_MAX_ARTIFACT_BYTES"),
              ("member", .str (host.plain member.name)), ("member_bytes", .int memberBytes),
              ("max_member_bytes", .int limits.maxArtifactBytes)])
        else if isDir = false ∧ extractionByteBudget limits < plan.totalBytes + memberBytes then
          .error (errorResult .resourceExhausted ("snapshot content exceeds the " ++
            toString (extractionByteBudget limits) ++
            "-byte decompression budget — refusing to read further")
            [("remedy", .str "raise CODECALC_MAX_SNAPSHOT_BYTES"),
              ("budget_bytes", .int (extractionByteBudget limits))])
        else match tarPathCollision host plan.known member.name isDir with
          | .error collision => .error (errorResult .permissionDenied collision
              [("member", .str (host.plain member.name))])
          | .ok known => .ok {
              known := known
              members := plan.members ++ [⟨joinPath (splitPath member.name), isDir, memberBytes⟩]
              totalBytes := plan.totalBytes + memberBytes
              memberCount := plan.memberCount + 1 }

def corrupt (text : String) : Fields := errorResult .validation ("corrupt snapshot archive: " ++ text) []

/-- `_plan_tar_extraction`, from a turn of its loop on. -/
def planFrom : Plan → Archive → Except Fields Plan
  | plan, [] => .ok plan
  | _, .error text :: _ => .error (corrupt text)
  | plan, .ok member :: rest =>
      match planMember host limits plan member with
      | .error refusal => .error refusal
      | .ok plan => planFrom plan rest

def planTarExtraction (archive : Archive) : Except Fields Plan := planFrom host limits {} archive

end Plan

section Extract

/-- The directory an archive is extracted into. -/
abbrev Disk := Directory Text (List UInt8)

/-- `(dest / relpath).resolve()`, below `dest` if it stays there. -/
def resolve (relpath : Text) : Option (List Text) :=
  if relpath.head? = some slash then none
  else (splitPath relpath).foldl (fun path part =>
    if part = [] ∨ part = dot then path
    else if part = dotDot then path.bind fun path => if path = [] then none else some path.dropLast
    else path.map (· ++ [part])) (some [])

variable (host : Host) (os : List Text → Option String)

def changed (what : String) : Fields :=
  errorResult .permissionDenied ("snapshot archive changed between validation and extraction" ++ what) []

def extractionFailed (name text : String) : Fields :=
  errorResult .permissionDenied ("snapshot extraction failed on " ++ name ++ ": " ++ text) []

/-- One turn of the loop of `_extract_planned_tar`.  `os` is the `OSError` of a
path, apart from what stands in its way, and `fold` the name a file system takes a
name for. -/
def extractMemberOn (fold : Text → Text) (disk : Disk) (planned : Planned) (member : Member) :
    Except Fields Disk :=
  let isDir := decide (member.kind = .directory)
  if member.name ≠ planned.relpath ∨ isDir ≠ planned.isDir ∨
      (planned.isDir = false ∧ member.size ≠ planned.size) then
    .error (changed (" at member " ++ host.repr planned.relpath))
  else match resolve planned.relpath with
    | none => .error (errorResult .permissionDenied ("snapshot member resolves outside the new " ++
        "workspace: " ++ host.repr planned.relpath) [("member", .str (host.plain planned.relpath))])
    | some target =>
        match os target with
        | some text => .error (extractionFailed (host.plain planned.relpath) text)
        | none =>
            match disk.add (target.map fold) (if isDir then none else some member.data) with
            | .error _ => .error (extractionFailed (host.plain planned.relpath) "File exists")
            | .ok disk => .ok disk

/-- `_extract_planned_tar`, from a turn of its loop on. -/
def extractFromOn (fold : Text → Text) : Disk → List Planned → Archive → Except Fields Disk
  | disk, [], [] => .ok disk
  | _, _ :: _, [] => .error (changed " (fewer members than planned)")
  | _, _, .error text :: _ => .error (corrupt text)
  | disk, planned, .ok member :: rest =>
      if isRoot member.name then extractFromOn fold disk planned rest
      else match planned with
        | [] => .error (changed " (more members than planned)")
        | next :: planned =>
            match extractMemberOn host os fold disk next member with
            | .error refusal => .error refusal
            | .ok disk => extractFromOn fold disk planned rest

/-- The same where every name is its own. -/
def extractMember (disk : Disk) (planned : Planned) (member : Member) : Except Fields Disk :=
  extractMemberOn host os id disk planned member

def extractFrom (disk : Disk) (planned : List Planned) (archive : Archive) : Except Fields Disk :=
  extractFromOn host os id disk planned archive

theorem extractFrom_nil (disk : Disk) (member : Member) (rest : Archive) :
    extractFrom host os disk [] (.ok member :: rest) =
      if isRoot member.name then extractFrom host os disk [] rest
      else .error (changed " (more members than planned)") := by
  simp only [extractFrom, extractFromOn]

theorem extractFrom_cons (disk : Disk) (next : Planned) (planned : List Planned) (member : Member)
    (rest : Archive) :
    extractFrom host os disk (next :: planned) (.ok member :: rest) =
      if isRoot member.name then extractFrom host os disk (next :: planned) rest
      else match extractMember host os disk next member with
        | .error refusal => .error refusal
        | .ok disk => extractFrom host os disk planned rest := by
  rw [extractFrom, extractFromOn]
  rfl

/-- What a restore has put into its directory before it is moved into place. -/
def restoreFiles (limits : Limits) (archive : Archive) : Except Fields Disk :=
  match planTarExtraction host limits archive with
  | .error refusal => .error refusal
  | .ok plan => extractFrom host os .empty plan.members archive

end Extract

section Paths

variable {parts : List Text}

/-- The path of a file of a workspace. -/
def ValidPath (parts : List Text) : Prop := parts ≠ [] ∧ ∀ part ∈ parts, validName part

theorem splitPath_joinPath (valid : ValidPath parts) : splitPath (joinPath parts) = parts :=
  List.splitOn_intercalate slash (fun part member => (valid.2 part member).2.2.2.1) valid.1

theorem eq_splitPath {name : Text} (valid : ValidPath parts) (same : joinPath parts = name) :
    parts = splitPath name := by
  rw [← same, splitPath_joinPath valid]

theorem head_joinPath (valid : ValidPath parts) : (joinPath parts).head? ≠ some slash := by
  intro head
  cases same : joinPath parts with
  | nil =>
    rw [same] at head
    cases head
  | cons code rest =>
    rw [same] at head
    cases head
    have empty : [] ∈ parts := by
      rw [eq_splitPath valid same, splitPath, List.splitOn_cons_eq_if_modifyHead, if_pos BEq.rfl]
      exact List.mem_cons_self
    exact absurd rfl (valid.2 [] empty).1

theorem foldl_resolve {rest : List Text} (valid : ∀ part ∈ rest, validName part) (path : List Text) :
    rest.foldl (fun path part =>
      if part = [] ∨ part = dot then path
      else if part = dotDot then path.bind fun path => if path = [] then none else some path.dropLast
      else path.map (· ++ [part])) (some path) = some (path ++ rest) := by
  induction rest generalizing path with
  | nil => rw [List.foldl_nil, List.append_nil]
  | cons part rest ih =>
    obtain ⟨nonempty, notDot, notDotDot, _⟩ := valid part List.mem_cons_self
    rw [List.foldl_cons, if_neg (not_or.mpr ⟨nonempty, notDot⟩), if_neg notDotDot, Option.map_some,
      ih (fun other member => valid other (List.mem_cons_of_mem _ member)), List.append_assoc,
      List.singleton_append]

theorem resolve_joinPath (valid : ValidPath parts) : resolve (joinPath parts) = some parts := by
  rw [resolve, if_neg (head_joinPath valid), splitPath_joinPath valid, foldl_resolve valid.2]
  rfl

end Paths

section Saved

variable {host : Host} {limits : Limits} {os : List Text → Option String}

/-- What planning and extraction ask of a file that `snapshot_save` does not. -/
structure Fits (limits : Limits) (os : List Text → Option String) (file : File) : Prop where
  size : file.2.length ≤ limits.maxArtifactBytes
  backslash : CodePoint.ofChar '\\' ∉ joinPath file.1
  drive : drivePrefix (joinPath file.1) = false
  written : os file.1 = none

def planned (file : File) : Planned := ⟨joinPath file.1, false, file.2.length⟩

/-- The restore gets through planning and extraction, and leaves just these
files. -/
def Lossless (host : Host) (limits : Limits) (os : List Text → Option String) (files : List File)
    (archive : Archive) : Prop :=
  ∃ disk, restoreFiles host os limits archive = .ok disk ∧
    ∀ path data, disk.get path = some (some data) ↔ (path, data) ∈ files

def plainHost : Host := ⟨id, fun code => 48 ≤ code.val ∧ code.val ≤ 57, fun _ => "", fun _ => ""⟩

def note : Text := .ofString "note"

end Saved

end CodeCalc.Snapshots
