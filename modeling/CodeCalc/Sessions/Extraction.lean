import CodeCalc.Sessions.Snapshot
import Mathlib.Data.Set.Function

/-! Extraction of any archive that planning takes, on file systems that may take two
names for one. -/
namespace CodeCalc.Snapshots
open Lib Errors

section Extraction

variable (host : Host)

def register : Known → List (Text × Bool) → Except String Known
  | known, [] => .ok known
  | known, (name, isDir) :: rest =>
      match tarPathCollision host known name isDir with
      | .error collision => .error collision
      | .ok known => register known rest

def membersOf (archive : Archive) : List Member :=
  archive.filterMap fun entry =>
    match entry with
    | .ok member => if isRoot member.name then none else some member
    | .error _ => none

/-- What extraction opens for writing. -/
def filesOf (archive : Archive) : List File :=
  ((membersOf archive).filter fun member => member.kind ≠ .directory).map fun member =>
    (splitPath member.name, member.data)

def Uses (archive : Archive) : Set Text :=
  {part | ∃ member ∈ membersOf archive, part ∈ splitPath member.name}

end Extraction

section Accepted

variable {host : Host} {limits : Limits}

theorem validPath_of_nameRefusal {member : Member} (named : nameRefusal host member = none) :
    ValidPath (splitPath member.name) := by
  unfold nameRefusal at named
  dsimp only at named
  split at named
  · cases named
  · rename_i formed
    obtain ⟨ended, _⟩ := not_or.mp formed
    split at named
    · cases named
    · split at named
      · cases named
      · rename_i stays
        refine ⟨List.splitOn_ne_nil _ _, fun part inside => ?_⟩
        rw [Bool.not_eq_true, List.any_eq_false] at stays
        have parts := stays part inside
        simp only [Bool.or_eq_true, decide_eq_true_eq, not_or] at parts
        obtain ⟨absent, within⟩ := mem_splitOn inside
        exact ⟨parts.1.1, parts.1.2, parts.2, absent, fun found => ended (within found)⟩

/-- What planning registers for a member. -/
def nodeOf {β : Type} (member : Member) (value : β) : Option β :=
  if decide (member.kind = .directory) then none else some value

def Member.bytes (member : Member) : Nat := if decide (member.kind = .directory) then 0 else member.size

def Member.planned (member : Member) : Planned :=
  ⟨joinPath (splitPath member.name), decide (member.kind = .directory), member.bytes⟩

/-- What a turn of the planning loop has seen of a member it takes. -/
structure Taken (limits : Limits) (plan : Plan) (member : Member) (known : Known) : Prop where
  valid : ValidPath (splitPath member.name)
  size : member.bytes ≤ limits.maxArtifactBytes
  total : member.kind ≠ .directory → plan.totalBytes + member.bytes ≤ extractionByteBudget limits
  registered : plan.known.add (splitPath member.name) (nodeOf member ()) = .ok known

def Plan.take (plan : Plan) (member : Member) (known : Known) : Plan where
  known := known
  members := plan.members ++ [member.planned]
  totalBytes := plan.totalBytes + member.bytes
  memberCount := plan.memberCount + 1

theorem tarPathCollision_eq_ok {known after : Known} {name : Text} {isDir : Bool} :
    tarPathCollision host known name isDir = .ok after ↔
      known.add (splitPath name) (if isDir then none else some ()) = .ok after := by
  unfold tarPathCollision
  split
  · rename_i added
    rw [added, Except.ok.injEq, Except.ok.injEq]
  · rename_i added
    rw [added]
    exact ⟨(fun done => nomatch done), fun done => nomatch done⟩
  · rename_i added
    rw [added]
    exact ⟨(fun done => nomatch done), fun done => nomatch done⟩

theorem planMember_takes {plan after : Plan} {member : Member} (named : isRoot member.name = false)
    (turned : planMember host limits plan member = .ok after) :
    ∃ known, Taken limits plan member known ∧ after = plan.take member known := by
  rw [planMember, named, if_neg Bool.false_ne_true] at turned
  split at turned
  · cases turned
  · split at turned
    · cases turned
    · rename_i fine
      have valid := validPath_of_nameRefusal fine
      dsimp only at turned
      rw [← Member.bytes] at turned
      split at turned
      · cases turned
      · rename_i sized
        split at turned
        · cases turned
        · rename_i within
          split at turned
          · cases turned
          · rename_i known registered
            cases turned
            refine ⟨known, ⟨valid, Nat.not_lt.mp sized, fun kind => ?_, tarPathCollision_eq_ok.mp registered⟩, rfl⟩
            exact Nat.not_lt.mp fun above => within ⟨decide_eq_false kind, above⟩

theorem planFrom_cons {plan after : Plan} {member : Member} {rest : Archive}
    (planned : planFrom host limits plan (.ok member :: rest) = .ok after) :
    isRoot member.name = true ∧ planFrom host limits plan rest = .ok after ∨
      isRoot member.name = false ∧ ∃ known, Taken limits plan member known ∧
        planFrom host limits (plan.take member known) rest = .ok after := by
  rw [planFrom] at planned
  cases root : isRoot member.name with
  | true =>
    rw [planMember, if_pos root] at planned
    exact .inl ⟨rfl, planned⟩
  | false =>
    split at planned
    · cases planned
    · rename_i next turned
      obtain ⟨known, taken, rfl⟩ := planMember_takes root turned
      exact .inr ⟨rfl, known, taken, planned⟩

/-- A member with what it puts into a tree. -/
def itemOf {β : Type} (value : Member → β) (member : Member) : List Text × Option β :=
  (splitPath member.name, nodeOf member (value member))

structure Reads (limits : Limits) (plan after : Plan) (archive : Archive) : Prop where
  readable : ∀ text, .error text ∉ archive
  valid : ∀ member ∈ membersOf archive, ValidPath (splitPath member.name)
  size : ∀ member ∈ membersOf archive, member.bytes ≤ limits.maxArtifactBytes
  planned : after.members = plan.members ++ (membersOf archive).map Member.planned
  total : after.totalBytes = plan.totalBytes + ((membersOf archive).map Member.bytes).sum
  within : plan.totalBytes ≤ extractionByteBudget limits → after.totalBytes ≤ extractionByteBudget limits
  known : Directory.addAll plan.known ((membersOf archive).map (itemOf fun _ => ())) = .ok after.known

theorem membersOf_root {member : Member} (rest : Archive) (root : isRoot member.name = true) :
    membersOf (.ok member :: rest) = membersOf rest := by
  apply List.filterMap_cons_none
  exact if_pos root

theorem membersOf_cons {member : Member} (rest : Archive) (named : isRoot member.name = false) :
    membersOf (.ok member :: rest) = member :: membersOf rest := by
  apply List.filterMap_cons_some
  dsimp only
  rw [named]
  exact if_neg Bool.false_ne_true

theorem Taken.within {plan : Plan} {member : Member} {known : Known} (taken : Taken limits plan member known)
    (before : plan.totalBytes ≤ extractionByteBudget limits) :
    (plan.take member known).totalBytes ≤ extractionByteBudget limits := by
  by_cases kind : member.kind = .directory
  · have none : member.bytes = 0 := if_pos (decide_eq_true kind)
    show plan.totalBytes + member.bytes ≤ _
    rwa [none, Nat.add_zero]
  · exact taken.total kind

theorem planFrom_reads {archive : Archive} {plan after : Plan}
    (planned : planFrom host limits plan archive = .ok after) : Reads limits plan after archive := by
  induction archive generalizing plan with
  | nil =>
    cases planned
    constructor
    case planned => exact (List.append_nil _).symm
    case known => rfl
    all_goals simp [membersOf]
  | cons entry rest ih =>
    cases entry with
    | error text => cases planned
    | ok member =>
      rcases planFrom_cons planned with ⟨root, planned⟩ | ⟨named, known, taken, planned⟩
      · obtain ⟨readable, reads⟩ := ih planned
        constructor
        case readable => exact fun text => by simpa using readable text
        case within => assumption
        all_goals rw [membersOf_root rest root]; assumption
      · have reads := ih planned
        have cons := membersOf_cons rest named
        constructor
        case readable => exact fun text => by simpa using reads.readable text
        case valid => rw [cons]; exact List.forall_mem_cons.mpr ⟨taken.valid, reads.valid⟩
        case size => rw [cons]; exact List.forall_mem_cons.mpr ⟨taken.size, reads.size⟩
        case planned =>
          rw [cons, reads.planned, List.map_cons]
          exact List.append_assoc _ _ _
        case total =>
          rw [cons, reads.total, List.map_cons, List.sum_cons]
          exact Nat.add_assoc _ _ _
        case within => exact fun before => reads.within (taken.within before)
        case known =>
          rw [cons, List.map_cons, Directory.addAll]
          have registered : Directory.add plan.known (itemOf (fun _ => ()) member).1
              (itemOf (fun _ => ()) member).2 = .ok known := taken.registered
          rw [registered]
          exact reads.known

end Accepted

section Written

variable {host : Host} {limits : Limits} {os : List Text → Option String} {fold : Text → Text}

def folded (fold : Text → Text) (member : Member) : List Text × Option (List UInt8) :=
  ((splitPath member.name).map fold, nodeOf member member.data)

theorem joinPath_splitPath (name : Text) : joinPath (splitPath name) = name :=
  List.intercalate_splitOn slash

theorem extractMemberOn_planned {disk : Disk} {member : Member} (valid : ValidPath (splitPath member.name)) :
    extractMemberOn host os fold disk member.planned member =
      match os (splitPath member.name) with
      | some text => .error (extractionFailed (host.plain member.name) text)
      | none =>
          match disk.add (folded fold member).1 (folded fold member).2 with
          | .error _ => .error (extractionFailed (host.plain member.name) "File exists")
          | .ok disk => .ok disk := by
  have name : member.planned.relpath = member.name := joinPath_splitPath _
  have target : resolve member.planned.relpath = some (splitPath member.name) := resolve_joinPath valid
  have agrees : ¬(member.name ≠ member.planned.relpath ∨
      decide (member.kind = .directory) ≠ member.planned.isDir ∨
      (member.planned.isDir = false ∧ member.size ≠ member.planned.size)) := by
    rintro (other | other | ⟨file, other⟩)
    · exact other name.symm
    · exact other rfl
    · apply other
      show member.size = member.bytes
      rw [Member.bytes, show decide (member.kind = .directory) = false from file, if_neg Bool.false_ne_true]
  unfold extractMemberOn
  dsimp only
  rw [if_neg agrees, target, name]
  rfl

theorem extractFromOn_root {disk : Disk} {planned : List Planned} {member : Member} {rest : Archive}
    (root : isRoot member.name = true) :
    extractFromOn host os fold disk planned (.ok member :: rest) =
      extractFromOn host os fold disk planned rest := by
  cases planned with
  | nil => rw [extractFromOn, if_pos root]
  | cons next planned => rw [extractFromOn, if_pos root]

/-- Extraction puts the members into the tree one after the other, unless the
system fails on one of them. -/
theorem extractFromOn_planned {archive : Archive} {disk grown : Disk}
    (readable : ∀ text, .error text ∉ archive)
    (valid : ∀ member ∈ membersOf archive, ValidPath (splitPath member.name))
    (added : Directory.addAll disk ((membersOf archive).map (folded fold)) = .ok grown) :
    extractFromOn host os fold disk ((membersOf archive).map Member.planned) archive = .ok grown ∨
      ∃ member ∈ membersOf archive, ∃ text, os (splitPath member.name) = some text ∧
        extractFromOn host os fold disk ((membersOf archive).map Member.planned) archive =
          .error (extractionFailed (host.plain member.name) text) := by
  induction archive generalizing disk with
  | nil =>
    cases added
    exact .inl rfl
  | cons entry rest ih =>
    have later := fun text member => readable text (List.mem_cons_of_mem _ member)
    cases entry with
    | error text => exact absurd List.mem_cons_self (readable text)
    | ok member =>
      cases root : isRoot member.name with
      | true =>
        rw [membersOf_root rest root] at valid added ⊢
        have onward := ih later valid added
        rwa [extractFromOn_root root]
      | false =>
        rw [membersOf_cons rest root] at valid added ⊢
        rw [List.map_cons, Directory.addAll] at added
        obtain ⟨here, valid⟩ := List.forall_mem_cons.mp valid
        have turn := @extractMemberOn_planned host os fold disk member here
        rw [List.map_cons, extractFromOn, root, if_neg Bool.false_ne_true, turn]
        cases failure : os (splitPath member.name) with
        | some text => exact .inr ⟨member, List.mem_cons_self, text, failure, rfl⟩
        | none =>
          dsimp only
          split at added
          · cases added
          · rename_i next done
            rw [done]
            rcases ih later valid added with whole | ⟨other, inside, failed⟩
            · exact .inl whole
            · exact .inr ⟨other, List.mem_cons_of_mem _ inside, failed⟩

theorem prefix_of_map {names : Set Text} (apart : Set.InjOn fold names) {left right : List Text}
    (inside : ∀ part ∈ left, part ∈ names) (inside' : ∀ part ∈ right, part ∈ names)
    (begins : left.map fold <+: right.map fold) : left <+: right := by
  induction left generalizing right with
  | nil => exact List.nil_prefix
  | cons part rest ih =>
    cases right with
    | nil => exact absurd (List.prefix_nil.mp begins) (List.cons_ne_nil _ _)
    | cons part' rest' =>
      obtain ⟨here, inside⟩ := List.forall_mem_cons.mp inside
      obtain ⟨here', inside'⟩ := List.forall_mem_cons.mp inside'
      obtain ⟨same, begins⟩ := List.cons_prefix_cons.mp begins
      exact List.cons_prefix_cons.mpr ⟨apart here here' same, ih inside inside' begins⟩

/-- What there is room for under its own names there is room for under the
names of the file system, if it tells them apart. -/
theorem clear_folded {names : Set Text} (apart : Set.InjOn fold names) {first second : Member}
    (inside : ∀ part ∈ splitPath first.name, part ∈ names)
    (inside' : ∀ part ∈ splitPath second.name, part ∈ names)
    (clear : Directory.Clear (itemOf (fun _ => ()) first) (itemOf (fun _ => ()) second)) :
    Directory.Clear (folded fold first) (folded fold second) := by
  have kind : ∀ member : Member, (folded fold member).2.isSome → (itemOf (fun _ => ()) member).2.isSome := by
    intro member
    simp only [folded, itemOf, nodeOf]
    split_ifs <;> exact id
  constructor
  · exact fun file begins => clear.1 (kind _ file) (prefix_of_map apart inside inside' begins)
  · exact fun file begins => clear.2 (kind _ file) (prefix_of_map apart inside' inside begins)

structure Sound (host : Host) (limits : Limits) (os : List Text → Option String) (fold : Text → Text)
    (plan : Plan) (archive : Archive) : Prop where
  extracted : (∃ disk, extractFromOn host os fold .empty plan.members archive = .ok disk ∧
      ∀ path data, disk.get path = some (some data) ↔
        (path, data) ∈ (filesOf archive).map fun file => (file.1.map fold, file.2)) ∨
    ∃ target name text, os target = some text ∧
      extractFromOn host os fold .empty plan.members archive = .error (extractionFailed name text)
  inside : ∀ planned ∈ plan.members, ∃ target, resolve planned.relpath = some target ∧ ValidPath target
  total : ((filesOf archive).map fun file => file.2.length).sum ≤ extractionByteBudget limits
  each : ∀ file ∈ filesOf archive, file.2.length ≤ limits.maxArtifactBytes

theorem mem_filesOf {archive : Archive} {file : File} (member : file ∈ filesOf archive) :
    ∃ entry ∈ membersOf archive, entry.kind ≠ .directory ∧ file = (splitPath entry.name, entry.data) := by
  obtain ⟨entry, inside, rfl⟩ := List.mem_map.mp member
  obtain ⟨inside, kind⟩ := List.mem_filter.mp inside
  exact ⟨entry, inside, of_decide_eq_true kind, rfl⟩

theorem mem_of_mem_membersOf {archive : Archive} {member : Member} (inside : member ∈ membersOf archive) :
    .ok member ∈ archive := by
  obtain ⟨entry, found, same⟩ := List.mem_filterMap.mp inside
  cases entry with
  | error text => cases same
  | ok other =>
    dsimp only at same
    split_ifs at same
    cases same
    exact found

theorem sum_filesOf_le {members : List Member} (sized : ∀ member ∈ members, member.data.length ≤ member.size) :
    (((members.filter fun member => member.kind ≠ .directory).map fun member =>
      (splitPath member.name, member.data)).map fun file => file.2.length).sum ≤
        (members.map Member.bytes).sum := by
  induction members with
  | nil => exact Nat.le_refl _
  | cons member rest ih =>
    obtain ⟨here, later⟩ := List.forall_mem_cons.mp sized
    have onward := ih later
    rw [List.map_cons, List.sum_cons]
    by_cases kind : member.kind = .directory
    · rw [List.filter_cons_of_neg (by simpa using kind)]
      omega
    · rw [List.filter_cons_of_pos (by simpa using kind), List.map_cons, List.map_cons, List.sum_cons]
      have bytes : member.bytes = member.size := if_neg (by simpa using kind)
      dsimp only
      omega

theorem folded_file {archive : Archive} {path : List Text} {data : List UInt8} :
    (path, some data) ∈ (membersOf archive).map (folded fold) ↔
      (path, data) ∈ (filesOf archive).map fun file => (file.1.map fold, file.2) := by
  constructor
  · intro found
    obtain ⟨member, inside, same⟩ := List.mem_map.mp found
    simp only [folded, nodeOf, Prod.mk.injEq, ite_eq_iff, decide_eq_true_eq, reduceCtorEq, and_false, false_or,
      Option.some.injEq] at same
    obtain ⟨rfl, kind, rfl⟩ := same
    refine List.mem_map.mpr ⟨(splitPath member.name, member.data), List.mem_map.mpr ⟨member, ?_, rfl⟩, rfl⟩
    exact List.mem_filter.mpr ⟨inside, decide_eq_true kind⟩
  · intro found
    obtain ⟨file, written, same⟩ := List.mem_map.mp found
    obtain ⟨member, inside, kind, rfl⟩ := mem_filesOf written
    cases same
    exact List.mem_map.mpr ⟨member, inside, by rw [folded, nodeOf, decide_eq_false kind]; rfl⟩

theorem sound_of_planned {archive : Archive} {plan : Plan}
    (planned : planTarExtraction host limits archive = .ok plan)
    (sized : ∀ member, .ok member ∈ archive → member.data.length ≤ member.size)
    (apart : Set.InjOn fold (Uses archive)) : Sound host limits os fold plan archive := by
  have reads := planFrom_reads planned
  have members : plan.members = (membersOf archive).map Member.planned := reads.planned
  have named : ∀ item ∈ (membersOf archive).map (itemOf fun _ => ()), item.1 ≠ [] := by
    intro item given
    obtain ⟨member, inside, rfl⟩ := List.mem_map.mp given
    exact (reads.valid member inside).1
  have clear : ((membersOf archive).map (folded fold)).Pairwise Directory.Clear := by
    have clear := (Directory.addAll_iff named).mp ⟨_, reads.known⟩
    rw [List.pairwise_map] at clear ⊢
    exact clear.imp_of_mem fun first second => clear_folded apart
      (fun part inside => ⟨_, first, inside⟩) (fun part inside => ⟨_, second, inside⟩)
  obtain ⟨disk, added, grown⟩ := Directory.grown_empty.addAll clear (by
    intro item given
    obtain ⟨member, inside, rfl⟩ := List.mem_map.mp given
    exact fun none => (reads.valid member inside).1 (List.map_eq_nil_iff.mp none))
  constructor
  case extracted =>
    rw [members]
    rcases extractFromOn_planned reads.readable reads.valid added with whole | ⟨member, _, text, failed, same⟩
    · exact .inl ⟨disk, whole, fun path data => (grown.file path data).trans folded_file⟩
    · exact .inr ⟨_, _, text, failed, same⟩
  case inside =>
    intro planned given
    rw [members] at given
    obtain ⟨member, inside, rfl⟩ := List.mem_map.mp given
    exact ⟨_, resolve_joinPath (reads.valid member inside), reads.valid member inside⟩
  case total =>
    have whole := reads.within (Nat.zero_le _)
    rw [reads.total] at whole
    apply Nat.le_trans (sum_filesOf_le fun member inside => sized member (mem_of_mem_membersOf inside))
    rwa [show ({} : Plan).totalBytes = 0 from rfl, Nat.zero_add] at whole
  case each =>
    intro file written
    obtain ⟨member, inside, kind, rfl⟩ := mem_filesOf written
    have bytes : member.bytes = member.size := if_neg (by simpa using kind)
    have size := reads.size member inside
    have length := sized member (mem_of_mem_membersOf inside)
    dsimp only
    omega

/-- The member of a name and a kind as an item of a tree. -/
def entryOf (member : Text × Bool) : List Text × Option Unit :=
  (splitPath member.1, if member.2 then none else some ())

theorem register_eq_ok {members : List (Text × Bool)} {known after : Known} :
    register host known members = .ok after ↔ Directory.addAll known (members.map entryOf) = .ok after := by
  induction members generalizing known with
  | nil => rw [register, List.map_nil, Directory.addAll, Except.ok.injEq, Except.ok.injEq]
  | cons member rest ih =>
    rw [register, List.map_cons, Directory.addAll]
    cases turned : tarPathCollision host known member.1 member.2 with
    | ok next =>
      have added : Directory.add known (entryOf member).1 (entryOf member).2 = .ok next :=
        tarPathCollision_eq_ok.mp turned
      rw [added]
      exact ih
    | error collision =>
      cases added : Directory.add known (entryOf member).1 (entryOf member).2 with
      | error clash =>
        constructor
        · intro same
          cases same
        · intro same
          cases same
      | ok next =>
        rw [tarPathCollision_eq_ok.mpr added] at turned
        cases turned

/-- The members are entries of one tree.  Two directories of one name are one
entry. -/
def Entries (layout : Directory.Layout Text) (members : List (Text × Bool)) : Prop :=
  (∀ member ∈ members, layout.isDir (splitPath member.1) = some member.2) ∧
    members.Pairwise fun left right => left.1 = right.1 → left.2 = true ∧ right.2 = true

theorem held_iff_entries {layout : Directory.Layout Text} {members : List (Text × Bool)} :
    Directory.Held layout (members.map entryOf) ↔ Entries layout members := by
  have kind : ∀ member, (entryOf member).2.isNone = member.2 := by
    rintro ⟨name, isDir⟩
    cases isDir <;> rfl
  have directory : ∀ member, (entryOf member).2 = none ↔ member.2 = true := by
    intro member
    rw [← kind, Option.isNone_iff_eq_none]
  have name : ∀ left right : Text × Bool, (entryOf left).1 = (entryOf right).1 ↔ left.1 = right.1 := by
    intro left right
    constructor
    · intro same
      have joined := congrArg joinPath same
      rwa [entryOf, entryOf, joinPath_splitPath, joinPath_splitPath] at joined
    · exact congrArg splitPath
  rw [Directory.Held, Entries, List.forall_mem_map, List.pairwise_map]
  simp only [kind, directory, name]
  exact Iff.rfl

theorem register_iff {members : List (Text × Bool)} :
    (∃ known, register host .empty members = .ok known) ↔ ∃ layout, Entries layout members := by
  have named : ∀ item ∈ members.map entryOf, item.1 ≠ [] := by
    intro item given
    obtain ⟨member, _, rfl⟩ := List.mem_map.mp given
    exact List.splitOn_ne_nil _ _
  simp only [register_eq_ok]
  rw [Directory.addAll_iff named, Directory.pairwise_clear_iff named]
  simp only [held_iff_entries]

/-- An archive that planning takes is extracted as it was planned, and what
`_tar_path_collision` takes is what one tree can hold. -/
theorem plan_sound (host : Host) :
    (∀ limits os fold archive plan, planTarExtraction host limits archive = .ok plan →
      (∀ member, .ok member ∈ archive → member.data.length ≤ member.size) →
      Set.InjOn fold (Uses archive) → Sound host limits os fold plan archive) ∧
    ∀ members, (∃ known, register host .empty members = .ok known) ↔ ∃ layout, Entries layout members :=
  ⟨fun _ _ _ _ _ => sound_of_planned, fun _ => register_iff⟩

/-- The file `note` under the directory `a`. -/
def noteArchive : Archive :=
  [.ok ⟨.ofString "a", .directory, 0, []⟩, .ok ⟨.ofString "a/note", .regular, 2, [1, 2]⟩]

def notePlan : Plan where
  known := ⟨[([.ofString "a"], none), ([.ofString "a", note], some ())], by decide⟩
  members := [⟨.ofString "a", true, 0⟩, ⟨.ofString "a/note", false, 2⟩]
  totalBytes := 2
  memberCount := 2

theorem plan_sound_note : Sound plainHost ⟨2, 2, 2, 10⟩ (fun _ => none) id notePlan noteArchive := by
  apply (plan_sound plainHost).1 _ _ _ _ _ rfl
  · intro member inside
    rcases List.mem_cons.mp inside with same | inside
    · cases same
      decide
    · cases List.mem_singleton.mp inside
      decide
  · exact Set.injOn_id _

/-- A file system that does not tell the cases of a letter apart. -/
def caseless (name : Text) : Text :=
  name.map fun code => if 65 ≤ code.val ∧ code.val ≤ 90 then code + 32 else code

def bothCases : Archive :=
  [.ok ⟨.ofString "A", .regular, 0, []⟩, .ok ⟨.ofString "a", .regular, 0, []⟩]

/-- A directory is taken a second time, and `a` beside `A`. -/
theorem plan_not_sound :
    (¬∀ members : List (Text × Bool), (∃ known, register plainHost .empty members = .ok known) ↔
      ∃ layout : Directory.Layout Text, (∀ member ∈ members, layout.isDir (splitPath member.1) = some member.2) ∧
        members.Pairwise fun left right => left.1 ≠ right.1) ∧
    ¬∀ (fold : Text → Text) (limits : Limits) (archive : Archive) (plan : Plan),
      planTarExtraction plainHost limits archive = .ok plan →
      ∃ disk, extractFromOn plainHost (fun _ => none) fold .empty plan.members archive = .ok disk := by
  constructor
  · intro distinct
    obtain ⟨layout, _, apart⟩ := (distinct [(.ofString "a", true), (.ofString "a", true)]).mp ⟨_, rfl⟩
    exact (List.pairwise_cons.mp apart).1 _ List.mem_cons_self rfl
  · intro extracted
    obtain ⟨disk, whole⟩ := extracted caseless ⟨2, 2, 2, 10⟩ bothCases _ rfl
    cases whole

end Written

end CodeCalc.Snapshots
