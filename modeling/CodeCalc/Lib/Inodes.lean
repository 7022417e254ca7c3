import Mathlib.Data.List.Basic
import Mathlib.Logic.Function.Basic
import Mathlib.Logic.Relation

/-! A file system as numbered nodes whose directories name other nodes, and the
changes a process makes to it.  A directory is the same node whatever the names
are that lead to it: who has it open keeps it while others rename, replace or
remove the names. -/
namespace CodeCalc.Lib

inductive Node (Name : Type) where
  | file
  | symlink (target : Name)
  | directory (entries : Name → Option Nat)
  /-- A directory that is gone: nothing can be put into it any more. -/
  | removed

abbrev Inodes (Name : Type) : Type := Nat → Option (Node Name)

namespace Inodes

variable {Name : Type}

def entry (fs : Inodes Name) (dir : Nat) (name : Name) : Option Nat :=
  match fs dir with
  | some (.directory entries) => entries name
  | _ => none

def IsDirectory (fs : Inodes Name) (inode : Nat) : Prop := ∃ entries, fs inode = some (.directory entries)

def Empty (fs : Inodes Name) (inode : Nat) : Prop := ∀ name, fs.entry inode name = none

def Leads (fs : Inodes Name) (dir inode : Nat) : Prop := ∃ name, fs.entry dir name = some inode

/-- Reached from the root by entries. -/
def Inside (fs : Inodes Name) (root : Nat) : Nat → Prop := Relation.ReflTransGen fs.Leads root

inductive Change (Name : Type) where
  | create (dir : Nat) (name : Name) (inode : Nat) (node : Node Name)
  | link (dir : Nat) (name : Name) (inode : Nat)
  /-- `unlink` and `rmdir`. -/
  | remove (dir : Nat) (name : Name)
  | rename (dir : Nat) (name : Name) (dir' : Nat) (name' : Name)
  | exchange (dir : Nat) (name : Name) (dir' : Nat) (name' : Name)

/-- When the kernel makes a change.  It moves no directory under itself, and
what another takes the place of has nothing in it. -/
def Allowed (fs : Inodes Name) : Change Name → Prop
  | .create dir name inode node => fs.IsDirectory dir ∧ fs.entry dir name = none ∧ fs inode = none ∧
      ∀ entries, node = .directory entries → ∀ name, entries name = none
  | .link dir name inode => fs.IsDirectory dir ∧ fs.entry dir name = none ∧ ¬fs.IsDirectory inode
  | .remove dir name => ∃ inode, fs.entry dir name = some inode ∧ fs.Empty inode
  | .rename dir name dir' name' => fs.IsDirectory dir' ∧ ∃ inode, fs.entry dir name = some inode ∧
      ¬fs.Inside inode dir' ∧ ∀ target, fs.entry dir' name' = some target → target ≠ inode ∧ fs.Empty target
  | .exchange dir name dir' name' => ∃ inode inode', fs.entry dir name = some inode ∧
      fs.entry dir' name' = some inode' ∧ ¬fs.Inside inode dir' ∧ ¬fs.Inside inode' dir

def bury (fs : Inodes Name) : Option Nat → Inodes Name
  | none => fs
  | some inode =>
      match fs inode with
      | some (.directory _) => Function.update fs inode (some .removed)
      | _ => fs

variable [DecidableEq Name]

def assign (fs : Inodes Name) (dir : Nat) (name : Name) (inode : Option Nat) : Inodes Name :=
  match fs dir with
  | some (.directory entries) =>
      Function.update fs dir (some (.directory (Function.update entries name inode)))
  | _ => fs

def after (fs : Inodes Name) : Change Name → Inodes Name
  | .create dir name inode node => assign (Function.update fs inode (some node)) dir name (some inode)
  | .link dir name inode => fs.assign dir name (some inode)
  | .remove dir name => (fs.assign dir name none).bury (fs.entry dir name)
  | .rename dir name dir' name' =>
      ((fs.assign dir name none).assign dir' name' (fs.entry dir name)).bury (fs.entry dir' name')
  | .exchange dir name dir' name' =>
      (fs.assign dir name (fs.entry dir' name')).assign dir' name' (fs.entry dir name)

section Entries

variable {fs : Inodes Name} {dir other inode : Nat} {name name' : Name}

omit [DecidableEq Name] in
theorem isDirectory_of_entry (found : fs.entry dir name = some inode) : fs.IsDirectory dir := by
  unfold entry at found
  split at found
  · rename_i entries here
    exact ⟨entries, here⟩
  · cases found

theorem assign_other {value : Option Nat} (different : other ≠ dir) :
    fs.assign dir name value other = fs other := by
  unfold assign
  cases fs dir with
  | none => rfl
  | some node =>
    cases node with
    | directory entries => exact Function.update_of_ne different _ _
    | file => rfl
    | symlink target => rfl
    | removed => rfl

theorem assign_removed {value : Option Nat} (gone : fs dir = some .removed) :
    fs.assign dir name value = fs := by
  simp only [assign, gone]

theorem entry_assign (there : fs.IsDirectory dir) (value : Option Nat) :
    (fs.assign dir name value).entry other name' =
      if other = dir ∧ name' = name then value else fs.entry other name' := by
  obtain ⟨entries, here⟩ := there
  by_cases same : other = dir
  · subst same
    simp only [assign, entry, here, Function.update_self, true_and, Function.update_apply]
  · simp only [same, false_and, if_false, entry, assign_other same]

theorem isDirectory_assign {value : Option Nat} :
    (fs.assign dir name value).IsDirectory other ↔ fs.IsDirectory other := by
  by_cases same : other = dir
  · subst same
    cases here : fs other with
    | none => simp only [IsDirectory, assign, here]
    | some node => cases node <;> simp [IsDirectory, assign, here]
  · simp only [IsDirectory, assign_other same]

theorem removed_assign {value : Option Nat} (gone : fs other = some .removed) :
    fs.assign dir name value other = some .removed := by
  by_cases same : other = dir
  · subst same
    rw [assign_removed gone, gone]
  · rw [assign_other same, gone]

omit [DecidableEq Name] in
theorem bury_other {target : Option Nat} (different : target ≠ some other) :
    fs.bury target other = fs other := by
  cases target with
  | none => rfl
  | some inode =>
    cases here : fs inode with
    | none => simp only [bury, here]
    | some node =>
      cases node with
      | directory entries =>
        simp only [bury, here]
        exact Function.update_of_ne (fun same => different (congrArg some same.symm)) _ _
      | file => simp only [bury, here]
      | symlink target => simp only [bury, here]
      | removed => simp only [bury, here]

omit [DecidableEq Name] in
theorem entry_bury (target : Option Nat) :
    (fs.bury target).entry other name' = if target = some other then none else fs.entry other name' := by
  by_cases same : target = some other
  · subst same
    rw [if_pos rfl]
    cases here : fs other with
    | none => simp only [entry, bury, here]
    | some node => cases node <;> simp [entry, bury, here]
  · rw [if_neg same, entry, bury_other same, entry]

omit [DecidableEq Name] in
theorem removed_bury {target : Option Nat} (gone : fs other = some .removed) :
    fs.bury target other = some .removed := by
  by_cases same : target = some other
  · subst same
    simp only [bury, gone]
  · rw [bury_other same, gone]

omit [DecidableEq Name] in
theorem bury_directory (there : fs.IsDirectory inode) : fs.bury (some inode) inode = some .removed := by
  obtain ⟨entries, here⟩ := there
  simp only [bury, here, Function.update_self]

theorem removed_after {change : Change Name} (allowed : fs.Allowed change)
    (gone : fs other = some .removed) : fs.after change other = some .removed := by
  cases change with
  | create dir name inode node =>
    apply removed_assign
    rw [Function.update_of_ne, gone]
    rintro rfl
    rw [allowed.2.2.1] at gone
    cases gone
  | link dir name inode => exact removed_assign gone
  | remove dir name => exact removed_bury (removed_assign gone)
  | rename dir name dir' name' => exact removed_bury (removed_assign (removed_assign gone))
  | exchange dir name dir' name' => exact removed_assign (removed_assign gone)

end Entries

section Reach

variable {fs : Inodes Name} {root : Nat}

omit [DecidableEq Name] in
theorem inside_mono {fs' : Inodes Name} (kept : ∀ dir inode, fs.Leads dir inode → fs'.Leads dir inode)
    {inode : Nat} (inside : fs.Inside root inode) : fs'.Inside root inode :=
  Relation.ReflTransGen.mono kept _ _ inside

/-- Every directory inside is inside afterwards, unless it is gone. -/
def Stays (root : Nat) (fs fs' : Inodes Name) : Prop :=
  ∀ dir, fs.IsDirectory dir → fs.Inside root dir → fs'.Inside root dir ∨ fs' dir = some .removed

def Within (fs : Inodes Name) (root : Nat) : Change Name → Prop
  | .rename _ _ dir' _ => fs.Inside root dir'
  | .exchange dir _ dir' _ => fs.Inside root dir ∧ fs.Inside root dir'
  | _ => True

theorem leads_assign_free {dir : Nat} {name : Name} {value : Option Nat} (there : fs.IsDirectory dir)
    (free : fs.entry dir name = none) {other inode : Nat} (leads : fs.Leads other inode) :
    (fs.assign dir name value).Leads other inode := by
  obtain ⟨name', found⟩ := leads
  refine ⟨name', ?_⟩
  rw [entry_assign there, if_neg]
  · exact found
  · rintro ⟨rfl, rfl⟩
    rw [free] at found
    cases found

theorem stays_create {dir inode : Nat} {name : Name} {node : Node Name}
    (allowed : fs.Allowed (.create dir name inode node)) :
    Stays root fs (fs.after (.create dir name inode node)) := by
  obtain ⟨there, free, fresh, empty⟩ := allowed
  have kept : ∀ other, other ≠ inode → Function.update fs inode (some node) other = fs other :=
    fun other different => Function.update_of_ne different _ _
  have apart : dir ≠ inode := by
    rintro rfl
    obtain ⟨entries, here⟩ := there
    rw [fresh] at here
    cases here
  intro other _ inside
  refine .inl (inside_mono (fun first second leads => ?_) inside)
  have old : first ≠ inode := by
    rintro rfl
    obtain ⟨name', found⟩ := leads
    obtain ⟨entries, here⟩ := isDirectory_of_entry found
    rw [fresh] at here
    cases here
  apply leads_assign_free
  · exact there.imp fun entries here => (kept dir apart).trans here
  · rw [entry, kept dir apart]
    exact free
  · obtain ⟨name', found⟩ := leads
    refine ⟨name', ?_⟩
    rw [entry, kept first old]
    exact found

theorem stays_remove {dir : Nat} {name : Name} (allowed : fs.Allowed (.remove dir name)) :
    Stays root fs (fs.after (.remove dir name)) := by
  obtain ⟨inode, found, empty⟩ := allowed
  have there := isDirectory_of_entry found
  have edges : ∀ other name', (fs.after (.remove dir name)).entry other name' =
      if other = inode ∨ other = dir ∧ name' = name then none else fs.entry other name' := by
    intro other name'
    rw [after, entry_bury, entry_assign there, found]
    by_cases same : other = inode
    · simp only [same, if_true, true_or]
    · simp only [Option.some.injEq, Ne.symm same, same, if_false, false_or]
  have reached : ∀ other, fs.Inside root other →
      (fs.after (.remove dir name)).Inside root other ∨ other = inode := by
    intro other inside
    induction inside with
    | refl => exact .inl .refl
    | @tail first second _ leads ih =>
      obtain ⟨name', leads⟩ := leads
      have full : first ≠ inode := by
        rintro rfl
        rw [empty] at leads
        cases leads
      by_cases here : first = dir ∧ name' = name
      · obtain ⟨rfl, rfl⟩ := here
        rw [found] at leads
        exact .inr (Option.some.inj leads).symm
      · refine .inl ((ih.resolve_right full).tail ⟨name', ?_⟩)
        rw [edges, if_neg (not_or.mpr ⟨full, here⟩), leads]
  intro other isDir inside
  refine (reached other inside).imp_right ?_
  rintro rfl
  rw [after, found]
  exact bury_directory (isDirectory_assign.mpr isDir)

theorem stays_rename {dir dir' : Nat} {name name' : Name} (allowed : fs.Allowed (.rename dir name dir' name'))
    (within : fs.Inside root dir') : Stays root fs (fs.after (.rename dir name dir' name')) := by
  obtain ⟨there, inode, found, outside, free⟩ := allowed
  have source := isDirectory_of_entry found
  have edges : ∀ other key, (fs.after (.rename dir name dir' name')).entry other key =
      if fs.entry dir' name' = some other then none
      else if other = dir' ∧ key = name' then some inode
      else if other = dir ∧ key = name then none else fs.entry other key := by
    intro other key
    rw [after, entry_bury, entry_assign (isDirectory_assign.mpr there), entry_assign source, found]
  have full : ∀ {other key next}, fs.entry other key = some next → fs.entry dir' name' ≠ some other := by
    intro other key next leads taken
    rw [(free other taken).2 key] at leads
    cases leads
  have arrives : (fs.after (.rename dir name dir' name')).Leads dir' inode := by
    refine ⟨name', ?_⟩
    rw [edges, if_neg fun taken => full taken taken, if_pos ⟨rfl, rfl⟩]
  -- What is not under the node that moves is reached the way it was.
  have apart : ∀ other, fs.Inside root other → ¬fs.Inside inode other → fs.entry dir' name' ≠ some other →
      (fs.after (.rename dir name dir' name')).Inside root other := by
    intro other inside
    induction inside with
    | refl => exact fun _ _ => .refl
    | @tail first second _ leads ih =>
      intro below kept
      obtain ⟨key, leads⟩ := leads
      refine (ih (fun under => below (under.tail ⟨key, leads⟩)) (full leads)).tail ⟨key, ?_⟩
      rw [edges, if_neg (full leads), if_neg, if_neg, leads]
      · rintro ⟨rfl, rfl⟩
        rw [found] at leads
        cases leads
        exact below .refl
      · rintro ⟨rfl, rfl⟩
        exact kept leads
  have target : fs.entry dir' name' ≠ some dir' := fun taken => full taken taken
  have arrived := (apart dir' within outside target).tail arrives
  have reached : ∀ other, fs.Inside root other →
      (fs.after (.rename dir name dir' name')).Inside root other ∨ fs.entry dir' name' = some other := by
    intro other inside
    induction inside with
    | refl => exact .inl .refl
    | @tail first second _ leads ih =>
      obtain ⟨key, leads⟩ := leads
      by_cases moved : first = dir ∧ key = name
      · obtain ⟨rfl, rfl⟩ := moved
        rw [found] at leads
        cases leads
        exact .inl arrived
      · by_cases taken : first = dir' ∧ key = name'
        · obtain ⟨rfl, rfl⟩ := taken
          exact .inr leads
        · refine .inl ((ih.resolve_right (full leads)).tail ⟨key, ?_⟩)
          rw [edges, if_neg (full leads), if_neg taken, if_neg moved, leads]
  intro other isDir inside
  refine (reached other inside).imp_right fun taken => ?_
  rw [after, taken]
  exact bury_directory (isDirectory_assign.mpr (isDirectory_assign.mpr isDir))

/-- The edges that two names lose when they change places. -/
def Swaps (fs fs' : Inodes Name) (dir inode dir' inode' : Nat) : Prop :=
  fs'.Leads dir inode' ∧ ∀ node next, fs.Leads node next →
    fs'.Leads node next ∨ node = dir ∧ next = inode ∨ node = dir' ∧ next = inode'

omit [DecidableEq Name] in
theorem Swaps.across {fs' : Inodes Name} {dir inode dir' inode' : Nat} (swaps : Swaps fs fs' dir inode dir' inode')
    (reached : fs'.Inside root dir) {other : Nat} (inside : fs.Inside root other)
    (apart : ¬fs.Inside inode other) : fs'.Inside root other := by
  induction inside with
  | refl => exact .refl
  | tail _ leads ih =>
    have before := ih fun under => apart (under.tail leads)
    rcases swaps.2 _ _ leads with kept | ⟨_, rfl⟩ | ⟨_, rfl⟩
    · exact before.tail kept
    · exact absurd .refl apart
    · exact reached.tail swaps.1

omit [DecidableEq Name] in
theorem Swaps.either {fs' : Inodes Name} {dir inode dir' inode' : Nat} (swaps : Swaps fs fs' dir inode dir' inode')
    {other : Nat} (inside : fs.Inside root other) :
    fs'.Inside root other ∨ fs'.Inside root dir ∨ fs'.Inside root dir' := by
  induction inside with
  | refl => exact .inl .refl
  | tail _ leads ih =>
    rcases ih with before | found
    · rcases swaps.2 _ _ leads with kept | ⟨rfl, _⟩ | ⟨rfl, _⟩
      · exact .inl (before.tail kept)
      · exact .inr (.inl before)
      · exact .inr (.inr before)
    · exact .inr found

omit [DecidableEq Name] in
theorem Swaps.inside {fs' : Inodes Name} {dir inode dir' inode' : Nat} (swaps : Swaps fs fs' dir inode dir' inode')
    (swaps' : Swaps fs fs' dir' inode' dir inode) (outside : ¬fs.Inside inode dir')
    (outside' : ¬fs.Inside inode' dir) (within : fs.Inside root dir) (within' : fs.Inside root dir')
    {other : Nat} (inside : fs.Inside root other) : fs'.Inside root other := by
  have both : fs'.Inside root dir ∧ fs'.Inside root dir' := by
    rcases swaps.either within with here | here | here
    · exact ⟨here, swaps.across here within' outside⟩
    · exact ⟨here, swaps.across here within' outside⟩
    · exact ⟨swaps'.across here within outside', here⟩
  induction inside with
  | refl => exact .refl
  | tail _ leads ih =>
    rcases swaps.2 _ _ leads with kept | ⟨_, rfl⟩ | ⟨_, rfl⟩
    · exact ih.tail kept
    · exact both.2.tail swaps'.1
    · exact both.1.tail swaps.1

theorem stays_exchange {dir dir' : Nat} {name name' : Name}
    (allowed : fs.Allowed (.exchange dir name dir' name'))
    (within : fs.Inside root dir ∧ fs.Inside root dir') :
    Stays root fs (fs.after (.exchange dir name dir' name')) := by
  obtain ⟨inode, inode', found, found', outside, outside'⟩ := allowed
  have source := isDirectory_of_entry found
  have source' := isDirectory_of_entry found'
  have edges : ∀ other key, (fs.after (.exchange dir name dir' name')).entry other key =
      if other = dir' ∧ key = name' then some inode
      else if other = dir ∧ key = name then some inode' else fs.entry other key := by
    intro other key
    rw [after, entry_assign (isDirectory_assign.mpr source'), entry_assign source, found, found']
  generalize fs.after (.exchange dir name dir' name') = fs' at edges
  have first : fs'.Leads dir inode' := by
    refine ⟨name, ?_⟩
    rw [edges]
    by_cases same : dir = dir' ∧ name = name'
    · obtain ⟨rfl, rfl⟩ := same
      rw [if_pos ⟨rfl, rfl⟩, ← found, found']
    · rw [if_neg same, if_pos ⟨rfl, rfl⟩]
  have second : fs'.Leads dir' inode := ⟨name', by rw [edges, if_pos ⟨rfl, rfl⟩]⟩
  have others : ∀ node next, fs.Leads node next → fs'.Leads node next ∨
      node = dir ∧ next = inode ∨ node = dir' ∧ next = inode' := by
    rintro node next ⟨key, leads⟩
    by_cases there : node = dir' ∧ key = name'
    · obtain ⟨rfl, rfl⟩ := there
      rw [found'] at leads
      exact .inr (.inr ⟨rfl, (Option.some.inj leads).symm⟩)
    · by_cases here : node = dir ∧ key = name
      · obtain ⟨rfl, rfl⟩ := here
        rw [found] at leads
        exact .inr (.inl ⟨rfl, (Option.some.inj leads).symm⟩)
      · exact .inl ⟨key, by rw [edges, if_neg there, if_neg here, leads]⟩
  have swaps : Swaps fs fs' dir inode dir' inode' := ⟨first, others⟩
  have swaps' : Swaps fs fs' dir' inode' dir inode :=
    ⟨second, fun node next leads => (others node next leads).imp_right Or.symm⟩
  exact fun other _ inside => .inl (swaps.inside swaps' outside outside' within.1 within.2 inside)

/-- A change that moves nothing to a place outside takes no directory out. -/
theorem stays_after {change : Change Name} (allowed : fs.Allowed change) (within : fs.Within root change) :
    Stays root fs (fs.after change) := by
  cases change with
  | create dir name inode node => exact stays_create allowed
  | link dir name inode =>
    exact fun other _ inside => .inl (inside_mono (fun _ _ => leads_assign_free allowed.1 allowed.2.1) inside)
  | remove dir name => exact stays_remove allowed
  | rename dir name dir' name' => exact stays_rename allowed within
  | exchange dir name dir' name' => exact stays_exchange allowed within

/-- A change by a process, which takes no directory out. -/
def Turn (root : Nat) (fs fs' : Inodes Name) : Prop :=
  ∃ change, fs.Allowed change ∧ fs' = fs.after change ∧ Stays root fs fs'

theorem Turn.of_within {change : Change Name} (allowed : fs.Allowed change)
    (within : fs.Within root change) : Turn root fs (fs.after change) :=
  ⟨change, allowed, rfl, stays_after allowed within⟩

theorem isDirectory_after {change : Change Name} (allowed : fs.Allowed change) {dir : Nat}
    (there : fs.IsDirectory dir) : (fs.after change).IsDirectory dir ∨ fs.after change dir = some .removed := by
  have buried : ∀ (fs : Inodes Name) target, fs.IsDirectory dir →
      (fs.bury target).IsDirectory dir ∨ fs.bury target dir = some .removed := by
    intro fs target there
    by_cases same : target = some dir
    · rw [same]
      exact .inr (bury_directory there)
    · exact .inl (there.imp fun entries here => (bury_other same).trans here)
  cases change with
  | create dir' name inode node =>
    refine .inl (isDirectory_assign.mpr (there.imp fun entries here => ?_))
    rw [Function.update_of_ne, here]
    rintro rfl
    rw [allowed.2.2.1] at here
    cases here
  | link dir' name inode => exact .inl (isDirectory_assign.mpr there)
  | remove dir' name => exact buried _ _ (isDirectory_assign.mpr there)
  | rename dir' name dir'' name' => exact buried _ _ (isDirectory_assign.mpr (isDirectory_assign.mpr there))
  | exchange dir' name dir'' name' => exact .inl (isDirectory_assign.mpr (isDirectory_assign.mpr there))

theorem held_turns {fs' : Inodes Name} (turns : Relation.ReflTransGen (Turn root) fs fs') {dir : Nat}
    (there : fs.IsDirectory dir) (inside : fs.Inside root dir) :
    fs'.IsDirectory dir ∧ fs'.Inside root dir ∨ fs' dir = some .removed := by
  induction turns with
  | refl => exact .inl ⟨there, inside⟩
  | tail _ turn ih =>
    obtain ⟨change, allowed, rfl, stays⟩ := turn
    rcases ih with ⟨there, inside⟩ | gone
    · rcases isDirectory_after allowed there with there' | gone
      · exact (stays dir there inside).imp_left fun inside => ⟨there', inside⟩
      · exact .inr gone
    · exact .inr (removed_after allowed gone)

end Reach

end Inodes

end CodeCalc.Lib
