import CodeCalc.Lib.Inodes
import CodeCalc.Sessions.Paths

/-! `_unlink_pinned`: one call of the kernel after the other, between which the
code of the session runs.  Each call has a directory in hand that an earlier one
opened. -/
namespace CodeCalc.Files
open Lib Errors Snapshots

/-- What `lstat` tells of an entry. -/
inductive FileKind where
  | file
  | symlink
  | directory
  deriving DecidableEq

/-- The calls of a kernel with states `W` whose open directories are `D`. -/
structure Kernel (W D : Type) where
  /-- The workspace itself, with `O_DIRECTORY | O_NOFOLLOW`. -/
  root : W → Except String D
  /-- With `O_DIRECTORY | O_NOFOLLOW`. -/
  openat : W → D → Text → Except String D
  lstat : W → D → Text → Except String FileKind
  unlink : W → D → Text → Except String W

/-- The entry that was removed, and what that leaves. -/
structure Removal (W D : Type) where
  dir : D
  name : Text
  stat : FileKind
  after : W

section Walk

variable {W D : Type} (kernel : Kernel W D) (host : Host) (found : Nat → W)

def noSuchFile (display : Text) : Fields :=
  errorResult .validation ("no such file: " ++ host.plain display) []

/-- The hops of the walk.  Its call number `n` finds `found n`. -/
def hop (display : Text) : Nat → D → List Text → Except Fields (Nat × D)
  | call, dir, [] => .ok (call, dir)
  | call, dir, component :: rest =>
      match kernel.openat (found call) dir component with
      | .error _ => .error (noSuchFile host display)
      | .ok next => hop display (call + 1) next rest

def unlinkPinned (parts : List Text) (display : Text) : Except Fields (Removal W D) :=
  match kernel.root (found 0) with
  | .error _ => .error (noSuchFile host display)
  | .ok root =>
      match hop kernel host found display 1 root parts.dropLast with
      | .error refusal => .error refusal
      | .ok (call, dir) =>
          let name := parts.getLastD []
          match kernel.lstat (found call) dir name with
          | .error _ => .error (noSuchFile host display)
          | .ok .directory => .error (errorResult .validation (host.repr display ++
              " is a directory; session_delete_file removes " ++
              "one file (or symlink) at a time, not a directory") [])
          | .ok stat =>
              match kernel.unlink (found (call + 1)) dir name with
              | .error text => .error (errorResult .internal
                  ("could not delete " ++ host.repr display ++ ": " ++ text) [])
              | .ok after => .ok ⟨dir, name, stat, after⟩

end Walk

/-- What a call finds: the file system, the node at the path of the workspace,
and the `OSError` that the call meets for another reason. -/
structure Moment where
  fs : Inodes Text
  session : Option Nat
  failure : Option String := none

namespace Moment

def openDirectory (moment : Moment) (inode : Option Nat) : Except String Nat :=
  match moment.failure, inode with
  | some text, _ => .error text
  | none, none => .error "No such file or directory"
  | none, some inode =>
      match moment.fs inode with
      | some (.directory _) => .ok inode
      | some (.symlink _) => .error "Too many levels of symbolic links"
      | some .file => .error "Not a directory"
      | _ => .error "No such file or directory"

def lstat (moment : Moment) (dir : Nat) (name : Text) : Except String FileKind :=
  match moment.failure, moment.fs.entry dir name with
  | some text, _ => .error text
  | none, none => .error "No such file or directory"
  | none, some inode =>
      match moment.fs inode with
      | some (.directory _) => .ok .directory
      | some (.symlink _) => .ok .symlink
      | some .file => .ok .file
      | _ => .error "No such file or directory"

def unlink (moment : Moment) (dir : Nat) (name : Text) : Except String Moment :=
  match moment.failure, moment.fs.entry dir name with
  | some text, _ => .error text
  | none, none => .error "No such file or directory"
  | none, some inode =>
      match moment.fs inode with
      | some (.directory _) => .error "Is a directory"
      | _ => .ok { moment with fs := moment.fs.assign dir name none }

end Moment

/-- The kernel on the nodes of a file system. -/
def inodeKernel : Kernel Moment Nat where
  root moment := moment.openDirectory moment.session
  openat moment dir name := moment.openDirectory (moment.fs.entry dir name)
  lstat := Moment.lstat
  unlink := Moment.unlink

section Confined

variable {host : Host} {found : Nat → Moment} {display : Text}

theorem openDirectory_eq_ok {moment : Moment} {inode : Option Nat} {dir : Nat}
    (opened : moment.openDirectory inode = .ok dir) : inode = some dir ∧ moment.fs.IsDirectory dir := by
  unfold Moment.openDirectory at opened
  split at opened
  · cases opened
  · cases opened
  · split at opened
    · rename_i entries here
      cases opened
      exact ⟨rfl, entries, here⟩
    all_goals cases opened

theorem unlink_eq_ok {moment after : Moment} {dir : Nat} {name : Text}
    (unlinked : moment.unlink dir name = .ok after) :
    (∃ inode, moment.fs.entry dir name = some inode ∧ ¬moment.fs.IsDirectory inode) ∧
      after.fs = moment.fs.assign dir name none := by
  unfold Moment.unlink at unlinked
  split at unlinked
  · cases unlinked
  · cases unlinked
  · rename_i inode _ entry
    split at unlinked
    · cases unlinked
    · rename_i other
      cases unlinked
      exact ⟨⟨inode, entry, fun ⟨entries, here⟩ => other entries here⟩, rfl⟩

/-- The directories of a walk: each is an entry of the one before it. -/
structure Hops (found : Nat → Moment) (call : Nat) (dirs : Nat → Nat) (names : List Text) : Prop where
  hop : ∀ count name, names[count]? = some name →
    (found (call + count)).fs.entry (dirs count) name = some (dirs (count + 1)) ∧
      (found (call + count)).fs.IsDirectory (dirs (count + 1))

theorem hops_of_hop {names : List Text} {call last : Nat} {dir final : Nat}
    (walked : hop inodeKernel host found display call dir names = .ok (last, final)) :
    last = call + names.length ∧ ∃ dirs, dirs 0 = dir ∧ dirs names.length = final ∧
      Hops found call dirs names := by
  induction names generalizing call dir with
  | nil =>
    cases walked
    exact ⟨rfl, fun _ => final, rfl, rfl, ⟨fun _ _ none => nomatch none⟩⟩
  | cons name rest ih =>
    rw [hop] at walked
    split at walked
    · cases walked
    · rename_i next opened
      obtain ⟨entry, there⟩ := openDirectory_eq_ok opened
      obtain ⟨length, dirs, first, end', hops⟩ := ih walked
      refine ⟨by rw [length, List.length_cons]; omega,
        fun count => count.casesOn dir dirs, rfl, end', ⟨fun count name' at' => ?_⟩⟩
      cases count with
      | zero =>
        cases at'
        show (found call).fs.entry dir name = some (dirs 0) ∧ (found call).fs.IsDirectory (dirs 0)
        rw [first]
        exact ⟨entry, there⟩
      | succ count =>
        have onward := hops.hop count name' at'
        rwa [Nat.add_right_comm] at onward

structure Walked (found : Nat → Moment) (parts : List Text) (removal : Removal Moment Nat) (root : Nat)
    (dirs : Nat → Nat) : Prop where
  session : (found 0).session = some root ∧ (found 0).fs.IsDirectory root
  start : dirs 0 = root
  /-- Each directory was an entry of the one before at the moment of its hop:
  the directory itself, and no link to it. -/
  hops : Hops found 1 dirs parts.dropLast
  last : removal.dir = dirs parts.dropLast.length ∧ removal.name = parts.getLastD []
  entry : ∃ inode, (found (parts.length + 1)).fs.entry removal.dir removal.name = some inode ∧
    ¬(found (parts.length + 1)).fs.IsDirectory inode
  only : removal.after.fs = (found (parts.length + 1)).fs.assign removal.dir removal.name none

theorem walked_of_unlinked {parts : List Text} (some : parts ≠ []) {removal : Removal Moment Nat}
    (removed : unlinkPinned inodeKernel host found parts display = .ok removal) :
    ∃ root dirs, Walked found parts removal root dirs := by
  unfold unlinkPinned at removed
  split at removed
  · cases removed
  · rename_i root opened
    split at removed
    · cases removed
    · rename_i call dir walked
      obtain ⟨length, dirs, first, end', hops⟩ := hops_of_hop walked
      dsimp only at removed
      split at removed
      · cases removed
      · cases removed
      · split at removed
        · cases removed
        · rename_i after unlinked
          cases removed
          obtain ⟨entry, only⟩ := unlink_eq_ok unlinked
          have count : call + 1 = parts.length + 1 := by
            have long := List.length_pos_iff.mpr some
            rw [List.length_dropLast] at length
            omega
          rw [count] at entry only
          exact ⟨root, dirs, ⟨openDirectory_eq_ok opened, first, hops, ⟨end'.symm, rfl⟩, entry, only⟩⟩

/-- While no step takes a directory out of the workspace, each directory of a
walk is inside when the walk comes to it. -/
theorem Walked.inside {parts : List Text} {removal : Removal Moment Nat} {root : Nat} {dirs : Nat → Nat}
    (walked : Walked found parts removal root dirs)
    (turns : ∀ call, Relation.ReflTransGen (Inodes.Turn root) (found call).fs (found (call + 1)).fs)
    (count : Nat) (within : count ≤ parts.dropLast.length) :
    (found count).fs.IsDirectory (dirs count) ∧ (found count).fs.Inside root (dirs count) := by
  induction count with
  | zero =>
    rw [walked.start]
    exact ⟨walked.session.2, .refl⟩
  | succ count ih =>
    obtain ⟨there, inside⟩ := ih (Nat.le_of_succ_le within)
    have named : parts.dropLast[count]? = some parts.dropLast[count] := List.getElem?_eq_getElem within
    obtain ⟨entry, directory⟩ := walked.hops.hop count _ named
    rw [Nat.add_comm] at entry directory
    rcases Inodes.held_turns (turns count) there inside with ⟨_, inside⟩ | gone
    · exact ⟨directory, inside.tail ⟨_, entry⟩⟩
    · obtain ⟨entries, here⟩ := Inodes.isDirectory_of_entry entry
      rw [gone] at here
      cases here

/-- A walk stays inside while the session moves things from place to place inside only. -/
theorem Walked.inside_of_within {parts : List Text} {removal : Removal Moment Nat} {root : Nat}
    {dirs : Nat → Nat} (walked : Walked found parts removal root dirs)
    (steps : ∀ call, Relation.ReflTransGen
      (fun fs fs' : Inodes Text => ∃ change, fs.Allowed change ∧ fs.Within root change ∧ fs' = fs.after change)
      (found call).fs (found (call + 1)).fs)
    (count : Nat) (within : count ≤ parts.dropLast.length) : (found count).fs.Inside root (dirs count) := by
  refine (walked.inside (fun call => Relation.ReflTransGen.mono ?_ _ _ (steps call)) count within).2
  rintro fs _ ⟨change, allowed, inside, rfl⟩
  exact Inodes.Turn.of_within allowed inside

/-- An entry that is removed was reached from the workspace by real directories,
each an entry of the one before when the walk came to it; and where nothing
takes a directory out of the workspace, each was inside at that moment. -/
theorem unlink_confined {absolute : Text → Bool} {path : Text} {parts : List Text}
    (jailed : jailNofollow absolute path = .ok parts) {removal : Removal Moment Nat}
    (removed : unlinkPinned inodeKernel host found parts display = .ok removal) :
    ∃ root dirs, Walked found parts removal root dirs ∧
      ((∀ call, Relation.ReflTransGen (Inodes.Turn root) (found call).fs (found (call + 1)).fs) →
        ∀ count ≤ parts.dropLast.length, (found count).fs.Inside root (dirs count)) := by
  obtain ⟨root, dirs, walked⟩ := walked_of_unlinked (jailNofollow_valid jailed).1 removed
  exact ⟨root, dirs, walked, fun turns count within => (walked.inside turns count within).2⟩

def posixAbsolute (path : Text) : Bool := path.head? = some slash

def dirOf (entries : List (Text × Nat)) : Option (Node Text) := some (.directory fun name => entries.lookup name)

/-- The file `f` in the directory `a` of the workspace. -/
def oneFile : Inodes Text
  | 0 => dirOf [(.ofString "a", 1)]
  | 1 => dirOf [(.ofString "f", 2)]
  | 2 => some .file
  | _ => none

def oneRemoval : Removal Moment Nat :=
  ⟨1, .ofString "f", .file, ⟨oneFile.assign 1 (.ofString "f") none, some 0, none⟩⟩

theorem unlink_confined_one : ∃ root dirs,
    Walked (fun _ => ⟨oneFile, some 0, none⟩) [.ofString "a", .ofString "f"] oneRemoval root dirs ∧
      ((∀ call : Nat, Relation.ReflTransGen (Inodes.Turn root) ((fun _ => oneFile) call) oneFile) →
        ∀ count ≤ 1, oneFile.Inside root (dirs count)) :=
  @unlink_confined plainHost _ [] posixAbsolute (.ofString "a/f") _ rfl _ rfl

/-- `a/c` in the workspace, and `docs/f` beside it. -/
def beside : Inodes Text
  | 0 => dirOf [(.ofString "a", 1)]
  | 1 => dirOf [(.ofString "c", 2)]
  | 2 => dirOf []
  | 3 => dirOf [(.ofString "docs", 4)]
  | 4 => dirOf [(.ofString "f", 5)]
  | 5 => some .file
  | _ => none

def takeOut : Inodes.Change Text := .rename 0 (.ofString "a") 3 (.ofString "x")

def putUnder : Inodes.Change Text := .rename 3 (.ofString "docs") 2 (.ofString "b")

/-- `a` is moved out of the workspace after the walk has opened it, and `docs`
under `a/c` before the walk comes there. -/
def raced : Nat → Moment
  | 0 | 1 => ⟨beside, some 0, none⟩
  | 2 => ⟨beside.after takeOut, some 0, none⟩
  | _ => ⟨(beside.after takeOut).after putUnder, some 0, none⟩

theorem not_inside_of_closed {fs : Inodes Text} {root inode : Nat} (among : Nat → Prop) (start : among root)
    (closed : ∀ dir next, among dir → fs.Leads dir next → among next) (outside : ¬among inode) :
    ¬fs.Inside root inode := by
  intro inside
  have reached : among inode := by
    induction inside with
    | refl => exact start
    | tail _ leads ih => exact closed _ _ (ih fun here => outside (closed _ _ here leads)) leads
  exact outside reached

theorem leads_dirOf {fs : Inodes Text} {dir next : Nat} (entries : List (Text × Nat))
    (here : fs dir = dirOf entries) (leads : fs.Leads dir next) : next ∈ entries.map Prod.snd := by
  obtain ⟨name, found⟩ := leads
  have looked : entries.lookup name = some next := by
    rwa [Inodes.entry, here] at found
  obtain ⟨front, back, rfl, _⟩ := List.lookup_eq_some_iff.mp looked
  simp

theorem moved_outside : ¬beside.Inside 1 3 := by
  apply not_inside_of_closed (fun inode => inode = 1 ∨ inode = 2) (.inl rfl)
  · rintro dir next (rfl | rfl) leads
    · exact .inr (List.mem_singleton.mp (leads_dirOf [(.ofString "c", 2)] rfl leads))
    · cases leads_dirOf [] rfl leads
  · decide

theorem put_outside : ¬(beside.after takeOut).Inside 4 2 := by
  apply not_inside_of_closed (fun inode => inode = 4 ∨ inode = 5) (.inl rfl)
  · rintro dir next (rfl | rfl) leads
    · exact .inr (List.mem_singleton.mp (leads_dirOf [(.ofString "f", 5)] rfl leads))
    · obtain ⟨name, found⟩ := leads
      cases found
  · decide

/-- The workspace is empty after `a` is gone from it. -/
theorem taken_out (name : Text) : (beside.after takeOut).entry 0 name = none := by
  show Function.update (fun name => [(Text.ofString "a", 1)].lookup name) (.ofString "a") none name = none
  by_cases same : name = .ofString "a"
  · rw [same, Function.update_self]
  · rw [Function.update_of_ne same]
    rw [List.lookup_cons, beq_eq_false_iff_ne.mpr same]
    rfl

theorem never_inside (call : Nat) : ¬(raced call).fs.Inside 0 4 := by
  have before : ¬beside.Inside 0 4 := by
    apply not_inside_of_closed (fun inode => inode = 0 ∨ inode = 1 ∨ inode = 2) (.inl rfl)
    · rintro dir next (rfl | rfl | rfl) leads
      · exact .inr (.inl (List.mem_singleton.mp (leads_dirOf [(.ofString "a", 1)] rfl leads)))
      · exact .inr (.inr (List.mem_singleton.mp (leads_dirOf [(.ofString "c", 2)] rfl leads)))
      · cases leads_dirOf [] rfl leads
    · decide
  have after : ∀ fs : Inodes Text, (∀ name, fs.entry 0 name = none) → ¬fs.Inside 0 4 := by
    intro fs empty
    apply not_inside_of_closed (· = 0) rfl
    · rintro dir next rfl ⟨name, found⟩
      rw [empty] at found
      cases found
    · decide
  match call with
  | 0 | 1 => exact before
  | 2 => exact after _ taken_out
  | call + 3 => exact after _ taken_out

theorem raced_steps (call : Nat) : raced (call + 1) = raced call ∨
    ∃ change, (raced call).fs.Allowed change ∧ (raced (call + 1)).fs = (raced call).fs.after change := by
  match call with
  | 0 => exact .inl rfl
  | 1 =>
    refine .inr ⟨takeOut, ⟨⟨_, rfl⟩, 1, rfl, moved_outside, ?_⟩, rfl⟩
    intro target taken
    cases taken
  | 2 =>
    refine .inr ⟨putUnder, ⟨⟨_, rfl⟩, 4, rfl, put_outside, ?_⟩, rfl⟩
    intro target taken
    cases taken
  | call + 3 => exact .inl rfl

def raceRemoval : Removal Moment Nat :=
  ⟨4, .ofString "f", .file, ⟨((beside.after takeOut).after putUnder).assign 4 (.ofString "f") none, some 0, none⟩⟩

/-- An entry of a directory is removed that was never inside the workspace. -/
theorem unlink_not_confined : ¬∀ (found : Nat → Moment) (path : Text) (parts : List Text)
    (removal : Removal Moment Nat),
    (∀ call, found (call + 1) = found call ∨
      ∃ change, (found call).fs.Allowed change ∧ (found (call + 1)).fs = (found call).fs.after change) →
    jailNofollow posixAbsolute path = .ok parts →
    unlinkPinned inodeKernel plainHost found parts path = .ok removal →
    ∃ root call, (found 0).session = some root ∧ (found call).fs.Inside root removal.dir := by
  intro confined
  obtain ⟨root, call, session, inside⟩ := confined raced (.ofString "a/c/b/f") _ raceRemoval raced_steps rfl rfl
  cases session
  exact never_inside call inside

end Confined

end CodeCalc.Files
