import Mathlib.Data.Nat.Bitwise
import CodeCalc.Lib.Effect
import CodeCalc.Python

/-! `restrict_self`: a Landlock ruleset built right by right for the kernel's
interface version, and what `unenforced_reasons` discloses about it.  A mask
stands for the set of rights whose bits it has. -/
namespace CodeCalc.Landlock
open Lib Lib.Effect

section Tables

/-- `_FS`: each right's bit, and the interface version that introduced it. -/
def fs : List (String × ℕ × ℕ) :=
  [("execute", 1 <<< 0, 1), ("write_file", 1 <<< 1, 1), ("read_file", 1 <<< 2, 1),
    ("read_dir", 1 <<< 3, 1), ("remove_dir", 1 <<< 4, 1), ("remove_file", 1 <<< 5, 1),
    ("make_char", 1 <<< 6, 1), ("make_dir", 1 <<< 7, 1), ("make_reg", 1 <<< 8, 1),
    ("make_sock", 1 <<< 9, 1), ("make_fifo", 1 <<< 10, 1), ("make_block", 1 <<< 11, 1),
    ("make_sym", 1 <<< 12, 1), ("refer", 1 <<< 13, 2), ("truncate", 1 <<< 14, 3),
    ("ioctl_dev", 1 <<< 15, 5)]

def readRights : List String := ["execute", "read_file", "read_dir"]

def writeRights : List String :=
  ["write_file", "remove_dir", "remove_file", "make_char", "make_dir", "make_reg", "make_sock",
    "make_fifo", "make_block", "make_sym", "refer", "truncate", "ioctl_dev"]

def fileRights : List String := ["execute", "read_file", "write_file", "truncate", "ioctl_dev"]

/-- `_mask_for`; every name it is given is one of the table. -/
def maskFor (abi : ℕ) (names : List String) : ℕ :=
  names.foldl (fun mask name =>
    match fs.lookup name with
    | some (bit, since) => if since ≤ abi then mask ||| bit else mask
    | none => mask) 0

/-- The names that a path gets: all of them for a directory, else those for files. -/
def granted (isDir : Bool) (names : List String) : List String :=
  names.filter fun name => isDir || decide (name ∈ fileRights)

def unenforcedReasons (abi : ℕ) (scope : String) : List String :=
  if abi = 0 then
    if scope ≠ "install" then [scope ++ "_not_confined_no_landlock"]
    else ["package_install_not_confined_no_landlock"]
  else
    [scope ++ "_metadata_syscalls_unrestricted"] ++
      (if abi < 10 then [scope ++ "_udp_egress_unrestricted"] else []) ++
      if abi < 4 then [scope ++ "_tcp_egress_unrestricted"] else []

end Tables

section Interface

/-- The filesystem rights of the kernel's interface. -/
inductive Access where
  | execute | writeFile | readFile | readDir | removeDir | removeFile | makeChar | makeDir
  | makeReg | makeSock | makeFifo | makeBlock | makeSym | refer | truncate | ioctlDev
  deriving DecidableEq, Repr

namespace Access

def bit : Access → ℕ
  | execute => 0
  | writeFile => 1
  | readFile => 2
  | readDir => 3
  | removeDir => 4
  | removeFile => 5
  | makeChar => 6
  | makeDir => 7
  | makeReg => 8
  | makeSock => 9
  | makeFifo => 10
  | makeBlock => 11
  | makeSym => 12
  | refer => 13
  | truncate => 14
  | ioctlDev => 15

/-- The interface version from which the kernel knows the right. -/
def since : Access → ℕ
  | refer => 2
  | truncate => 3
  | ioctlDev => 5
  | _ => 1

/-- The right means something for a file. -/
def onFile : Access → Bool
  | execute | writeFile | readFile | truncate | ioctlDev => true
  | _ => false

def changes : Access → Bool
  | writeFile | removeDir | removeFile | makeChar | makeDir | makeReg | makeSock | makeFifo
  | makeBlock | makeSym | truncate => true
  | _ => false

def reads : Access → Bool
  | execute | readFile | readDir => true
  | _ => false

end Access

/-- `struct landlock_ruleset_attr`, as far as it is passed. -/
structure RulesetAttr where
  handledAccessFs : ℕ

structure Ruleset (Node : Type) where
  handledFs : ℕ
  handledNet : ℕ
  rules : List (Node × ℕ)

inductive Call (Node : Type) where
  | createRuleset (attr : RulesetAttr)
  | addRule (node : Node) (allowedAccess : ℕ)
  | noNewPrivs
  | restrictSelf

structure Kernel (Node : Type) where
  abi : ℕ
  /-- Filesystem rights of later interfaces, and those of them for files. -/
  furtherFs : ℕ
  furtherFile : ℕ
  tcp : ℕ
  udp : ℕ
  isDir : Node → Bool
  Beneath : Node → Node → Prop

variable {Node : Type} (kernel : Kernel Node)

def Kernel.Knows (bit : ℕ) : Prop :=
  (∃ access : Access, access.since ≤ kernel.abi ∧ access.bit = bit) ∨ kernel.furtherFs.testBit bit

def Kernel.ForFiles (bit : ℕ) : Prop :=
  (∃ access : Access, access.onFile = true ∧ access.bit = bit) ∨ kernel.furtherFile.testBit bit

def Kernel.Accepts (ruleset : Option (Ruleset Node)) : Call Node → Prop
  | .createRuleset attr =>
      attr.handledAccessFs ≠ 0 ∧ ∀ bit, attr.handledAccessFs.testBit bit → kernel.Knows bit
  | .addRule node allowed =>
      allowed ≠ 0 ∧ ∃ created, ruleset = some created ∧
        ∀ bit, allowed.testBit bit → created.handledFs.testBit bit ∧
          (kernel.isDir node = true ∨ kernel.ForFiles bit)
  | .noNewPrivs => True
  | .restrictSelf => ruleset.isSome

def Kernel.Denies (ruleset : Ruleset Node) (access : Access) (node : Node) : Prop :=
  ruleset.handledFs.testBit access.bit ∧
    ∀ rule ∈ ruleset.rules, kernel.Beneath node rule.1 → rule.2.testBit access.bit = false

/-- What the disclosure is about. -/
inductive OpClass where
  | metadata | truncation | tcp | udp
  deriving DecidableEq, Repr

/-- The ruleset restricts operations of a class; there is no right for metadata. -/
def Kernel.Restricts (ruleset : Ruleset Node) : OpClass → Prop
  | .metadata => False
  | .truncation => ruleset.handledFs.testBit Access.truncate.bit
  | .tcp => ruleset.handledNet &&& kernel.tcp ≠ 0
  | .udp => ruleset.handledNet &&& kernel.udp ≠ 0

end Interface

section Program

variable {Node : Type}

/-- A process that confines itself: the calls it made, each with the ruleset it
found, the ruleset being built and the one it is in. -/
structure Process (Node : Type) where
  calls : List (Call Node × Option (Ruleset Node)) := []
  ruleset : Option (Ruleset Node) := none
  confinement : Option (Ruleset Node) := none

/-- The host as the process sees it: `Path.is_dir` and `os.open` with `O_PATH`. -/
structure Host (kernel : Kernel Node) where
  isDir : String → Bool
  openPath : String → Option Node
  stable : ∀ path node, openPath path = some node → isDir path = kernel.isDir node

def Process.answer (process : Process Node) : Call Node → Process Node
  | .createRuleset attr => { process with ruleset := some ⟨attr.handledAccessFs, 0, []⟩ }
  | .addRule node allowed =>
      { process with ruleset := process.ruleset.map fun ruleset =>
          { ruleset with rules := ruleset.rules ++ [(node, allowed)] } }
  | .noNewPrivs => process
  | .restrictSelf => { process with confinement := process.ruleset }

def osError (message : String) : Exc := ⟨"OSError", [.osError, .exception], some message, none, none⟩

variable {kernel : Kernel Node} (host : Host kernel) (fails : Process Node → Call Node → Option ℕ)

/-- A system call, and the exception that its error number leads to: of a call
that is rejected, and of one that the kernel cannot serve. -/
def syscall (call : Call Node) (failure : String) : Effect (Process Node) Exc Unit := do
  let process ← get
  modify fun process => { process with calls := process.calls ++ [(call, process.ruleset)] }
  match fails process call with
  | some errno => raise (osError ("[Errno " ++ toString errno ++ "] " ++ failure))
  | none => modify fun process => process.answer call

/-- The loop body of `restrict_self`. -/
def addPath (names : List String) (path : String) : Effect (Process Node) Exc Unit :=
  let mask := maskFor kernel.abi (granted (host.isDir path) names)
  if mask = 0 then pure ()
  else match host.openPath path with
    | none => pure ()
    | some node => syscall fails (.addRule node mask) ("landlock_add_rule failed for " ++ path)

def restrictSelf (readWrite readOnly : List String) : Effect (Process Node) Exc Unit := do
  if kernel.abi = 0 then raise (osError "Landlock unavailable on this kernel")
  else
    syscall fails (.createRuleset ⟨maskFor kernel.abi (fs.map Prod.fst)⟩)
      "landlock_create_ruleset failed"
    forEach (addPath host fails (readRights ++ writeRights)) readWrite
    forEach (addPath host fails readRights) readOnly
    syscall fails .noNewPrivs "prctl(PR_SET_NO_NEW_PRIVS) failed"
    syscall fails .restrictSelf "landlock_restrict_self failed"

end Program

section Claims

variable {Node : Type} {kernel : Kernel Node}

def Host.Outside (host : Host kernel) (paths : List String) (node : Node) : Prop :=
  ∀ path ∈ paths, ∀ root, host.openPath path = some root → ¬kernel.Beneath node root

/-- The reason that names a class; the vocabulary has none for truncation. -/
def reason (scope : String) : OpClass → Option String
  | .metadata => some (scope ++ "_metadata_syscalls_unrestricted")
  | .truncation => none
  | .tcp => some (scope ++ "_tcp_egress_unrestricted")
  | .udp => some (scope ++ "_udp_egress_unrestricted")

def Names (reasons : List String) (scope : String) (cls : OpClass) : Prop :=
  ∃ text ∈ reasons, reason scope cls = some text

/-- The class a right falls in, where the disclosure has one for it. -/
def Access.opClass : Access → Option OpClass
  | truncate => some .truncation
  | _ => none

/-- A confined process changes nothing outside the one list and reads nothing
outside both, the disclosed classes apart, and the disclosure is complete. -/
structure Confined (host : Host kernel) (readWrite readOnly : List String) (scope : String)
    (reasons : List String) (ruleset : Ruleset Node) : Prop where
  changes : ∀ access : Access, access.changes = true → ∀ node, host.Outside readWrite node →
    kernel.Denies ruleset access node ∨ ∃ cls, access.opClass = some cls ∧ Names reasons scope cls
  reads : ∀ access : Access, access.reads = true → ∀ node, host.Outside (readWrite ++ readOnly) node →
    kernel.Denies ruleset access node
  complete : ∀ cls, ¬kernel.Restricts ruleset cls → Names reasons scope cls

/-- What a confinement promises, whichever calls the kernel cannot serve. -/
structure Promise (host : Host kernel) (readWrite readOnly : List String) (scope : String) :
    Prop where
  accepted : ∀ fails, ∀ call ∈ (run (restrictSelf host fails readWrite readOnly) {}).2.calls,
    kernel.Accepts call.2 call.1
  confined : ∀ fails process, run (restrictSelf host fails readWrite readOnly) {} = (.ok (), process) →
    ∃ ruleset, process.confinement = some ruleset ∧
      Confined host readWrite readOnly scope (unenforcedReasons kernel.abi scope) ruleset

end Claims

section Masks

theorem testBit_maskFor (abi : ℕ) (names : List String) (place : ℕ) :
    (maskFor abi names).testBit place = true ↔ ∃ name ∈ names, ∃ bit since,
      fs.lookup name = some (bit, since) ∧ since ≤ abi ∧ bit.testBit place = true := by
  have fold (mask : ℕ) : (names.foldl (fun mask name =>
      match fs.lookup name with
      | some (bit, since) => if since ≤ abi then mask ||| bit else mask
      | none => mask) mask).testBit place = true ↔ mask.testBit place = true ∨
        ∃ name ∈ names, ∃ bit since,
          fs.lookup name = some (bit, since) ∧ since ≤ abi ∧ bit.testBit place = true := by
    induction names generalizing mask with
    | nil => simp
    | cons name rest ih =>
      rw [List.foldl_cons, ih]
      rcases found : fs.lookup name with _ | ⟨bit, since⟩
      · simp [found]
      · by_cases known : since ≤ abi
        · simp [found, known, or_assoc]
        · simp [found, known]
  simpa [maskFor] using fold 0

namespace Access

def name : Access → String
  | execute => "execute"
  | writeFile => "write_file"
  | readFile => "read_file"
  | readDir => "read_dir"
  | removeDir => "remove_dir"
  | removeFile => "remove_file"
  | makeChar => "make_char"
  | makeDir => "make_dir"
  | makeReg => "make_reg"
  | makeSock => "make_sock"
  | makeFifo => "make_fifo"
  | makeBlock => "make_block"
  | makeSym => "make_sym"
  | refer => "refer"
  | truncate => "truncate"
  | ioctlDev => "ioctl_dev"

theorem lookup_name (access : Access) :
    fs.lookup access.name = some (1 <<< access.bit, access.since) := by
  cases access <;> rfl

theorem bit_injective : Function.Injective bit := by
  intro left right same
  cases left <;> cases right <;> first | rfl | exact absurd same (by decide)

theorem mem_fileRights (access : Access) : access.name ∈ fileRights ↔ access.onFile = true := by
  cases access <;> decide

end Access

theorem testBit_maskFor_map (abi : ℕ) (accesses : List Access) (place : ℕ) :
    (maskFor abi (accesses.map Access.name)).testBit place = true ↔
      ∃ access ∈ accesses, access.since ≤ abi ∧ access.bit = place := by
  rw [testBit_maskFor]
  constructor
  · rintro ⟨_, member, bit, since, found, known, lit⟩
    obtain ⟨access, listed, rfl⟩ := List.mem_map.mp member
    rw [access.lookup_name] at found
    cases found
    rw [Nat.one_shiftLeft, Nat.testBit_two_pow, decide_eq_true_eq] at lit
    exact ⟨access, listed, known, lit⟩
  · rintro ⟨access, listed, known, rfl⟩
    refine ⟨access.name, List.mem_map_of_mem listed, _, _, access.lookup_name, known, ?_⟩
    rw [Nat.one_shiftLeft, Nat.testBit_two_pow, decide_eq_true_eq]

/-- The rights of a list to read and write, in the order of the tables. -/
def Access.readWrite : List Access :=
  [.execute, .readFile, .readDir, .writeFile, .removeDir, .removeFile, .makeChar, .makeDir,
    .makeReg, .makeSock, .makeFifo, .makeBlock, .makeSym, .refer, .truncate, .ioctlDev]

def Access.all : List Access :=
  [.execute, .writeFile, .readFile, .readDir, .removeDir, .removeFile, .makeChar, .makeDir,
    .makeReg, .makeSock, .makeFifo, .makeBlock, .makeSym, .refer, .truncate, .ioctlDev]

theorem Access.mem_all (access : Access) : access ∈ Access.all := by
  cases access <;> decide

theorem testBit_handled (abi place : ℕ) :
    (maskFor abi (fs.map Prod.fst)).testBit place = true ↔
      ∃ access : Access, access.since ≤ abi ∧ access.bit = place := by
  have names : fs.map Prod.fst = Access.all.map Access.name := rfl
  rw [names, testBit_maskFor_map]
  simp [Access.mem_all]

theorem testBit_handled_bit (abi : ℕ) (access : Access) :
    (maskFor abi (fs.map Prod.fst)).testBit access.bit = true ↔ access.since ≤ abi := by
  rw [testBit_handled]
  constructor
  · rintro ⟨other, known, same⟩
    rwa [← Access.bit_injective same]
  · exact fun known => ⟨access, known, rfl⟩

/-- What a rule carries: rights of the interface that the kernel has, for files only
those for files, and in a list to read only those to read. -/
theorem testBit_granted {abi place : ℕ} {isDir : Bool} {accesses : List Access}
    (lit : (maskFor abi (granted isDir (accesses.map Access.name))).testBit place = true) :
    ∃ access ∈ accesses, access.since ≤ abi ∧ (isDir = true ∨ access.onFile = true) ∧
      access.bit = place := by
  have names : granted isDir (accesses.map Access.name) =
      (accesses.filter fun access => isDir || access.onFile).map Access.name := by
    rw [granted, List.filter_map]
    congr 2
    funext access
    rw [Function.comp_apply, Bool.eq_iff_iff, Bool.or_eq_true, Bool.or_eq_true, decide_eq_true_eq,
      access.mem_fileRights]
  rw [names, testBit_maskFor_map] at lit
  obtain ⟨access, listed, known, same⟩ := lit
  obtain ⟨member, kept⟩ := List.mem_filter.mp listed
  rw [Bool.or_eq_true] at kept
  exact ⟨access, member, known, kept, same⟩

end Masks

section Runs

variable {Node : Type} {kernel : Kernel Node} {host : Host kernel}
  {fails : Process Node → Call Node → Option ℕ} {readWrite readOnly : List String}

/-- A rule is for a listed path, and changes nothing when it is for one to read. -/
def Listed (host : Host kernel) (readWrite readOnly : List String) (rule : Node × ℕ) : Prop :=
  (∃ path ∈ readWrite, host.openPath path = some rule.1) ∨
    ∃ path ∈ readOnly, host.openPath path = some rule.1 ∧
      ∀ access : Access, access.changes = true → rule.2.testBit access.bit = false

structure Built (host : Host kernel) (readWrite readOnly : List String) (ruleset : Ruleset Node) :
    Prop where
  fs : ruleset.handledFs = maskFor kernel.abi (fs.map Prod.fst)
  net : ruleset.handledNet = 0
  rules : ∀ rule ∈ ruleset.rules, Listed host readWrite readOnly rule

/-- Between the first call and the last one. -/
structure Building (host : Host kernel) (readWrite readOnly : List String) (process : Process Node) :
    Prop where
  accepted : ∀ call ∈ process.calls, kernel.Accepts call.2 call.1
  built : ∃ ruleset, process.ruleset = some ruleset ∧ Built host readWrite readOnly ruleset

theorem run_syscall (call : Call Node) (failure : String) (process : Process Node) :
    run (syscall fails call failure) process =
      let logged := { process with calls := process.calls ++ [(call, process.ruleset)] }
      match fails process call with
      | some errno => (.error (osError ("[Errno " ++ toString errno ++ "] " ++ failure)), logged)
      | none => (.ok (), logged.answer call) := by
  rw [syscall, run_get_bind, run_modify_bind]
  cases fails process call <;> rfl

theorem syscall_building {call : Call Node} {failure : String} {process : Process Node}
    (building : Building host readWrite readOnly process)
    (accepts : kernel.Accepts process.ruleset call)
    (built : ∃ ruleset, (process.answer call).ruleset = some ruleset ∧
      Built host readWrite readOnly ruleset) :
    Building host readWrite readOnly (run (syscall fails call failure) process).2 := by
  have logged : ∀ entry ∈ process.calls ++ [(call, process.ruleset)],
      kernel.Accepts entry.2 entry.1 := by
    intro entry member
    rcases List.mem_append.mp member with earlier | now
    · exact building.accepted entry earlier
    · rwa [List.mem_singleton.mp now]
  rw [run_syscall]
  cases fails process call with
  | some errno => exact ⟨logged, building.built⟩
  | none => cases call <;> exact ⟨logged, built⟩

theorem addPath_building {accesses : List Access} {path : String}
    (listed : ∀ node mask, host.openPath path = some node →
      (∀ place, mask.testBit place = true → ∃ access ∈ accesses, access.bit = place) →
      Listed host readWrite readOnly (node, mask)) :
    Keeps (Building host readWrite readOnly)
      (addPath host fails (accesses.map Access.name) path) := by
  intro process building
  rw [addPath]
  split
  · exact building
  rename_i some_right
  split
  · exact building
  rename_i node opened
  have lit (place : ℕ) (lit : (maskFor kernel.abi (granted (host.isDir path)
      (accesses.map Access.name))).testBit place = true) := testBit_granted lit
  obtain ⟨ruleset, same, built⟩ := building.built
  refine syscall_building building ⟨some_right, ruleset, same, ?_⟩ ?_
  · intro place carried
    obtain ⟨access, _, known, fits, rfl⟩ := lit place carried
    rw [built.fs, testBit_handled_bit, ← host.stable path node opened]
    exact ⟨known, fits.imp id fun file => .inl ⟨access, file, rfl⟩⟩
  · refine ⟨{ ruleset with rules := ruleset.rules ++ [(node, maskFor kernel.abi
      (granted (host.isDir path) (accesses.map Access.name)))] }, ?_, built.fs, built.net, ?_⟩
    · rw [Process.answer, same]
      rfl
    intro rule member
    rcases List.mem_append.mp member with earlier | now
    · exact built.rules rule earlier
    · rw [List.mem_singleton.mp now]
      apply listed node _ opened
      intro place carried
      obtain ⟨access, member, _, _, same⟩ := lit place carried
      exact ⟨access, member, same⟩

/-- The calls behind the first one. -/
theorem rest_building : Keeps (Building host readWrite readOnly) (do
    forEach (addPath host fails (readRights ++ writeRights)) readWrite
    forEach (addPath host fails readRights) readOnly
    syscall fails .noNewPrivs "prctl(PR_SET_NO_NEW_PRIVS) failed"
    syscall fails .restrictSelf "landlock_restrict_self failed") := by
  apply keeps_bind
  · apply keeps_forEach
    intro path member
    exact @addPath_building Node kernel host fails readWrite readOnly Access.readWrite path
      fun node _ opened _ => .inl ⟨path, member, opened⟩
  intro _
  apply keeps_bind
  · apply keeps_forEach
    intro path member
    apply @addPath_building Node kernel host fails readWrite readOnly
      [.execute, .readFile, .readDir] path
    intro node mask opened carried
    refine .inr ⟨path, member, opened, ?_⟩
    intro access changes
    by_contra lit
    obtain ⟨other, reads, same⟩ := carried access.bit (by simpa using lit)
    rw [Access.bit_injective same] at reads
    cases access <;> first | exact absurd changes (by decide) | exact absurd reads (by decide)
  intro _
  apply keeps_bind
  · intro process building
    exact syscall_building building trivial building.built
  intro _ process building
  obtain ⟨ruleset, same, _⟩ := building.built
  exact syscall_building building (by rw [same]; rfl) building.built

theorem create_building (present : kernel.abi ≠ 0) :
    (∀ call ∈ (run (syscall fails (.createRuleset ⟨maskFor kernel.abi (fs.map Prod.fst)⟩)
      "landlock_create_ruleset failed") {}).2.calls, kernel.Accepts call.2 call.1) ∧
    ∀ process, run (syscall fails (.createRuleset ⟨maskFor kernel.abi (fs.map Prod.fst)⟩)
      "landlock_create_ruleset failed") {} = (.ok (), process) →
      Building host readWrite readOnly process := by
  have accepts : kernel.Accepts none (.createRuleset ⟨maskFor kernel.abi (fs.map Prod.fst)⟩) := by
    constructor
    · intro empty
      have lit := (testBit_handled_bit kernel.abi .execute).mpr (Nat.one_le_iff_ne_zero.mpr present)
      simp [show maskFor kernel.abi (fs.map Prod.fst) = 0 from empty] at lit
    · exact fun place lit => .inl ((testBit_handled kernel.abi place).mp lit)
  rw [run_syscall]
  cases fails _ _ with
  | some errno =>
    constructor
    · simpa using accepts
    · intro process ran
      cases ran
  | none =>
    constructor
    · simpa [Process.answer] using accepts
    · intro process ran
      cases ran
      exact {
        accepted := by simpa [Process.answer] using accepts
        built := ⟨_, rfl, rfl, rfl, by simp⟩ }

theorem restrictSelf_accepted :
    ∀ call ∈ (run (restrictSelf host fails readWrite readOnly) {}).2.calls,
      kernel.Accepts call.2 call.1 := by
  rw [restrictSelf]
  split
  · simp
  rename_i present
  have ⟨first, building⟩ := @create_building Node kernel host fails readWrite readOnly present
  rw [run_bind]
  rcases ran : run (syscall fails (.createRuleset ⟨maskFor kernel.abi (fs.map Prod.fst)⟩)
    "landlock_create_ruleset failed") {} with ⟨outcome, process⟩
  rw [ran] at first
  cases outcome with
  | error raised => exact first
  | ok value => exact (rest_building process (building process ran)).accepted

theorem restrictSelf_built {process : Process Node}
    (ran : run (restrictSelf host fails readWrite readOnly) {} = (.ok (), process)) :
    kernel.abi ≠ 0 ∧ ∃ ruleset, process.confinement = some ruleset ∧
      Built host readWrite readOnly ruleset := by
  rw [restrictSelf] at ran
  split at ran
  · cases ran
  rename_i present
  refine ⟨present, ?_⟩
  obtain ⟨_, first, ran₁, rest⟩ := run_bind_ok ran
  have building := (@create_building Node kernel host fails readWrite readOnly present).2 first ran₁
  have done := @rest_building Node kernel host fails readWrite readOnly first building
  rw [rest] at done
  obtain ⟨_, second, _, rest⟩ := run_bind_ok rest
  obtain ⟨_, third, _, rest⟩ := run_bind_ok rest
  obtain ⟨_, fourth, _, last⟩ := run_bind_ok rest
  obtain ⟨ruleset, same, built⟩ := done.built
  refine ⟨ruleset, ?_, built⟩
  rw [run_syscall] at last
  rcases answered : fails fourth .restrictSelf with _ | errno
  · simp only [answered] at last
    cases last
    exact same
  · simp only [answered] at last
    cases last

theorem restrictSelf_returns (present : kernel.abi ≠ 0) :
    ∃ process, run (restrictSelf host (fun _ _ => none) readWrite readOnly) {} = (.ok (), process) := by
  have call (call : Call Node) (failure : String) :
      Returns (syscall (fun _ _ => none) call failure) := fun process => ⟨(), _, rfl⟩
  have path (names : List String) (path : String) :
      Returns (addPath host (fun _ _ => none) names path) := by
    intro process
    rw [addPath]
    split
    · exact ⟨(), process, rfl⟩
    split
    · exact ⟨(), process, rfl⟩
    · exact call _ _ process
  rw [restrictSelf, if_neg present]
  obtain ⟨_, process, ran⟩ := returns_bind (call _ _) (fun _ =>
    returns_bind (returns_forEach (path (readRights ++ writeRights)) readWrite) fun _ =>
    returns_bind (returns_forEach (path readRights) readOnly) fun _ =>
    returns_bind (call .noNewPrivs "prctl(PR_SET_NO_NEW_PRIVS) failed") fun _ =>
    call .restrictSelf "landlock_restrict_self failed") ({} : Process Node)
  exact ⟨process, ran⟩

end Runs

section Disclosure

variable {Node : Type} {kernel : Kernel Node} {host : Host kernel}
  {readWrite readOnly : List String} {scope : String} {ruleset : Ruleset Node}

theorem names_iff {abi : ℕ} (present : abi ≠ 0) (cls : OpClass) :
    Names (unenforcedReasons abi scope) scope cls ↔
      cls = .metadata ∨ cls = .udp ∧ abi < 10 ∨ cls = .tcp ∧ abi < 4 := by
  rw [Names, unenforcedReasons, if_neg present]
  cases cls <;> by_cases low : abi < 10 <;> by_cases lower : abi < 4 <;>
    simp [reason, low, lower]

theorem denies_change {access : Access} {node : Node} (built : Built host readWrite readOnly ruleset)
    (known : access.since ≤ kernel.abi) (changes : access.changes = true)
    (outside : host.Outside readWrite node) : kernel.Denies ruleset access node := by
  constructor
  · rwa [built.fs, testBit_handled_bit]
  · intro rule member beneath
    rcases built.rules rule member with ⟨path, listed, opened⟩ | ⟨_, _, _, none⟩
    · exact absurd beneath (outside path listed rule.1 opened)
    · exact none access changes

theorem denies_read {access : Access} {node : Node} (built : Built host readWrite readOnly ruleset)
    (known : access.since ≤ kernel.abi) (outside : host.Outside (readWrite ++ readOnly) node) :
    kernel.Denies ruleset access node := by
  constructor
  · rwa [built.fs, testBit_handled_bit]
  · intro rule member beneath
    rcases built.rules rule member with ⟨path, listed, opened⟩ | ⟨path, listed, opened, _⟩
    · exact absurd beneath (outside path (List.mem_append_left _ listed) rule.1 opened)
    · exact absurd beneath (outside path (List.mem_append_right _ listed) rule.1 opened)

theorem restricts_iff (built : Built host readWrite readOnly ruleset) (cls : OpClass) :
    kernel.Restricts ruleset cls ↔ cls = .truncation ∧ 3 ≤ kernel.abi := by
  cases cls with
  | truncation =>
    rw [Kernel.Restricts, built.fs, testBit_handled_bit]
    simp [Access.since]
  | metadata => simp [Kernel.Restricts]
  | tcp => simp [Kernel.Restricts, built.net]
  | udp => simp [Kernel.Restricts, built.net]

/-- The disclosure of a ruleset for the file system alone is right at one version. -/
theorem confined_iff (present : kernel.abi ≠ 0) (built : Built host readWrite readOnly ruleset) :
    Confined host readWrite readOnly scope (unenforcedReasons kernel.abi scope) ruleset ↔
      kernel.abi = 3 := by
  constructor
  · intro confined
    have truncation := mt (confined.complete .truncation)
    have tcp := confined.complete .tcp
    rw [restricts_iff built, names_iff present] at truncation tcp
    simp at truncation tcp
    omega
  · intro third
    have first (access : Access) (known : access.since ≤ 3) : access.since ≤ kernel.abi := by omega
    exact {
      changes := by
        intro access changes node outside
        have known : access.since ≤ 3 := by
          cases access <;> first | decide | exact absurd changes (by decide)
        exact .inl (denies_change built (first access known) changes outside)
      reads := by
        intro access reads node outside
        have known : access.since ≤ 3 := by
          cases access <;> first | decide | exact absurd reads (by decide)
        exact denies_read built (first access known) outside
      complete := by
        intro cls free
        rw [restricts_iff built] at free
        rw [names_iff present]
        cases cls <;> simp_all }

/-- A confinement and its disclosure agree on interface 3 only: before it nothing
says that files can be truncated, and after it nothing says that TCP is open. -/
theorem restrictSelf_promise_iff (host : Host kernel) (readWrite readOnly : List String)
    (scope : String) :
    Promise host readWrite readOnly scope ↔ kernel.abi = 0 ∨ kernel.abi = 3 := by
  constructor
  · intro promise
    by_contra other
    have present : kernel.abi ≠ 0 := fun absent => other (.inl absent)
    obtain ⟨process, ran⟩ := @restrictSelf_returns Node kernel host readWrite readOnly present
    obtain ⟨ruleset, inside, confined⟩ := promise.confined _ process ran
    obtain ⟨_, ruleset', inside', built⟩ := restrictSelf_built ran
    cases inside.symm.trans inside'
    exact other (.inr ((confined_iff present built).mp confined))
  · intro version
    exact {
      accepted := fun fails => restrictSelf_accepted
      confined := by
        intro fails process ran
        obtain ⟨present, ruleset, inside, built⟩ := restrictSelf_built ran
        exact ⟨ruleset, inside, (confined_iff present built).mpr (version.resolve_left present)⟩ }

/-- A kernel at interface 7 with one file, and a host that lists nothing. -/
def seventh : Kernel Unit where
  abi := 7
  furtherFs := 0
  furtherFile := 0
  tcp := 3
  udp := 0
  isDir _ := false
  Beneath _ _ := True

def bareHost : Host seventh where
  isDir _ := false
  openPath _ := none
  stable _ _ opened := by cases opened

/-- At interface 7 the confined process may use TCP, and no reason says so. -/
theorem restrictSelf_undisclosed :
    unenforcedReasons 7 "install" =
      ["install_metadata_syscalls_unrestricted", "install_udp_egress_unrestricted"] ∧
    ∃ process ruleset, run (restrictSelf bareHost (fun _ _ => none) [] []) {} = (.ok (), process) ∧
      process.confinement = some ruleset ∧ ¬seventh.Restricts ruleset .tcp ∧
      ¬Promise bareHost [] [] "install" := by
  refine ⟨by decide, _, _, rfl, rfl, fun restricted => restricted rfl, ?_⟩
  intro promise
  obtain ⟨ruleset, inside, confined⟩ := promise.confined (fun _ _ => none) _ rfl
  cases inside
  obtain ⟨text, member, same⟩ := confined.complete .tcp fun restricted => restricted rfl
  cases same
  exact absurd member (by decide)

end Disclosure

end CodeCalc.Landlock
