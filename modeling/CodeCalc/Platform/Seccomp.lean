import CodeCalc.Lib.Bpf

/-! The `no_net` filter of the Linux executor, and what `spawn_and_wait` reports
about it. -/
namespace CodeCalc.Platform
open Lib

namespace Seccomp

/-- The targets the executor is built for. -/
inductive Target where
  | x86_64
  | aarch64
  deriving DecidableEq, Repr

section Constants

variable (target : Target)

def nativeAuditArch : UInt32 :=
  match target with
  | .x86_64 => 0xC000003E
  | .aarch64 => 0xC00000B7

def sysSocket : UInt32 :=
  match target with
  | .x86_64 => 41
  | .aarch64 => 198

def sysIoUringSetup : UInt32 := 425
def sysIoUringEnter : UInt32 := 426
def sysIoUringRegister : UInt32 := 427
def afInet : UInt32 := 2
def afInet6 : UInt32 := 10
def EACCES : UInt32 := 13
def ENOSYS : UInt32 := 38
def offNr : UInt32 := 0
def offArch : UInt32 := 4
def offArg0 : UInt32 := 16
def retData : UInt32 := 0x0000ffff
def retAllow : UInt32 := 0x7fff0000
def retErrno : UInt32 := 0x00050000
def retKillProcess : UInt32 := 0x80000000
def x32SyscallBit : UInt32 := 0x40000000

end Constants

def stmt (code : UInt16) (k : UInt32) : Bpf.Instruction := ⟨code, 0, 0, k⟩

def jeq (k : UInt32) (jt jf : UInt8) : Bpf.Instruction := ⟨Bpf.JMP ||| Bpf.JEQ ||| Bpf.K, jt, jf, k⟩

def filter (target : Target) : Bpf.Program :=
  let ld := Bpf.LD ||| Bpf.W ||| Bpf.ABS
  let ret := Bpf.RET ||| Bpf.K
  let jge := Bpf.JMP ||| Bpf.JGE ||| Bpf.K
  [stmt ld offArch,
    jeq (nativeAuditArch target) 0 13,
    stmt ld offNr,
    ⟨jge, 11, 0, x32SyscallBit⟩,
    jeq sysIoUringSetup 7 0,
    jeq sysIoUringEnter 6 0,
    jeq sysIoUringRegister 5 0,
    jeq (sysSocket target) 0 6,
    stmt ld offArg0,
    jeq afInet 3 0,
    jeq afInet6 2 0,
    stmt ret retAllow,
    stmt ret (retErrno ||| (ENOSYS &&& retData)),
    stmt ret (retErrno ||| (EACCES &&& retData)),
    stmt ret retAllow,
    stmt ret retKillProcess]

/-- `struct seccomp_data`. -/
structure Data where
  nr : UInt32
  arch : UInt32
  instructionPointer : UInt64
  args : Fin 6 → UInt64

def low (word : UInt64) : UInt32 := word.toUInt32
def high (word : UInt64) : UInt32 := (word >>> 32).toUInt32

/-- The words of the record in the order of a little-endian machine. -/
def Data.words (data : Data) : List UInt32 :=
  [data.nr, data.arch, low data.instructionPointer, high data.instructionPointer] ++
    (List.finRange 6).flatMap fun i => [low (data.args i), high (data.args i)]

/-- An absolute load: whole words inside the record only. -/
def Data.load (data : Data) (offset : UInt32) : Option UInt32 :=
  if offset.toNat % 4 = 0 then data.words[offset.toNat / 4]? else none

section Exact

/-- What the filter is for. -/
inductive Verdict where
  | kill
  | enosys
  | eacces
  | allow
  deriving DecidableEq, Repr

def Verdict.value : Verdict → UInt32
  | .kill => retKillProcess
  | .enosys => retErrno ||| ENOSYS
  | .eacces => retErrno ||| EACCES
  | .allow => retAllow

variable (target : Target) (data : Data)

/-- A foreign architecture, or a system call of the x32 range. -/
def Foreign : Prop := data.arch ≠ nativeAuditArch target ∨ x32SyscallBit ≤ data.nr

def IsIoUring : Prop :=
  data.nr = sysIoUringSetup ∨ data.nr = sysIoUringEnter ∨ data.nr = sysIoUringRegister

def IsInetSocket : Prop :=
  data.nr = sysSocket target ∧ (low (data.args 0) = afInet ∨ low (data.args 0) = afInet6)

instance : Decidable (Foreign target data) := inferInstanceAs (Decidable (_ ∨ _))
instance : Decidable (IsIoUring data) := inferInstanceAs (Decidable (_ ∨ _ ∨ _))
instance : Decidable (IsInetSocket target data) := inferInstanceAs (Decidable (_ ∧ _))

def verdict : Verdict :=
  if Foreign target data then .kill
  else if IsIoUring data then .enosys
  else if IsInetSocket target data then .eacces
  else .allow

theorem load_nr : data.load offNr = some data.nr := rfl
theorem load_arch : data.load offArch = some data.arch := rfl
theorem load_arg0 : data.load offArg0 = some (low (data.args 0)) := rfl

section Blocks

variable {target data} {fuel : Nat} {accumulator : UInt32}

theorem run_kill : Bpf.run data.load (filter target) (fuel + 1) ⟨15, accumulator⟩ =
    some (.returned Verdict.kill.value) := Bpf.run_ret rfl

theorem run_allow : Bpf.run data.load (filter target) (fuel + 1) ⟨14, accumulator⟩ =
    some (.returned Verdict.allow.value) := Bpf.run_ret rfl

theorem run_eacces : Bpf.run data.load (filter target) (fuel + 1) ⟨13, accumulator⟩ =
    some (.returned Verdict.eacces.value) := Bpf.run_ret rfl

theorem run_enosys : Bpf.run data.load (filter target) (fuel + 1) ⟨12, accumulator⟩ =
    some (.returned Verdict.enosys.value) := Bpf.run_ret rfl

theorem run_domain : Bpf.run data.load (filter target) (fuel + 4) ⟨8, accumulator⟩ =
    some (.returned (if low (data.args 0) = afInet ∨ low (data.args 0) = afInet6 then
      Verdict.eacces else .allow).value) := by
  rw [Bpf.run_load rfl (load_arg0 data), Bpf.run_jeq rfl]
  by_cases inet : low (data.args 0) = afInet
  · rw [if_pos inet, if_pos (.inl inet)]
    exact run_eacces
  · rw [if_neg inet]
    change Bpf.run data.load (filter target) (fuel + 2) ⟨10, _⟩ = _
    rw [Bpf.run_jeq rfl]
    by_cases inet6 : low (data.args 0) = afInet6
    · rw [if_pos inet6, if_pos (.inr inet6)]
      exact run_eacces
    · rw [if_neg inet6, if_neg (not_or.mpr ⟨inet, inet6⟩)]
      exact Bpf.run_ret rfl

theorem run_socket : Bpf.run data.load (filter target) (fuel + 5) ⟨7, data.nr⟩ =
    some (.returned (if IsInetSocket target data then Verdict.eacces else .allow).value) := by
  rw [Bpf.run_jeq rfl]
  by_cases socket : data.nr = sysSocket target
  · rw [if_pos socket]
    simp only [IsInetSocket, socket, true_and]
    exact run_domain
  · rw [if_neg socket, if_neg fun inet => socket inet.1]
    exact run_allow

theorem run_ioUring : Bpf.run data.load (filter target) (fuel + 8) ⟨4, data.nr⟩ =
    some (.returned (if IsIoUring data then Verdict.enosys
      else if IsInetSocket target data then .eacces else .allow).value) := by
  rw [Bpf.run_jeq rfl]
  by_cases setup : data.nr = sysIoUringSetup
  · rw [if_pos setup, if_pos (.inl setup)]
    exact run_enosys
  rw [if_neg setup]
  change Bpf.run data.load (filter target) (fuel + 7) ⟨5, _⟩ = _
  rw [Bpf.run_jeq rfl]
  by_cases enter : data.nr = sysIoUringEnter
  · rw [if_pos enter, if_pos (.inr (.inl enter))]
    exact run_enosys
  rw [if_neg enter]
  change Bpf.run data.load (filter target) (fuel + 6) ⟨6, _⟩ = _
  rw [Bpf.run_jeq rfl]
  by_cases register : data.nr = sysIoUringRegister
  · rw [if_pos register, if_pos (.inr (.inr register))]
    exact run_enosys
  have other : ¬ IsIoUring data := not_or.mpr ⟨setup, not_or.mpr ⟨enter, register⟩⟩
  rw [if_neg register, if_neg other]
  exact run_socket

end Blocks

theorem execute_filter : Bpf.execute data.load (filter target) =
    some (.returned (verdict target data).value) := by
  unfold Bpf.execute verdict
  change Bpf.run data.load (filter target) 17 ⟨0, 0⟩ = _
  rw [Bpf.run_load rfl (load_arch data), Bpf.run_jeq rfl]
  by_cases native : data.arch = nativeAuditArch target
  · rw [if_pos native]
    change Bpf.run data.load (filter target) 15 ⟨2, _⟩ = _
    rw [Bpf.run_load rfl (load_nr data), Bpf.run_jge rfl]
    by_cases x32 : x32SyscallBit ≤ data.nr
    · rw [if_pos x32, if_pos (.inr x32)]
      exact run_kill
    · have here : ¬ Foreign target data := not_or.mpr ⟨not_not.mpr native, x32⟩
      rw [if_neg x32, if_neg here]
      exact run_ioUring
  · rw [if_neg native, if_pos (.inl native)]
    exact run_kill

/-- The answer of the filter, read as the kernel reads it. -/
def Answers (value : UInt32) : Prop :=
  (value = retKillProcess ↔ Foreign target data) ∧
  (¬ Foreign target data → (value = retErrno ||| ENOSYS ↔ IsIoUring data)) ∧
  (¬ Foreign target data → ¬ IsIoUring data →
    (value = retErrno ||| EACCES ↔ IsInetSocket target data)) ∧
  (¬ Foreign target data → ¬ IsIoUring data → ¬ IsInetSocket target data → value = retAllow)

theorem answers_verdict : Answers target data (verdict target data).value := by
  unfold Answers verdict
  by_cases foreign : Foreign target data
  · simp [foreign, Verdict.value]
  by_cases ring : IsIoUring data
  · simp [foreign, ring, Verdict.value]
    decide
  by_cases inet : IsInetSocket target data
  · simp [foreign, ring, inet, Verdict.value]
    decide
  · simp [foreign, ring, inet, Verdict.value]
    decide

end Exact
end Seccomp
end CodeCalc.Platform
