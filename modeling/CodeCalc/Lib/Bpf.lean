import Mathlib.Data.List.Basic

/-! Classic BPF as a packet filter runs it: one accumulator, absolute word
loads, forward conditional jumps. -/
namespace CodeCalc.Lib.Bpf

/-- `struct sock_filter`. -/
structure Instruction where
  code : UInt16
  jt : UInt8
  jf : UInt8
  k : UInt32
  deriving DecidableEq, Repr

abbrev Program := List Instruction

def LD : UInt16 := 0x00
def W : UInt16 := 0x00
def ABS : UInt16 := 0x20
def JMP : UInt16 := 0x05
def JEQ : UInt16 := 0x10
def JGE : UInt16 := 0x30
def RET : UInt16 := 0x06
def K : UInt16 := 0x00

structure Machine where
  pc : Nat
  accumulator : UInt32
  deriving DecidableEq, Repr

inductive Outcome where
  | next (machine : Machine)
  | returned (value : UInt32)
  /-- The program counter left the program, the load left the data, or the
  instruction is none of these. -/
  | fault
  deriving DecidableEq, Repr

section Semantics

variable (load : UInt32 → Option UInt32) (program : Program)

def jump (machine : Machine) (taken : Bool) (instruction : Instruction) : Outcome :=
  .next ⟨machine.pc + 1 + (if taken then instruction.jt else instruction.jf).toNat,
    machine.accumulator⟩

def step (machine : Machine) : Outcome :=
  match program[machine.pc]? with
  | none => .fault
  | some instruction =>
    if instruction.code = LD ||| W ||| ABS then
      match load instruction.k with
      | some word => .next ⟨machine.pc + 1, word⟩
      | none => .fault
    else if instruction.code = JMP ||| JEQ ||| K then
      jump machine (machine.accumulator == instruction.k) instruction
    else if instruction.code = JMP ||| JGE ||| K then
      jump machine (instruction.k ≤ machine.accumulator) instruction
    else if instruction.code = RET ||| K then .returned instruction.k
    else .fault

/-- `none` is a run that is still going. -/
def run : Nat → Machine → Option Outcome
  | 0, _ => none
  | fuel + 1, machine =>
    match step load program machine with
    | .next machine => run fuel machine
    | outcome => some outcome

/-- Started at the first instruction with a cleared accumulator. -/
def execute : Option Outcome := run load program (program.length + 1) ⟨0, 0⟩

variable {load program}

variable {pc fuel : Nat} {accumulator k : UInt32} {jt jf : UInt8}

theorem run_load {word : UInt32} (fetch : program[pc]? = some ⟨LD ||| W ||| ABS, 0, 0, k⟩)
    (loaded : load k = some word) :
    run load program (fuel + 1) ⟨pc, accumulator⟩ = run load program fuel ⟨pc + 1, word⟩ := by
  rw [run, step, fetch]
  simp [loaded]

theorem run_jeq (fetch : program[pc]? = some ⟨JMP ||| JEQ ||| K, jt, jf, k⟩) :
    run load program (fuel + 1) ⟨pc, accumulator⟩ =
      run load program fuel
        ⟨pc + 1 + (if accumulator = k then jt else jf).toNat, accumulator⟩ := by
  rw [run, step, fetch]
  have other : (JMP ||| JEQ ||| K : UInt16) ≠ LD ||| W ||| ABS := by decide
  simp only [if_neg other, if_true, jump, beq_iff_eq]

theorem run_jge (fetch : program[pc]? = some ⟨JMP ||| JGE ||| K, jt, jf, k⟩) :
    run load program (fuel + 1) ⟨pc, accumulator⟩ =
      run load program fuel
        ⟨pc + 1 + (if k ≤ accumulator then jt else jf).toNat, accumulator⟩ := by
  rw [run, step, fetch]
  have load : (JMP ||| JGE ||| K : UInt16) ≠ LD ||| W ||| ABS := by decide
  have equal : (JMP ||| JGE ||| K : UInt16) ≠ JMP ||| JEQ ||| K := by decide
  simp only [if_neg load, if_neg equal, if_true, jump, decide_eq_true_eq]

theorem run_ret (fetch : program[pc]? = some ⟨RET ||| K, 0, 0, k⟩) :
    run load program (fuel + 1) ⟨pc, accumulator⟩ = some (.returned k) := by
  rw [run, step, fetch]
  have load : (RET ||| K : UInt16) ≠ LD ||| W ||| ABS := by decide
  have equal : (RET ||| K : UInt16) ≠ JMP ||| JEQ ||| K := by decide
  have greater : (RET ||| K : UInt16) ≠ JMP ||| JGE ||| K := by decide
  simp only [if_neg load, if_neg equal, if_neg greater, if_true]

end Semantics
end CodeCalc.Lib.Bpf
