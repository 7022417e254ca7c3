import CodeCalc.Platform.Seccomp

/-! `spawn_and_wait` on Unix: the child between fork and exec, and what the
parent reports about it. -/
namespace CodeCalc.Platform
open Lib Seccomp

section Child

/-- What one call meets on the host. -/
structure Host where
  /-- `prctl(PR_GET_SECCOMP)` gives a mode. -/
  seccompMode : Bool
  /-- A signal ends the child before it comes to the install. -/
  killed : Bool
  /-- `getppid()` as the child reads it. -/
  parentPid : Nat
  noNewPrivs : Bool
  setSeccomp : Bool
  execve : Bool

/-- A child that `spawn` returned. -/
structure Child where
  filter : Option Bpf.Program
  reachedExec : Bool
  deriving DecidableEq, Repr

inductive PreExec where
  /-- The child was gone before its closure returned. -/
  | ended
  | refused
  | done (filter : Option Bpf.Program)
  deriving DecidableEq, Repr

variable (host : Host)

def install (program : Bpf.Program) : PreExec :=
  if !host.noNewPrivs then .refused
  else if !host.setSeccomp then .refused
  else .done (some program)

/-- The child has lost its parent, or a signal reached it first. -/
def Host.endsEarly (linux : Bool) : Bool := host.killed || (linux && host.parentPid == 1)

def preExec (linux : Bool) (netFilter : Option Bpf.Program) : PreExec :=
  if host.endsEarly linux then .ended
  else match netFilter with
    | some program => install host program
    | none => .done none

/-- `Command::spawn` reads the error its child writes before exec: a child that
ended without one counts as started. -/
def spawn (linux : Bool) (netFilter : Option Bpf.Program) : Except Unit Child :=
  match preExec host linux netFilter with
  | .ended => .ok ⟨none, false⟩
  | .refused => .error ()
  | .done filter => if host.execve then .ok ⟨filter, true⟩ else .error ()

end Child

section Wait

/-- What `wait4` and the clock say of the child. -/
structure Reaped where
  exitCode : Int
  signal : Option Int
  timedOut : Bool
  cpuMs : Nat
  peakMemoryKb : Nat
  deriving DecidableEq, Repr

structure Wait extends Reaped where
  noNetSeccompEnforced : Bool
  unenforced : List String
  deriving DecidableEq, Repr

/-- The limits `spawn_and_wait` reads: `no_net`, and what `resolve` could not apply. -/
structure Limits where
  noNet : Bool
  unenforced : List String
  deriving DecidableEq, Repr

variable (host : Host) (target : Option Target) (limits : Limits) (reaped : Except Unit Reaped)

/-- `target` is `none` off Linux. -/
def netFilter : Option Bpf.Program :=
  match target with
  | some target => if limits.noNet && host.seccompMode then some (filter target) else none
  | none => none

/-- The child is returned beside the report on it. -/
def spawnAndWait : Except Unit (Wait × Child) :=
  let netFilter := netFilter host target limits
  match spawn host target.isSome netFilter with
  | .error _ => .error ()
  | .ok child =>
    match reaped with
    | .error _ => .error ()
    | .ok reaped => .ok (⟨reaped, netFilter.isSome, limits.unenforced⟩, child)

/-- A report of enforcement is about a child that carries the filter. -/
def EnforcedIsInstalled : Prop :=
  ∀ wait child, spawnAndWait host target limits reaped = .ok (wait, child) →
    wait.noNetSeccompEnforced = true → ∃ target', target = some target' ∧
      child.filter = some (filter target') ∧ child.reachedExec = true

variable {host target limits reaped}

theorem spawn_of_lives {linux : Bool} {netFilter : Option Bpf.Program} {child : Child}
    (lives : host.endsEarly linux = false) (h : spawn host linux netFilter = .ok child) :
    child = ⟨netFilter, true⟩ := by
  unfold spawn preExec at h
  rw [lives] at h
  cases netFilter with
  | none =>
    simp only [Bool.false_eq_true, if_false] at h
    split at h <;> cases h
    rfl
  | some program =>
    simp only [Bool.false_eq_true, if_false, install] at h
    cases privs : host.noNewPrivs <;> cases set : host.setSeccomp <;>
      cases exec : host.execve <;> simp_all

theorem netFilter_eq_some {program : Bpf.Program} (h : netFilter host target limits = some program) :
    limits.noNet = true ∧ host.seccompMode = true ∧
      ∃ target', target = some target' ∧ program = filter target' := by
  unfold netFilter at h
  cases target with
  | none => cases h
  | some target' =>
    dsimp only at h
    split at h
    case isTrue on =>
      rw [Bool.and_eq_true] at on
      rw [Option.some.injEq] at h
      exact ⟨on.1, on.2, target', rfl, h.symm⟩
    case isFalse => cases h

theorem spawnAndWait_eq_ok {wait : Wait} {child : Child}
    (h : spawnAndWait host target limits reaped = .ok (wait, child)) :
    spawn host target.isSome (netFilter host target limits) = .ok child ∧ reaped.isOk = true ∧
      wait.noNetSeccompEnforced = (netFilter host target limits).isSome := by
  unfold spawnAndWait at h
  cases spawned : spawn host target.isSome (netFilter host target limits) with
  | error _ => simp [spawned] at h
  | ok found =>
    cases hreaped : reaped with
    | error _ => simp [spawned, hreaped] at h
    | ok exit =>
      simp only [spawned, hreaped, Except.ok.injEq, Prod.mk.injEq] at h
      obtain ⟨rfl, rfl⟩ := h
      exact ⟨rfl, rfl, rfl⟩

/-- The report is right but for a child that ended before it came to the install. -/
theorem enforcedIsInstalled_iff : EnforcedIsInstalled host target limits reaped ↔
    ¬ (target.isSome = true ∧ limits.noNet = true ∧ host.seccompMode = true ∧
      host.endsEarly true = true ∧ reaped.isOk = true) := by
  constructor
  · rintro sound ⟨linux, noNet, mode, early, waited⟩
    obtain ⟨target', rfl⟩ := Option.isSome_iff_exists.mp linux
    cases reaped with
    | error _ => cases waited
    | ok exit =>
      have filtered : netFilter host (some target') limits = some (filter target') := by
        simp [netFilter, noNet, mode]
      have spawned : spawn host true (some (filter target')) = .ok ⟨none, false⟩ := by
        simp [spawn, preExec, early]
      have report : spawnAndWait host (some target') limits (.ok exit) =
          .ok (⟨exit, true, limits.unenforced⟩, ⟨none, false⟩) := by
        simp only [spawnAndWait, filtered, Option.isSome_some, spawned]
      obtain ⟨_, _, _, reached⟩ := sound _ _ report rfl
      cases reached
  · intro condition wait child h enforced
    obtain ⟨spawned, waited, flag⟩ := spawnAndWait_eq_ok h
    rw [enforced] at flag
    obtain ⟨program, hprogram⟩ := Option.isSome_iff_exists.mp flag.symm
    obtain ⟨noNet, mode, target', rfl, rfl⟩ := netFilter_eq_some hprogram
    have lives : host.endsEarly true = false := by
      cases early : host.endsEarly true with
      | false => rfl
      | true => exact absurd ⟨rfl, noNet, mode, early, waited⟩ condition
    rw [hprogram] at spawned
    rw [spawn_of_lives lives spawned]
    exact ⟨target', rfl, rfl, rfl⟩

/-- On every record the filter returns, and what it returns is the answer asked
for; the report of enforcement is right exactly when no unfiltered child has
ended before its exec. -/
theorem noNet_exact_iff (host : Host) (target : Option Target) (limits : Limits)
    (reaped : Except Unit Reaped) :
    (∀ native data, ∃ value, Bpf.execute data.load (filter native) = some (.returned value) ∧
      Answers native data value) ∧
    (EnforcedIsInstalled host target limits reaped ↔
      ¬ (target.isSome = true ∧ limits.noNet = true ∧ host.seccompMode = true ∧
        host.endsEarly true = true ∧ reaped.isOk = true)) := by
  constructor
  · intro native data
    exact ⟨_, execute_filter native data, answers_verdict native data⟩
  · exact enforcedIsInstalled_iff

/-- The executor is process 1 of its namespace, so the child takes it for lost. -/
theorem orphan_check_reports_enforced : ¬ EnforcedIsInstalled
    ⟨true, false, 1, true, true, true⟩ (some .x86_64) ⟨true, []⟩ (.ok ⟨1, none, false, 0, 0⟩) := by
  intro sound
  obtain ⟨_, _, _, reached⟩ := sound ⟨⟨1, none, false, 0, 0⟩, true, []⟩ ⟨none, false⟩ rfl rfl
  cases reached

end Wait
end CodeCalc.Platform
