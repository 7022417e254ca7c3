import CodeCalc.Supervision.Lifecycle

/-! Any number of threads calling one supervisor.  A step is one locked region,
or the completion of a worker; `wait` and `cancel` take two, and between them a
thread holds nothing but the run it asked about.  Every step of this system is
a sequence of lifecycle changes, which is how the invariants get here. -/
namespace CodeCalc.Supervision
open Lib Lib.Effect Relation

/-- Where a thread stands between two locked regions. -/
inductive Pc where
  | idle
  | waiting (runId : String)
  | cancelling (runId : String)

structure System where
  supervisor : Supervisor
  threads : Nat → Pc

inductive Action where
  | start (call : StartCall)
  | inspect (runId : String)
  | waitEnter (thread : Nat) (runId : String)
  | waitEnd (thread : Nat)
  | cancelEnter (thread : Nat) (runId : String)
  | cancelReturn (thread : Nat) (answer : Except Exc Unit)
  | cleanup (runId : String) (answer : Except Exc Unit)
  | complete (runId : String) (outcome : Outcome)

/-- A reply, an exception, or nothing yet from a call that goes on. -/
abbrev Response := Except Exc (Option Fields)

namespace System

def goto (system : System) (thread : Nat) (pc : Pc) : System :=
  { system with threads := Function.update system.threads thread pc }

def call {α : Type} (system : System) (method : Method α) (reply : α → Option Fields) :
    Response × System :=
  let outcome := Effect.run method system.supervisor
  (outcome.1.map reply, { system with supervisor := outcome.2 })

@[simp] theorem supervisor_goto (system : System) (thread : Nat) (pc : Pc) :
    (system.goto thread pc).supervisor = system.supervisor := rfl

@[simp] theorem supervisor_call {α : Type} (system : System) (method : Method α)
    (reply : α → Option Fields) :
    (system.call method reply).2.supervisor = (Effect.run method system.supervisor).2 := rfl

end System

def exec (config : Config) (env : Env) (system : System) : Action → Response × System
  | .start call => system.call (start config env call) fun handle => some handle.asDict
  | .inspect runId => system.call (inspect config env runId) some
  | .waitEnter thread runId =>
      match system.call (getRun runId) fun _ => none with
      | (.ok reply, after) => (.ok reply, after.goto thread (.waiting runId))
      | raised => raised
  | .waitEnd thread =>
      match system.threads thread with
      | .waiting runId =>
          let (reply, after) := system.call (waitResume config env runId) some
          (reply, after.goto thread .idle)
      | _ => (.ok none, system)
  | .cancelEnter thread runId =>
      match system.call (cancelEnter env runId) id with
      | (.ok none, after) => (.ok none, after.goto thread (.cancelling runId))
      | answered => answered
  | .cancelReturn thread answer =>
      match system.threads thread with
      | .cancelling runId =>
          let (reply, after) := system.call (cancelReturn env runId answer) some
          (reply, after.goto thread .idle)
      | _ => (.ok none, system)
  | .cleanup runId answer => system.call (cleanup config env runId answer) some
  | .complete runId outcome => system.call (complete runId outcome) fun _ => none

/-- `uuid4` returns an id nothing carries yet, and a thread starts a call only
after it has finished the last one. -/
def Enabled (system : System) : Action → Prop
  | .start call => system.supervisor.Fresh call.uuid
  | .waitEnter thread _ | .cancelEnter thread _ => system.threads thread = .idle
  | .waitEnd thread => ∃ runId, system.threads thread = .waiting runId
  | .cancelReturn thread _ => ∃ runId, system.threads thread = .cancelling runId
  | _ => True

/-- The action keeps to the policy: writes succeed if it says so, and `cleanup`
reaches only the records it names. -/
def Policy.Permits (policy : Policy) (env : Env) (system : System) (action : Action) : Prop :=
  policy.Honoured env ∧ ∀ runId answer run, action = .cleanup runId answer →
    system.supervisor.runs.get runId = some run → run.cleaned = false → policy.cleanable run

theorem Policy.any_permits (env : Env) (system : System) (action : Action) :
    Policy.any.Permits env system action :=
  ⟨fun durable => durable.elim, fun _ _ _ _ _ _ => trivial⟩

def Step (config : Config) (policy : Policy) (before after : System) : Prop :=
  ∃ env action, Enabled before action ∧ policy.Permits env before action ∧
    after = (exec config env before action).2

def initial (dir : StateDir) (workdirs : Dict String Identity) : System where
  supervisor := ⟨.empty, dir, workdirs, []⟩
  threads := fun _ => .idle

/-- A state of a supervisor that began on this directory. -/
def Reachable (config : Config) (policy : Policy) (dir : StateDir) (system : System) : Prop :=
  ∃ workdirs, ReflTransGen (Step config policy) (initial dir workdirs) system

variable {config : Config} {policy : Policy} {env : Env}

private theorem getRun_keeps (runId : String) (supervisor : Supervisor) :
    (Effect.run (getRun runId) supervisor).2 = supervisor := by
  cases found : supervisor.runs.get runId <;> simp [found]

/-- Every step of the threads is a sequence of lifecycle changes. -/
theorem exec_follows {system : System} {action : Action} (enabled : Enabled system action)
    (permitted : policy.Permits env system action) :
    ReflTransGen (Change config policy) system.supervisor
      (exec config env system action).2.supervisor := by
  obtain ⟨honoured, allowed⟩ := permitted
  cases action with
  | start call => exact start_follows honoured call _ enabled.unknown enabled.unreleased
  | inspect runId => exact touches_are_changes (inspect_follows honoured runId _)
  | waitEnter thread runId =>
    have hkeeps := getRun_keeps runId system.supervisor
    simp only [exec]
    split
    · rename_i reply after heq
      have := congrArg (fun outcome => outcome.2.supervisor) heq
      simp only [System.supervisor_call, hkeeps] at this
      rw [System.supervisor_goto, ← this]
    · rw [System.supervisor_call, hkeeps]
  | waitEnd thread =>
    simp only [exec]
    split
    · rename_i runId _
      exact touches_are_changes (waitResume_follows honoured runId _)
    · exact .refl
  | cancelEnter thread runId =>
    have hfollows := touches_are_changes
      (@cancelEnter_follows config policy env honoured runId system.supervisor)
    simp only [exec]
    split
    · rename_i after heq
      have := congrArg (fun outcome => outcome.2.supervisor) heq
      simp only [System.supervisor_call] at this
      rw [System.supervisor_goto, ← this]
      exact hfollows
    · exact hfollows
  | cancelReturn thread answer =>
    simp only [exec]
    split
    · rename_i runId _
      exact touches_are_changes (cancelReturn_follows honoured runId answer _)
    · exact .refl
  | cleanup runId answer =>
    exact touches_are_changes (cleanup_follows honoured runId answer _
      fun run found hcleaned => allowed runId answer run rfl found hcleaned)
  | complete runId outcome => exact touches_are_changes (complete_follows runId outcome _)

theorem changes_keep {invariant : Supervisor → Prop}
    (change : ∀ before after, Change config policy before after →
      invariant before → invariant after)
    {first last : Supervisor} (changes : ReflTransGen (Change config policy) first last)
    (holds : invariant first) : invariant last := by
  induction changes with
  | refl => exact holds
  | tail _ next ih => exact change _ _ next ih

/-- A preorder on supervisors that holds across every change holds across
every run of the threads. -/
theorem steps_follow {relation : Supervisor → Supervisor → Prop}
    [IsPreorder Supervisor relation]
    (change : ∀ before after, Change config policy before after → relation before after)
    {before after : System} (steps : ReflTransGen (Step config policy) before after) :
    relation before.supervisor after.supervisor := by
  have hchanges {first last : Supervisor}
      (changes : ReflTransGen (Change config policy) first last) : relation first last := by
    induction changes with
    | refl => exact Std.Refl.refl first
    | tail _ next ih => exact IsTrans.trans _ _ _ ih (change _ _ next)
  induction steps with
  | refl => exact Std.Refl.refl _
  | tail _ step ih =>
    obtain ⟨env, action, enabled, permitted, rfl⟩ := step
    exact IsTrans.trans _ _ _ ih (hchanges (exec_follows enabled permitted))

theorem reachable_invariant {invariant : Supervisor → Prop}
    (change : ∀ before after, Change config policy before after →
      invariant before → invariant after)
    {dir : StateDir} {system : System} (reachable : Reachable config policy dir system)
    (start : ∀ workdirs, invariant ⟨.empty, dir, workdirs, []⟩) : invariant system.supervisor := by
  obtain ⟨workdirs, steps⟩ := reachable
  have : IsPreorder Supervisor (fun before after => invariant before → invariant after) :=
    { refl := fun _ => id, trans := fun _ _ _ first second => second ∘ first }
  exact steps_follow change steps (start workdirs)

/-- The system after a script of actions, each with its own environment. -/
def play (config : Config) (system : System) : List (Env × Action) → System
  | [] => system
  | (env, action) :: rest => play config (exec config env system action).2 rest

/-- Every action of the script is one the system can take when it comes up. -/
def Playable (config : Config) (policy : Policy) (system : System) : List (Env × Action) → Prop
  | [] => True
  | (env, action) :: rest => Enabled system action ∧ policy.Permits env system action ∧
      Playable config policy (exec config env system action).2 rest

theorem steps_of_playable {system : System} {script : List (Env × Action)}
    (playable : Playable config policy system script) :
    ReflTransGen (Step config policy) system (play config system script) := by
  induction script generalizing system with
  | nil => exact .refl
  | cons head rest ih =>
    obtain ⟨env, action⟩ := head
    obtain ⟨enabled, permitted, tail⟩ := playable
    exact .head ⟨env, action, enabled, permitted, rfl⟩ (ih tail)

/-- A provider that manages its runs and can clean them up, behind a cap of
one. -/
def managedProvider : Provider := ⟨"managed", ⟨true, true, true⟩⟩

def singleSlot : Config where
  registry := ⟨"managed", none, Dict.empty.set "managed" managedProvider⟩
  maxActiveRuns := 1

/-- An environment in which nothing fails. -/
def calm : Env where
  time := 0
  write := fun _ _ => .ok 0
  removes := fun _ => true
  attachReceipt := fun _ result => .ok result

def startCall (uuid : String) : StartCall where
  spec := { language := "python3", code := "" }
  uuid := uuid

end CodeCalc.Supervision
