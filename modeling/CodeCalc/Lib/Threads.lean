import Mathlib.Logic.Relation
import Mathlib.Data.List.Basic

/-! Programs over atomic operations, run alone or any number at a time.  An
operation takes effect in one step; between two operations of one program the
others may do anything.  A program meets a contract when each operation finds
what it relies on at the moment the program comes to it, whatever valid states
the others leave behind in between. -/
namespace CodeCalc.Lib

inductive Prog (Op : Type) (Answer : Op → Type) (α : Type) where
  | done (value : α)
  | call (op : Op) (next : Answer op → Prog Op Answer α)

variable {Op : Type} {Answer : Op → Type} {α β σ ε : Type}

namespace Prog

def bind : Prog Op Answer α → (α → Prog Op Answer β) → Prog Op Answer β
  | done value, next => next value
  | call op resume, next => call op fun answer => (resume answer).bind next

instance : Monad (Prog Op Answer) where
  pure := done
  bind := bind

def perform (op : Op) : Prog Op Answer (Answer op) := call op done

@[simp] theorem pure_eq (value : α) : (pure value : Prog Op Answer α) = done value := rfl

@[simp] theorem done_bind (value : α) (next : α → Prog Op Answer β) :
    (done value >>= next) = next value := rfl

@[simp] theorem call_bind (op : Op) (resume : Answer op → Prog Op Answer α)
    (next : α → Prog Op Answer β) :
    (call op resume >>= next) = call op fun answer => resume answer >>= next := rfl

@[simp] theorem perform_bind (op : Op) (next : Answer op → Prog Op Answer β) :
    (perform op >>= next) = call op next := rfl

/-- The operation a program comes to next. -/
def head? : Prog Op Answer α → Option Op
  | done _ => none
  | call op _ => some op

theorem eq_call_of_head? {program : Prog Op Answer α} {op : Op} (head : program.head? = some op) :
    ∃ next, program = call op next := by
  cases program with
  | done value => cases head
  | call first next =>
    cases head
    exact ⟨next, rfl⟩

/-- What a program that is over has come to. -/
def value? : Prog Op Answer α → Option α
  | done value => some value
  | call _ _ => none

theorem eq_done_of_value? {program : Prog Op Answer α} {value : α}
    (ended : program.value? = some value) : program = done value := by
  cases program with
  | done result =>
    cases ended
    rfl
  | call op next => cases ended

/-- The program performs no other operations than these. -/
def Uses (among : Op → Prop) : Prog Op Answer α → Prop
  | done _ => True
  | call op next => among op ∧ ∀ answer, (next answer).Uses among

theorem Uses.bind {among : Op → Prop} {first : Prog Op Answer α} {next : α → Prog Op Answer β}
    (uses : first.Uses among) (rest : ∀ value, (next value).Uses among) :
    (first >>= next).Uses among := by
  induction first with
  | done value => exact rest value
  | call op resume ih => exact ⟨uses.1, fun answer => ih answer (uses.2 answer)⟩

theorem Uses.mono {among wider : Op → Prop} {program : Prog Op Answer α} (uses : program.Uses among)
    (weaken : ∀ op, among op → wider op) : program.Uses wider := by
  induction program with
  | done value => trivial
  | call op next ih => exact ⟨weaken op uses.1, fun answer => ih answer (uses.2 answer)⟩

end Prog

/-- How an operation answers and what it leaves behind, given what it finds
outside the state. -/
abbrev Machine (Op : Type) (Answer : Op → Type) (σ ε : Type) : Type :=
  ε → (op : Op) → σ → Answer op × σ

section Alone

variable {machine : Machine Op Answer σ ε} {allowed : ε → σ → Op → Prop}

/-- A program that nothing interrupts, from a state to its result. -/
inductive Alone (machine : Machine Op Answer σ ε) (allowed : ε → σ → Op → Prop) :
    Prog Op Answer α → σ → α → σ → Prop
  | done (value state) : Alone machine allowed (.done value) state value state
  | call (env op next state value after) (met : allowed env state op)
      (rest : Alone machine allowed (next (machine env op state).1) (machine env op state).2
        value after) :
      Alone machine allowed (.call op next) state value after

theorem alone_done {value result : α} {state after : σ}
    (run : Alone machine allowed (.done value) state result after) :
    result = value ∧ after = state := by
  cases run
  exact ⟨rfl, rfl⟩

theorem alone_call {op : Op} {next : Answer op → Prog Op Answer α} {value : α} {state after : σ}
    (run : Alone machine allowed (.call op next) state value after) :
    ∃ env, allowed env state op ∧
      Alone machine allowed (next (machine env op state).1) (machine env op state).2 value after := by
  cases run with
  | call env op next state value after met rest => exact ⟨env, met, rest⟩

theorem alone_bind {program : Prog Op Answer α} {next : α → Prog Op Answer β} {value : β}
    {state after : σ} (run : Alone machine allowed (program >>= next) state value after) :
    ∃ first middle, Alone machine allowed program state first middle ∧
      Alone machine allowed (next first) middle value after := by
  induction program generalizing state with
  | done first => exact ⟨first, state, .done first state, run⟩
  | call op resume ih =>
    obtain ⟨env, met, rest⟩ := alone_call run
    obtain ⟨first, middle, before, last⟩ := ih _ rest
    exact ⟨first, middle, .call env op resume state first middle met before, last⟩

theorem alone_mono {wider : ε → σ → Op → Prop} (weaken : ∀ env state op, allowed env state op →
      wider env state op) {program : Prog Op Answer α} {value : α} {state after : σ}
    (run : Alone machine allowed program state value after) :
    Alone machine wider program state value after := by
  induction run with
  | done value state => exact .done value state
  | call env op next state value after met _ ih =>
    exact .call env op next state value after (weaken env state op met) ih

theorem Alone.bind {program : Prog Op Answer α} {next : α → Prog Op Answer β} {first : α} {value : β}
    {state middle after : σ} (run : Alone machine allowed program state first middle)
    (rest : Alone machine allowed (next first) middle value after) :
    Alone machine allowed (program >>= next) state value after := by
  induction run with
  | done value state => exact rest
  | call env op resume state value middle met _ ih => exact .call env op _ state _ after met (ih rest)

theorem Alone.uses {among : Op → Prop} {program : Prog Op Answer α} {value : α} {state after : σ}
    (run : Alone machine allowed program state value after) (uses : program.Uses among) :
    Alone machine (fun env state op => allowed env state op ∧ among op) program state value after := by
  induction run with
  | done value state => exact .done value state
  | call env op next state value after met _ ih =>
    exact .call env op next state value after ⟨met, uses.1⟩ (ih (uses.2 _))

/-- The run in which the program finds these, one a step, if each is allowed. -/
def Prog.follow (machine : Machine Op Answer σ ε) (check : ε → σ → Op → Bool) :
    List ε → Prog Op Answer α → σ → Option (α × σ)
  | _, .done value, state => some (value, state)
  | [], .call _ _, _ => none
  | env :: rest, .call op next, state =>
      if check env state op then
        follow machine check rest (next (machine env op state).1) (machine env op state).2
      else none

theorem alone_of_follow {check : ε → σ → Op → Bool}
    (sound : ∀ env state op, check env state op = true → allowed env state op) {script : List ε}
    {program : Prog Op Answer α} {state : σ} {value : α} {after : σ}
    (followed : program.follow machine check script state = some (value, after)) :
    Alone machine allowed program state value after := by
  induction script generalizing program state with
  | nil =>
    cases program with
    | done result =>
      cases followed
      exact .done value after
    | call op next => cases followed
  | cons env rest ih =>
    cases program with
    | done result =>
      cases followed
      exact .done value after
    | call op next =>
      simp only [Prog.follow] at followed
      split at followed
      · rename_i met
        exact .call env op next state value after (sound _ _ _ met) (ih followed)
      · cases followed

end Alone

/-- Programs side by side on one state. -/
structure Pool (Op : Type) (Answer : Op → Type) (ρ σ : Type) where
  state : σ
  threads : List (Prog Op Answer ρ)

namespace Pool

variable {ρ : Type} {machine : Machine Op Answer σ ε} {entry : Prog Op Answer ρ → Prop}
  {allowed : ε → Pool Op Answer ρ σ → Op → Prop}

/-- A program arrives, or one of them performs its next operation. -/
inductive Step (machine : Machine Op Answer σ ε) (entry : Prog Op Answer ρ → Prop)
    (allowed : ε → Pool Op Answer ρ σ → Op → Prop) (pool : Pool Op Answer ρ σ) :
    Pool Op Answer ρ σ → Prop
  | arrive (program) (known : entry program) :
      Step machine entry allowed pool ⟨pool.state, pool.threads ++ [program]⟩
  | advance (env thread op next) (standing : pool.threads[thread]? = some (.call op next))
      (met : allowed env pool op) :
      Step machine entry allowed pool
        ⟨(machine env op pool.state).2, pool.threads.set thread (next (machine env op pool.state).1)⟩

abbrev Steps (machine : Machine Op Answer σ ε) (entry : Prog Op Answer ρ → Prop)
    (allowed : ε → Pool Op Answer ρ σ → Op → Prop) :
    Pool Op Answer ρ σ → Pool Op Answer ρ σ → Prop :=
  Relation.ReflTransGen (Step machine entry allowed)

/-- A request, or the next operation of one of the programs. -/
inductive Move (Op : Type) (Answer : Op → Type) (ρ ε : Type) where
  | ask (program : Prog Op Answer ρ)
  | go (thread : Nat) (env : ε)

/-- The pool a move leads to; nothing moves a program that is done. -/
def play (machine : Machine Op Answer σ ε) (pool : Pool Op Answer ρ σ) :
    Move Op Answer ρ ε → Pool Op Answer ρ σ
  | .ask program => ⟨pool.state, pool.threads ++ [program]⟩
  | .go thread env =>
      match pool.threads[thread]? with
      | some (.call op next) =>
          ⟨(machine env op pool.state).2, pool.threads.set thread (next (machine env op pool.state).1)⟩
      | _ => pool

/-- Each move of the script is a step of a run when it comes up. -/
def Playable (machine : Machine Op Answer σ ε) (entry : Prog Op Answer ρ → Prop)
    (allowed : ε → Pool Op Answer ρ σ → Op → Prop) (pool : Pool Op Answer ρ σ) :
    List (Move Op Answer ρ ε) → Prop
  | [] => True
  | move :: rest =>
      (match move with
        | .ask program => entry program
        | .go thread env => ∀ op ∈ (pool.threads[thread]?).bind Prog.head?, allowed env pool op) ∧
      Playable machine entry allowed (play machine pool move) rest

theorem steps_of_playable (pool : Pool Op Answer ρ σ) (script : List (Move Op Answer ρ ε))
    (playable : Playable machine entry allowed pool script) :
    Steps machine entry allowed pool (script.foldl (play machine) pool) := by
  induction script generalizing pool with
  | nil => exact .refl
  | cons move rest ih =>
    obtain ⟨now, later⟩ := playable
    cases move with
    | ask program => exact .head (.arrive program now) (ih _ later)
    | go thread env =>
      have onward := ih _ later
      rw [List.foldl_cons]
      by_cases calls : ∃ op next, pool.threads[thread]? = some (.call op next)
      · obtain ⟨op, next, standing⟩ := calls
        have moved : play machine pool (.go thread env) = ⟨(machine env op pool.state).2,
            pool.threads.set thread (next (machine env op pool.state).1)⟩ := by
          simp only [play, standing]
        rw [moved] at onward ⊢
        exact .head (.advance env thread op next standing (now op (by rw [standing]; rfl))) onward
      · have still : play machine pool (.go thread env) = pool := by
          simp only [play]
          split
          · rename_i op next standing
            exact absurd ⟨op, next, standing⟩ calls
          · rfl
        rwa [still] at onward ⊢

theorem steps_keep {before after : Pool Op Answer ρ σ} (property : σ → Prop)
    (each : ∀ env pool op, allowed env pool op → property pool.state →
      property (machine env op pool.state).2)
    (run : Steps machine entry allowed before after) (holds : property before.state) :
    property after.state := by
  induction run with
  | refl => exact holds
  | tail _ step ih =>
    cases step with
    | arrive program known => exact ih
    | advance env thread op next standing met => exact each env _ op met ih

theorem threads_grow {before after : Pool Op Answer ρ σ}
    (run : Steps machine entry allowed before after) :
    before.threads.length ≤ after.threads.length := by
  induction run with
  | refl => exact Nat.le_refl _
  | tail _ step ih =>
    cases step with
    | arrive program known =>
      rw [List.length_append]
      exact Nat.le_trans ih (Nat.le_add_right _ _)
    | advance env thread op next standing met =>
      rw [List.length_set]
      exact ih

end Pool

/-- What a program may rely on and has to see to.  `grows` bounds what happens
between two of its operations; `ready` is what it owes at the moment it comes to
an operation, and `post` what it owes of its result. -/
structure Contract (Op : Type) (Answer : Op → Type) (α σ ε : Type) where
  machine : Machine Op Answer σ ε
  valid : σ → Prop
  grows : σ → σ → Prop
  allowed : ε → σ → Op → Prop
  ready : Op → σ → Prop
  post : α → Prop

inductive Safe (contract : Contract Op Answer α σ ε) : Prog Op Answer α → σ → Prop
  | done (value state) (owed : contract.post value) : Safe contract (.done value) state
  | call (op next state) (ready : contract.ready op state)
      (rest : ∀ env later, contract.valid later → contract.grows state later →
        contract.allowed env later op →
        Safe contract (next (contract.machine env op later).1) (contract.machine env op later).2) :
      Safe contract (.call op next) state

namespace Safe

variable {contract : Contract Op Answer α σ ε}

theorem owed {value : α} {state : σ} (safe : Safe contract (.done value) state) :
    contract.post value := by
  cases safe
  assumption

theorem readiness {op : Op} {next : Answer op → Prog Op Answer α} {state : σ}
    (safe : Safe contract (.call op next) state) : contract.ready op state := by
  cases safe
  assumption

theorem onward {op : Op} {next : Answer op → Prog Op Answer α} {state later : σ} {env : ε}
    (safe : Safe contract (.call op next) state) (valid : contract.valid later)
    (grown : contract.grows state later) (met : contract.allowed env later op) :
    Safe contract (next (contract.machine env op later).1) (contract.machine env op later).2 := by
  cases safe with
  | call op next state ready rest => exact rest env later valid grown met

/-- A program whose operations are always ready owes only its result. -/
theorem of_uses {program : Prog Op Answer α} {among : Op → Prop} (state : σ)
    (uses : program.Uses among) (ready : ∀ op state, among op → contract.ready op state)
    (post : ∀ value, contract.post value) : Safe contract program state := by
  induction program generalizing state with
  | done value => exact .done value state (post value)
  | call op next ih =>
    apply Safe.call op next state (ready op state uses.1)
    intro env later _ _ _
    exact ih _ _ (uses.2 _)

end Safe

structure Pool.Watched {ρ : Type} (contract : Contract Op Answer ρ σ ε) (watched : Nat → Prop)
    (pool : Pool Op Answer ρ σ) : Prop where
  valid : contract.valid pool.state
  safe : ∀ thread program, watched thread → pool.threads[thread]? = some program →
    ∃ since, Safe contract program since ∧ contract.grows since pool.state

section Runs

variable {ρ : Type} {contract : Contract Op Answer ρ σ ε} {entry : Prog Op Answer ρ → Prop}
  {allowed : ε → Pool Op Answer ρ σ → Op → Prop} {watched : Nat → Prop}
  {before after : Pool Op Answer ρ σ}

namespace Pool

theorem Watched.step (start : Watched contract watched before)
    (refl : ∀ state, contract.grows state state)
    (trans : ∀ {first second third}, contract.grows first second → contract.grows second third →
      contract.grows first third)
    (guarantee : ∀ env pool op, allowed env pool op → contract.valid pool.state →
      contract.allowed env pool.state op ∧ contract.valid (contract.machine env op pool.state).2 ∧
        contract.grows pool.state (contract.machine env op pool.state).2)
    (arrival : ∀ program, entry program → watched before.threads.length →
      contract.valid before.state → Safe contract program before.state)
    (step : Step contract.machine entry allowed before after) : Watched contract watched after := by
  cases step with
  | arrive program known =>
    refine ⟨start.valid, ?_⟩
    intro thread other seen found
    by_cases old : thread < before.threads.length
    · rw [List.getElem?_append_left old] at found
      exact start.safe thread other seen found
    · rw [List.getElem?_append_right (Nat.le_of_not_lt old), List.getElem?_singleton] at found
      split at found
      · rename_i last
        cases found
        have same : thread = before.threads.length := by omega
        exact ⟨before.state, arrival program known (same ▸ seen) start.valid, refl _⟩
      · cases found
  | advance env thread op next standing met =>
    obtain ⟨permitted, valid, grown⟩ := guarantee env before op met start.valid
    refine ⟨valid, ?_⟩
    intro other program seen found
    rw [List.getElem?_set] at found
    split at found
    · rename_i same
      subst same
      split at found
      · cases found
        obtain ⟨since, safe, kept⟩ := start.safe thread _ seen standing
        exact ⟨_, safe.onward start.valid kept permitted, refl _⟩
      · cases found
    · obtain ⟨since, safe, kept⟩ := start.safe other program seen found
      exact ⟨since, safe, trans kept grown⟩

theorem Watched.run (start : Watched contract watched before)
    (refl : ∀ state, contract.grows state state)
    (trans : ∀ {first second third}, contract.grows first second → contract.grows second third →
      contract.grows first third)
    (guarantee : ∀ env pool op, allowed env pool op → contract.valid pool.state →
      contract.allowed env pool.state op ∧ contract.valid (contract.machine env op pool.state).2 ∧
        contract.grows pool.state (contract.machine env op pool.state).2)
    (arrival : ∀ (pool : Pool Op Answer ρ σ) (program), before.threads.length ≤ pool.threads.length →
      entry program → watched pool.threads.length → contract.valid pool.state →
      Safe contract program pool.state)
    (run : Steps contract.machine entry allowed before after) : Watched contract watched after := by
  induction run with
  | refl => exact start
  | tail prior step ih =>
    exact ih.step refl trans guarantee (fun program => arrival _ program (threads_grow prior)) step

end Pool

end Runs

end CodeCalc.Lib
