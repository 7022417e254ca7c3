import Mathlib.Data.List.Chain

/-! One pass over a list that takes what is already known of and learns from what
it takes, against everything that can be reached in the list. -/
namespace CodeCalc.Lib

variable {α β : Type}

section Pass

variable [DecidableEq β] (name : α → β) (reads : α → List β)

/-- One pass: an element whose name is known is taken, and what it reads is known
from there on. -/
def sweep (known : List β) : List α → List α
  | [] => []
  | item :: rest =>
      if name item ∈ known then item :: sweep (known ++ reads item) rest else sweep known rest

end Pass

variable (name : α → β) (reads : α → List β)

/-- What can be reached from the known names, in any order of the list. -/
inductive Reaches (known : List β) (items : List α) : α → Prop where
  | seed {item : α} (member : item ∈ items) (h : name item ∈ known) : Reaches known items item
  | step {item next : α} (reached : Reaches known items item) (member : next ∈ items)
      (h : name next ∈ reads item) : Reaches known items next

/-- A path from the known names that never goes back in the list. -/
def ReachesForward (known : List β) (items : List α) (item : α) : Prop :=
  ∃ path : List α, (path ++ [item]).Sublist items ∧
    (∀ first ∈ (path ++ [item]).head?, name first ∈ known) ∧
    (path ++ [item]).IsChain fun one next => name next ∈ reads one

variable {name reads} {known : List β} {items : List α} {item : α}

theorem ReachesForward.mono {more : List β} (included : ∀ id ∈ known, id ∈ more)
    (forward : ReachesForward name reads known items item) :
    ReachesForward name reads more items item := by
  obtain ⟨path, sublist, starts, chain⟩ := forward
  exact ⟨path, sublist, fun first head => included _ (starts first head), chain⟩

theorem ReachesForward.cons (other : α) (forward : ReachesForward name reads known items item) :
    ReachesForward name reads known (other :: items) item := by
  obtain ⟨path, sublist, starts, chain⟩ := forward
  exact ⟨path, sublist.cons other, starts, chain⟩

theorem reaches_of_chain : ∀ (path : List α) {first : α},
    Reaches name reads known items first → (∀ other ∈ path, other ∈ items) →
    ((first :: path) ++ [item]).IsChain (fun one next => name next ∈ reads one) →
    item ∈ items → Reaches name reads known items item
  | [], first, reached, _, chain, member =>
      .step reached member ((List.isChain_cons.mp chain).1 item rfl)
  | next :: path, first, reached, members, chain, member => by
      obtain ⟨linked, chain⟩ := List.isChain_cons.mp chain
      have reached : Reaches name reads known items next :=
        .step reached (members next (by simp)) (linked next rfl)
      exact reaches_of_chain path reached (fun other h => members other (by simp [h])) chain member

theorem ReachesForward.reaches (forward : ReachesForward name reads known items item) :
    Reaches name reads known items item := by
  obtain ⟨path, sublist, starts, chain⟩ := forward
  have members : ∀ other ∈ path ++ [item], other ∈ items := fun other h => sublist.subset h
  cases path with
  | nil => exact .seed (members item (by simp)) (starts item rfl)
  | cons first path =>
    exact reaches_of_chain path (.seed (members first (by simp)) (starts first rfl))
      (fun other h => members other (by simp [h])) chain (members item (by simp))

end CodeCalc.Lib
