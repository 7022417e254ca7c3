import Mathlib.Data.List.Basic

/-! Trees given by their children: a property that holds everywhere in a tree,
and the size argument that a recursion through a list of pairs needs. -/
namespace CodeCalc.Lib

variable {τ : Type} {children : τ → List τ} {p : τ → Prop}

inductive All (children : τ → List τ) (p : τ → Prop) : τ → Prop
  | intro {tree : τ} (here : p tree) (inside : ∀ child ∈ children tree, All children p child) :
      All children p tree

theorem All.here {tree : τ} (all : All children p tree) : p tree := by
  cases all with
  | intro here _ => exact here

theorem All.inside {tree child : τ} (all : All children p tree) (member : child ∈ children tree) :
    All children p child := by
  cases all with
  | intro _ inside => exact inside child member

theorem All.leaf {tree : τ} (here : p tree) (leaf : children tree = []) : All children p tree := by
  refine .intro here fun child member => ?_
  rw [leaf] at member
  cases member

theorem all_iff {tree : τ} :
    All children p tree ↔ p tree ∧ ∀ child ∈ children tree, All children p child := by
  constructor
  · intro all
    exact ⟨all.here, fun _ => all.inside⟩
  · rintro ⟨here, inside⟩
    exact .intro here inside

theorem All.and_imp {q r : τ → Prop} {tree : τ} (left : All children p tree)
    (right : All children q tree) (implies : ∀ tree, p tree → q tree → r tree) :
    All children r tree := by
  induction left with
  | intro here _ ih =>
    exact .intro (implies _ here right.here) fun child member =>
      ih child member (right.inside member)

theorem sizeOf_snd_lt_of_mem {α β : Type} [SizeOf α] [SizeOf β] {pair : α × β}
    {pairs : List (α × β)} (member : pair ∈ pairs) : sizeOf pair.2 < sizeOf pairs := by
  have hlt := List.sizeOf_lt_of_mem member
  obtain ⟨first, second⟩ := pair
  simp only [Prod.mk.sizeOf_spec] at hlt ⊢
  omega

end CodeCalc.Lib
