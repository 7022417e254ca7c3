import Mathlib.Data.List.Basic
import CodeCalc.Lib.Tree

/-! Trees of labels and the places in them: each node with the nodes above it, in
the order in which a walk meets them.  A walk that carries something down, and stops
at some nodes, visits one after the other the places with no such node above. -/
namespace CodeCalc.Lib

inductive Rose (α : Type) where
  | node (label : α) (children : List (Rose α))

namespace Rose

variable {α : Type}

def label : Rose α → α
  | .node label _ => label

def children : Rose α → List (Rose α)
  | .node _ children => children

/-- Induction with the hypothesis at every child. -/
@[induction_eliminator]
theorem induction {motive : Rose α → Prop}
    (node : ∀ label children, (∀ child ∈ children, motive child) → motive (.node label children)) :
    ∀ tree, motive tree
  | .node label children => node label children fun child _ => induction node child
termination_by tree => sizeOf tree
decreasing_by
  have hlt := List.sizeOf_lt_of_mem ‹child ∈ children›
  simp only [Rose.node.sizeOf_spec]
  omega

section Places

structure Place (α : Type) where
  above : List (Rose α)
  node : Rose α

/-- The nodes from the root down to this one. -/
def Place.branch (place : Place α) : List (Rose α) := place.above ++ [place.node]

def Place.under (tree : Rose α) (place : Place α) : Place α := ⟨tree :: place.above, place.node⟩

mutual

def places : Rose α → List (Place α)
  | .node label children =>
      ⟨[], .node label children⟩ :: (placesOf children).map (Place.under (.node label children))

def placesOf : List (Rose α) → List (Place α)
  | [] => []
  | tree :: rest => places tree ++ placesOf rest

end

mutual

/-- The places a walk visits that goes on only below the nodes that hold. -/
def reached (goes : Rose α → Bool) : Rose α → List (Place α)
  | .node label children =>
      ⟨[], .node label children⟩ ::
        if goes (.node label children) then
          (reachedOf goes children).map (Place.under (.node label children))
        else []

def reachedOf (goes : Rose α → Bool) : List (Rose α) → List (Place α)
  | [] => []
  | tree :: rest => reached goes tree ++ reachedOf goes rest

end

theorem placesOf_eq (trees : List (Rose α)) : placesOf trees = trees.flatMap places := by
  induction trees with
  | nil => rfl
  | cons tree rest ih => rw [placesOf, ih, List.flatMap_cons]

theorem reachedOf_eq (goes : Rose α → Bool) (trees : List (Rose α)) :
    reachedOf goes trees = trees.flatMap (reached goes) := by
  induction trees with
  | nil => rfl
  | cons tree rest ih => rw [reachedOf, ih, List.flatMap_cons]

theorem reached_eq_filter (goes : Rose α → Bool) (tree : Rose α) :
    tree.reached goes = tree.places.filter fun place => place.above.all goes := by
  induction tree with
  | node label children ih =>
    have below : reachedOf goes children = (placesOf children).filter fun place => place.above.all goes := by
      rw [reachedOf_eq, placesOf_eq, List.filter_flatMap]
      exact List.flatMap_congr ih
    have root : ([] : List (Rose α)).all goes = true := rfl
    have under : (fun place : Place α => place.above.all goes) ∘ Place.under (.node label children) =
        fun place => goes (.node label children) && place.above.all goes := rfl
    rw [reached, places, List.filter_cons, if_pos root, List.filter_map, under]
    congr 1
    cases goes (.node label children) with
    | false => simp
    | true => simp [below]

theorem place_above {tree : Rose α} {place : Place α} (member : place ∈ tree.places)
    {front back : List (Rose α)} {node : Rose α} (split : place.above = front ++ node :: back) :
    ⟨front, node⟩ ∈ tree.places := by
  induction tree generalizing place front with
  | node label children ih =>
    rw [places, placesOf_eq, List.mem_cons, List.mem_map] at member ⊢
    rcases member with rfl | ⟨inner, inside, rfl⟩
    · cases front <;> cases split
    · obtain ⟨child, known, inside⟩ := List.mem_flatMap.mp inside
      cases front with
      | nil =>
        cases split
        exact .inl rfl
      | cons first front =>
        have inner : inner.above = front ++ node :: back := (List.cons.inj split).2
        obtain rfl : Rose.node label children = first := (List.cons.inj split).1
        exact .inr ⟨⟨front, node⟩, List.mem_flatMap.mpr ⟨child, known, ih child known inside inner⟩, rfl⟩

end Places

section Walks

variable {γ σ : Type} {goes : Rose α → Bool} {down : γ → Rose α → γ}
  {visit : γ → Rose α → σ → Option σ} {walk : γ → Rose α → σ → Option σ}

theorem walk_eq_foldlM
    (walks : ∀ carried label children state, walk carried (.node label children) state =
      (visit carried (.node label children) state).bind fun after =>
        if goes (.node label children) then
          children.foldlM (fun state child => walk (down carried (.node label children)) child state) after
        else some after)
    (carried : γ) (tree : Rose α) (state : σ) :
    walk carried tree state = (tree.reached goes).foldlM
      (fun state place => visit (place.above.foldl down carried) place.node state) state := by
  induction tree generalizing carried state with
  | node label children ih =>
    rw [walks, reached, List.foldlM_cons]
    refine Option.bind_congr fun after visited => ?_
    cases goes (.node label children) with
    | false => rfl
    | true =>
      rw [if_pos rfl, if_pos rfl, List.foldlM_map]
      clear walks visited
      generalize Rose.node label children = root
      induction children generalizing after with
      | nil => rfl
      | cons child rest rests =>
        rw [List.foldlM_cons, reachedOf, List.foldlM_append, ih child List.mem_cons_self]
        exact Option.bind_congr fun next _ =>
          rests (fun other member => ih other (List.mem_cons_of_mem _ member)) next

end Walks

end Rose

end CodeCalc.Lib
