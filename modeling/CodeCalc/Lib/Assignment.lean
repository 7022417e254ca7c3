import Mathlib.Algebra.GroupWithZero.Nat
import CodeCalc.Lib.Dict

/-! Assignments of values to a list of distinct names, enumerated as the
cartesian power of the values: one tuple for each, the last name varying
fastest. -/
namespace CodeCalc.Lib

variable {κ α : Type}

/-- `itertools.product(choices, repeat=count)`. -/
def power (choices : List α) : Nat → List (List α)
  | 0 => [[]]
  | count + 1 => choices.flatMap fun choice => (power choices count).map (choice :: ·)

theorem mem_power_iff {choices : List α} {count : Nat} {tuple : List α} :
    tuple ∈ power choices count ↔ tuple.length = count ∧ ∀ choice ∈ tuple, choice ∈ choices := by
  induction count generalizing tuple with
  | zero =>
    rw [power, List.mem_singleton]
    constructor
    · rintro rfl
      simp
    · intro h
      exact List.eq_nil_of_length_eq_zero h.1
  | succ count ih =>
    simp only [power, List.mem_flatMap, List.mem_map]
    constructor
    · rintro ⟨choice, member, rest, hrest, rfl⟩
      have tail := ih.mp hrest
      exact ⟨by simp [tail.1], List.forall_mem_cons.mpr ⟨member, tail.2⟩⟩
    · rintro ⟨length, member⟩
      cases tuple with
      | nil => simp at length
      | cons choice rest =>
        have hrest : rest ∈ power choices count :=
          ih.mpr ⟨by simpa using length, fun other hother => member other (by simp [hother])⟩
        exact ⟨choice, member choice (by simp), rest, hrest, rfl⟩

theorem nodup_power {choices : List α} (distinct : choices.Nodup) (count : Nat) :
    (power choices count).Nodup := by
  induction count with
  | zero => simp [power]
  | succ count ih =>
    rw [power, List.nodup_flatMap]
    constructor
    · intro choice _
      exact ih.map (List.cons_injective)
    · apply distinct.imp
      intro left right different
      show List.Disjoint _ _
      rw [List.disjoint_left]
      intro tuple hleft hright
      obtain ⟨rest, _, rfl⟩ := List.mem_map.mp hleft
      obtain ⟨rest', _, same⟩ := List.mem_map.mp hright
      exact different (List.cons.inj same).1.symm

theorem length_power (choices : List α) (count : Nat) :
    (power choices count).length = choices.length ^ count := by
  induction count with
  | zero => rfl
  | succ count ih => simp [power, List.length_flatMap, ih, Nat.pow_succ, Nat.mul_comm]

section Lookup

variable [DecidableEq κ]

theorem entryOf_zip_map (names : List κ) (assignment : κ → α) {name : κ} (member : name ∈ names) :
    entryOf name (names.zip (names.map assignment)) = some (assignment name) := by
  induction names with
  | nil => cases member
  | cons head rest ih =>
    rw [List.map_cons, List.zip_cons_cons, entryOf, List.lookup_cons]
    by_cases h : name = head
    · simp [h]
    · have : (name == head) = false := beq_eq_false_iff_ne.mpr h
      simp only [this]
      exact ih (by simpa [h] using member)

theorem exists_assignment {names : List κ} (distinct : names.Nodup) {tuple : List α}
    (length : tuple.length = names.length) [Inhabited α] :
    ∃ assignment : κ → α, tuple = names.map assignment := by
  induction names generalizing tuple with
  | nil => exact ⟨fun _ => default, List.eq_nil_of_length_eq_zero length⟩
  | cons head rest ih =>
    cases tuple with
    | nil => simp at length
    | cons first others =>
      rw [List.nodup_cons] at distinct
      obtain ⟨assignment, rfl⟩ := ih distinct.2 (by simpa using length)
      refine ⟨Function.update assignment head first, ?_⟩
      rw [List.map_cons, Function.update_self]
      congr 1
      apply List.map_congr_left
      intro name member
      have : name ≠ head := by
        rintro rfl
        exact distinct.1 member
      rw [Function.update_of_ne this]

end Lookup

end CodeCalc.Lib
