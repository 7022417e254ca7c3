import Mathlib.Data.List.Basic
import Mathlib.Data.List.Infix

/-! A log kept in numbered files, the live one at 0.  Rotating moves every file
up by one place and drops the oldest. -/
namespace CodeCalc.Lib.Generations

variable {α : Type}

abbrev Files (α : Type) := Nat → Option (List α)

def unlink (place : Nat) (files : Files α) : Files α :=
  fun other => if other = place then none else files other

/-- Renaming over whatever is there. -/
def move (source target : Nat) (files : Files α) : Files α :=
  fun other => if other = target then files source else if other = source then none else files other

def shift (place : Nat) (files : Files α) : Files α :=
  if (files place).isSome then move place (place + 1) files else files

/-- `shift` at this place and at all below it, the live file left alone. -/
def shiftDown : Nat → Files α → Files α
  | 0, files => files
  | place + 1, files => shiftDown place (shift (place + 1) files)

def rotate (keep : Nat) (files : Files α) : Files α :=
  move 0 1 (shiftDown (keep - 1) (unlink keep files))

def append (line : α) (files : Files α) : Files α :=
  fun place => if place = 0 then some ((files 0).getD [] ++ [line]) else files place

/-- What the files up to this one hold, the oldest first. -/
def history : Nat → Files α → List α
  | 0, files => (files 0).getD []
  | place + 1, files => (files (place + 1)).getD [] ++ history place files

variable {files : Files α}

theorem shift_of_free {place : Nat} (free : files (place + 1) = none) (other : Nat) :
    shift place files other =
      if other = place + 1 then files place else if other = place then none else files other := by
  unfold shift
  cases h : files place with
  | none =>
    rw [if_neg (by simp)]
    split
    · subst other
      exact free
    · split
      · subst other
        exact h
      · rfl
  | some lines =>
    rw [if_pos (by simp), move, h]

theorem shiftDown_of_free {place : Nat} (free : files (place + 1) = none) (other : Nat) :
    shiftDown place files other =
      if 2 ≤ other ∧ other ≤ place + 1 then files (other - 1)
      else if other = 1 then none else files other := by
  induction place generalizing files with
  | zero =>
    rw [shiftDown, if_neg (by omega)]
    split
    · subst other
      exact free
    · rfl
  | succ place ih =>
    have shifted := shift_of_free free
    rw [shiftDown, ih (by rw [shifted, if_neg (by omega), if_pos rfl])]
    simp only [shifted]
    by_cases inside : 2 ≤ other ∧ other ≤ place + 1
    · rw [if_pos inside, if_neg (show ¬ other - 1 = place + 1 + 1 by omega),
        if_neg (show ¬ other - 1 = place + 1 by omega),
        if_pos (show 2 ≤ other ∧ other ≤ place + 1 + 1 by omega)]
    · rw [if_neg inside]
      by_cases top : other = place + 1 + 1
      · subst top
        rw [if_neg (show ¬ place + 1 + 1 = 1 by omega), if_pos rfl,
          if_pos (show 2 ≤ place + 1 + 1 ∧ place + 1 + 1 ≤ place + 1 + 1 by omega)]
        rfl
      · rw [if_neg (show ¬ (2 ≤ other ∧ other ≤ place + 1 + 1) by omega), if_neg top]
        by_cases first : other = 1
        · rw [if_pos first, if_pos first]
        · rw [if_neg first, if_neg first, if_neg (show ¬ other = place + 1 by omega)]

theorem rotate_apply {keep : Nat} (positive : 0 < keep) (place : Nat) :
    rotate keep files place =
      if place = 0 then none else if place ≤ keep then files (place - 1) else files place := by
  have free : unlink keep files (keep - 1 + 1) = none := if_pos (by omega)
  have shifted := shiftDown_of_free free
  simp only [rotate, move, shifted, unlink]
  by_cases live : place = 0
  · subst live
    rw [if_neg (show ¬ 0 = 1 by omega), if_pos rfl, if_pos rfl]
  · rw [if_neg live]
    by_cases first : place = 1
    · subst first
      rw [if_pos rfl, if_neg (show ¬ (2 ≤ 0 ∧ 0 ≤ keep - 1 + 1) by omega),
        if_neg (show ¬ 0 = 1 by omega), if_neg (show ¬ 0 = keep by omega),
        if_neg live, if_pos (show 1 ≤ keep by omega)]
    · rw [if_neg first, if_neg live]
      by_cases kept : place ≤ keep
      · rw [if_pos (show 2 ≤ place ∧ place ≤ keep - 1 + 1 by omega),
          if_neg (show ¬ place - 1 = keep by omega), if_pos kept]
      · rw [if_neg (show ¬ (2 ≤ place ∧ place ≤ keep - 1 + 1) by omega), if_neg first,
          if_neg (show ¬ place = keep by omega), if_neg kept]

def Holds (keep : Nat) (files : Files α) (generations : List (List α)) : Prop :=
  ∀ place ≤ keep, files place = generations[place]?

variable {keep : Nat} {generations : List (List α)}

theorem Holds.push {live : List α} (holds : Holds keep files (live :: generations)) (line : α) :
    Holds keep (append line files) ((live ++ [line]) :: generations) := by
  intro place within
  unfold Generations.append
  cases place with
  | zero =>
    rw [if_pos rfl, holds 0 within]
    rfl
  | succ place =>
    rw [if_neg (Nat.succ_ne_zero place), holds _ within]
    rfl

theorem Holds.begin (holds : Holds keep files []) (line : α) :
    Holds keep (append line files) [[line]] := by
  intro place within
  unfold Generations.append
  cases place with
  | zero =>
    rw [if_pos rfl, holds 0 within]
    rfl
  | succ place =>
    rw [if_neg (Nat.succ_ne_zero place), holds _ within]
    rfl

theorem Holds.rotate_append (positive : 0 < keep) (holds : Holds keep files generations)
    (line : α) : Holds keep (append line (rotate keep files)) ([line] :: generations) := by
  intro place within
  have rotated : ∀ other, rotate keep files other = _ := rotate_apply positive
  unfold Generations.append
  cases place with
  | zero =>
    rw [if_pos rfl, rotated, if_pos rfl]
    rfl
  | succ place =>
    rw [if_neg (Nat.succ_ne_zero place), rotated, if_neg (Nat.succ_ne_zero place), if_pos within]
    exact holds place (by omega)

theorem Holds.history_eq (holds : Holds keep files generations) :
    history keep files = ((generations.take (keep + 1)).reverse).flatten := by
  induction keep with
  | zero =>
    rw [history, holds 0 le_rfl]
    cases generations with
    | nil => rfl
    | cons live older => simp
  | succ keep ih =>
    rw [history, holds (keep + 1) le_rfl, ih fun place within => holds place (by omega),
      List.take_add_one (i := keep + 1)]
    cases generations[keep + 1]? <;> simp

theorem Holds.history_suffix (holds : Holds keep files generations) :
    generations.reverse.flatten =
      (generations.drop (keep + 1)).reverse.flatten ++ history keep files := by
  rw [holds.history_eq, ← List.flatten_append, ← List.reverse_append, List.take_append_drop]

end CodeCalc.Lib.Generations
