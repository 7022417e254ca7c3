import CodeCalc.Lib.Substitute

/-! A word echoed at some places of a list.  Where the word begins nowhere but at
its echoes, replacing it from the left replaces the echoes, and what comes out does
not depend on the word. -/
namespace CodeCalc.Lib

/-- A place of a list: a symbol of its own, or an echo of the word. -/
inductive Echoed (α : Type) where
  | symbol (value : α)
  | echo
  deriving DecidableEq

variable {α : Type} {word : List α}

def spell (word : List α) : List (Echoed α) → List α
  | [] => []
  | .symbol value :: rest => value :: spell word rest
  | .echo :: rest => word ++ spell word rest

/-- The word begins at none of the other places. -/
def OnlyEchoes (word : List α) : List (Echoed α) → Prop
  | [] => True
  | .symbol value :: rest => ¬ word <+: value :: spell word rest ∧ OnlyEchoes word rest
  | .echo :: rest => OnlyEchoes word rest

instance OnlyEchoes.decidable [DecidableEq α] (word : List α) :
    (places : List (Echoed α)) → Decidable (OnlyEchoes word places)
  | [] => inferInstanceAs (Decidable True)
  | .symbol value :: rest =>
      have := OnlyEchoes.decidable word rest
      inferInstanceAs (Decidable (¬ word <+: value :: spell word rest ∧ OnlyEchoes word rest))
  | .echo :: rest => OnlyEchoes.decidable word rest

theorem spell_append (word : List α) (left right : List (Echoed α)) :
    spell word (left ++ right) = spell word left ++ spell word right := by
  induction left with
  | nil => rfl
  | cons place left ih => cases place <;> simp [spell, ih]

@[simp] theorem spell_symbols (word text : List α) : spell word (text.map .symbol) = text := by
  induction text with
  | nil => rfl
  | cons value text ih => rw [List.map_cons, spell, ih]

theorem OnlyEchoes.replaces {text : List α} {places : List (Echoed α)} (alone : OnlyEchoes word places) :
    Replaces word text (spell word places) (spell text places) := by
  induction places with
  | nil => exact .nil
  | cons place rest ih =>
    cases place with
    | symbol value => exact .miss alone.1 (ih alone.2)
    | echo => exact .hit (ih alone)

theorem replace_spell [DecidableEq α] (nonempty : word ≠ []) {places : List (Echoed α)}
    (alone : OnlyEchoes word places) (text : List α) :
    replace word text (spell word places) = spell text places :=
  (replaces_replace nonempty _).unique nonempty alone.replaces

end CodeCalc.Lib
