import CodeCalc.Lib.Text

/-! Words inside a text: a word never lies across a symbol it does not have, so
it is found in one of the parts that the symbol separates. -/
namespace CodeCalc.Lib

section Separators

variable {σ : Type*} {word left right : List σ} {separator : σ}

theorem prefix_append_cons (apart : separator ∉ word) :
    word <+: left ++ separator :: right ↔ word <+: left := by
  induction left generalizing word with
  | nil =>
    rw [List.nil_append, List.prefix_cons_iff]
    constructor
    · rintro (rfl | ⟨rest, rfl, _⟩)
      · exact List.prefix_rfl
      · exact absurd List.mem_cons_self apart
    · intro h
      exact Or.inl (List.prefix_nil.mp h)
  | cons first left ih =>
    rw [List.cons_append, List.prefix_cons_iff, List.prefix_cons_iff]
    apply or_congr_right
    apply exists_congr
    intro rest
    apply and_congr_right
    rintro rfl
    exact ih fun member => apart (List.mem_cons_of_mem _ member)

theorem infix_append_cons (apart : separator ∉ word) :
    word <:+: left ++ separator :: right ↔ word <:+: left ∨ word <:+: right := by
  induction left with
  | nil =>
    have front : word <+: [] ++ separator :: right ↔ word <+: [] := prefix_append_cons apart
    rw [List.nil_append] at front
    rw [List.nil_append, List.infix_cons_iff, front, List.prefix_nil, List.infix_nil]
  | cons first left ih =>
    rw [List.cons_append, List.infix_cons_iff, ← List.cons_append, prefix_append_cons apart, ih,
      List.infix_cons_iff, or_assoc]

/-- A word lies on one side of a stretch of symbols that it does not have. -/
theorem infix_append_apart {middle : List σ} (some_symbol : middle ≠ [])
    (apart : ∀ symbol ∈ middle, symbol ∉ word) (inside : word <:+: left ++ middle ++ right) :
    word <:+: left ∨ word <:+: right := by
  induction middle generalizing left with
  | nil => exact absurd rfl some_symbol
  | cons symbol rest ih =>
    rw [List.append_assoc, List.cons_append, infix_append_cons (apart symbol List.mem_cons_self)]
      at inside
    apply inside.imp_right
    intro behind
    rcases rest with _ | ⟨next, rest⟩
    · exact behind
    rcases @ih [] (List.cons_ne_nil next rest)
      (fun other member => apart other (List.mem_cons_of_mem _ member)) behind with empty | found
    · rw [List.infix_nil.mp empty]
      exact List.nil_infix
    · exact found

theorem infix_cons_of_ne {first : σ} (begins : word.head? ≠ some first) :
    word <:+: first :: right ↔ word <:+: right := by
  rw [List.infix_cons_iff, or_iff_right_of_imp]
  intro front
  cases List.prefix_cons_iff.mp front with
  | inl empty => exact empty ▸ List.nil_infix
  | inr more =>
    obtain ⟨rest, rfl, _⟩ := more
    exact absurd rfl begins

theorem infix_concat_of_ne {last : σ} (ends : word.getLast? ≠ some last) :
    word <:+: left ++ [last] ↔ word <:+: left := by
  rw [List.infix_concat_iff, or_iff_right_of_imp]
  intro back
  cases List.suffix_concat_iff.mp back with
  | inl empty => exact empty ▸ List.nil_infix
  | inr more =>
    obtain ⟨rest, rfl, _⟩ := more
    exact absurd List.getLast?_concat ends

end Separators

section Lines

theorem joinLines_cons (line : Text) {lines : List Text} (more : lines ≠ []) :
    joinLines (line :: lines) = line ++ newline :: joinLines lines := by
  obtain ⟨second, rest, rfl⟩ := List.exists_cons_of_ne_nil more
  simp [joinLines, List.intercalate, List.intersperse]

theorem joinLines_singleton (line : Text) : joinLines [line] = line := by
  simp [joinLines, List.intercalate]

theorem infix_joinLines {word : Text} (apart : newline ∉ word) (nonempty : word ≠ [])
    (lines : List Text) : word <:+: joinLines lines ↔ ∃ line ∈ lines, word <:+: line := by
  induction lines with
  | nil => simp [joinLines, nonempty]
  | cons line lines ih =>
    by_cases more : lines = []
    · subst more
      simp [joinLines_singleton]
    · rw [joinLines_cons line more, infix_append_cons apart, ih]
      simp

theorem count_joinLines (lines : List Text) :
    (joinLines lines).count newline = (lines.map (List.count newline)).sum + (lines.length - 1) := by
  induction lines with
  | nil => rfl
  | cons line lines ih =>
    by_cases more : lines = []
    · subst more
      simp [joinLines_singleton]
    · have positive := List.length_pos_of_ne_nil more
      rw [joinLines_cons line more, List.count_append, List.count_cons_self, ih, List.map_cons,
        List.sum_cons, List.length_cons]
      omega

theorem splitLines_joinLines {lines : List Text} (whole : ∀ line ∈ lines, newline ∉ line)
    (nonempty : lines ≠ []) : splitLines (joinLines lines) = lines :=
  List.splitOn_intercalate newline whole nonempty

end Lines

end CodeCalc.Lib
