import CodeCalc.Translation.Comparison

/-! What `NORMALIZE_TOLERANCE` says is the same output, beside what `_normalize`
makes of a text.  The tolerated text is built character by character from the
right; `_normalize` is the tolerated text from its first visible character on,
so the indentation of the first line and the blank lines before it are lost. -/
namespace CodeCalc.Translation
open Lib

section Tolerance

/-- `\r\n` and `\r` folded to `\n`. -/
def foldEnds (text : Text) : Text := replaceCr (replaceCrLf text)

/-- The lines without the spaces and tabs at their ends. -/
def trimLines (text : Text) : Text :=
  joinLines ((splitLines text).map (List.rdropWhile isTrailing))

/-- What the tolerance leaves of a text: its line ends folded, its lines
trimmed, and the blank lines at its end removed. -/
def tolerated (text : Text) : Text :=
  (trimLines (foldEnds text)).rdropWhile fun code => decide (code = newline)

/-- The same output, as far as `NORMALIZE_TOLERANCE` says. -/
def SameOutput (left right : Text) : Prop := tolerated left = tolerated right

instance (left right : Text) : Decidable (SameOutput left right) :=
  inferInstanceAs (Decidable (_ = _))

/-- A character that shows nothing: a blank or a line end. -/
def isBlank (code : CodePoint) : Bool := isOuter code || decide (code = carriageReturn)

/-- The text from its first visible character on. -/
def body (text : Text) : Text := text.dropWhile isBlank

/-- The blank lines before the first visible line, emptied, and the indentation
of that line; a text that shows nothing has neither. -/
def leading (text : Text) : Text :=
  if body text = [] then []
  else
    let before := foldEnds (text.takeWhile isBlank)
    before.filter (fun code => decide (code = newline)) ++
      before.rtakeWhile fun code => decide (code ≠ newline)

end Tolerance

section Characters

variable {code : CodePoint} {text rest : Text}

theorem rdropWhile_cons (drop : CodePoint → Bool) (code : CodePoint) (rest : Text) :
    (code :: rest).rdropWhile drop =
      if rest.rdropWhile drop = [] then (if drop code then [] else [code])
      else code :: rest.rdropWhile drop := by
  simp only [List.rdropWhile, List.reverse_cons, List.dropWhile_append, List.isEmpty_iff,
    List.reverse_eq_nil_iff]
  split
  · by_cases dropped : drop code <;> simp [dropped]
  · rw [List.reverse_append]
    rfl

theorem rtakeWhile_cons (keep : CodePoint → Bool) (code : CodePoint) (rest : Text) :
    (code :: rest).rtakeWhile keep =
      if ∀ other ∈ rest, keep other then (if keep code then code :: rest else rest)
      else rest.rtakeWhile keep := by
  simp only [List.rtakeWhile, List.reverse_cons, List.takeWhile_append]
  have whole : (rest.reverse.takeWhile keep).length = rest.reverse.length ↔
      ∀ other ∈ rest, keep other := by
    have self : (rest.reverse.takeWhile keep).length = rest.reverse.length ↔
        rest.reverse.takeWhile keep = rest.reverse :=
      ⟨(List.takeWhile_prefix keep).eq_of_length, congrArg List.length⟩
    rw [self, List.takeWhile_eq_self_iff]
    simp only [List.mem_reverse]
  simp only [whole]
  split
  · by_cases kept : keep code <;> simp [kept]
  · rfl

theorem joinLines_cons_cons (first second : Text) (others : List Text) :
    joinLines (first :: second :: others) = first ++ newline :: joinLines (second :: others) := by
  simp [joinLines, List.intercalate]

theorem joinLines_cons (lines : List Text) :
    ∃ more : Text, (∀ next ∈ more.head?, next = newline) ∧
      ∀ first : Text, joinLines (first :: lines) = first ++ more := by
  cases lines with
  | nil => exact ⟨[], fun _ none => (nomatch none), fun first => by simp [joinLines]⟩
  | cons second others =>
    refine ⟨newline :: joinLines (second :: others), ?_, fun first => joinLines_cons_cons _ _ _⟩
    rintro next found
    exact (Option.some.inj found).symm

/-- A character in front of what is left of the text behind it. -/
def keep (code : CodePoint) (rest : Text) : Text :=
  if isOuter code ∧ rest = [] then []
  else if isTrailing code ∧ rest.head? = some newline then rest
  else code :: rest

theorem isTrailing_newline : isTrailing newline = false := by decide

theorem isOuter_of_isTrailing (blank : isTrailing code = true) : isOuter code = true := by
  rw [isOuter, blank]
  rfl

theorem trimLines_nil : trimLines [] = [] := by
  simp [trimLines, splitLines, joinLines]

theorem trimLines_cons (code : CodePoint) (rest : Text) :
    trimLines (code :: rest) =
      if isTrailing code ∧ ∀ next ∈ (trimLines rest).head?, next = newline then trimLines rest
      else code :: trimLines rest := by
  by_cases ends : code = newline
  · subst ends
    obtain ⟨line, lines, split⟩ := List.exists_cons_of_ne_nil
      (List.splitOn_ne_nil newline rest)
    have blank : trimLines (newline :: rest) = newline :: trimLines rest := by
      rw [trimLines, splitLines, List.splitOn_cons_eq_if_modifyHead, if_pos (beq_self_eq_true _),
        trimLines, splitLines, split, List.map_cons, List.map_cons, joinLines_cons_cons,
        List.rdropWhile_nil, List.nil_append]
    rw [blank, if_neg]
    rw [isTrailing_newline]
    exact fun both => Bool.false_ne_true both.1
  · obtain ⟨line, lines, split⟩ := List.exists_cons_of_ne_nil
      (List.splitOn_ne_nil newline rest)
    have inside : newline ∉ line := (mem_splitOn (split ▸ List.mem_cons_self)).1
    obtain ⟨more, opens, joined⟩ := joinLines_cons (lines.map (List.rdropWhile isTrailing))
    have later : trimLines rest = line.rdropWhile isTrailing ++ more := by
      rw [trimLines, splitLines, split, List.map_cons, joined]
    have whole : trimLines (code :: rest) = (code :: line).rdropWhile isTrailing ++ more := by
      rw [trimLines, splitLines, List.splitOn_cons_eq_if_modifyHead, if_neg (by simpa using ends),
        split, List.modifyHead_cons, List.map_cons, joined]
    rw [whole, later, rdropWhile_cons]
    cases kept : line.rdropWhile isTrailing with
    | nil =>
      rw [if_pos rfl, List.nil_append]
      by_cases blank : isTrailing code
      · rw [if_pos blank, if_pos ⟨blank, opens⟩, List.nil_append]
      · rw [if_neg blank, if_neg fun both => blank both.1, List.singleton_append]
    | cons first others =>
      have ordinary : first ≠ newline := by
        rintro rfl
        apply inside
        apply (List.rdropWhile_prefix isTrailing line).subset
        rw [kept]
        exact List.mem_cons_self
      rw [if_neg (List.cons_ne_nil _ _), if_neg fun both => ordinary (both.2 first rfl)]
      rfl

/-- Dropping blanks behind the trimmed lines, of whatever kind, is dropping the
blank lines at the end. -/
theorem rdropWhile_trimLines {drop : CodePoint → Bool} (ends : drop newline = true)
    (outer : drop = isOuter ∨ ∀ code, drop code = true → code = newline) :
    (trimLines text).rdropWhile drop = text.foldr keep [] := by
  induction text with
  | nil => rw [trimLines_nil, List.rdropWhile_nil, List.foldr_nil]
  | cons code rest ih =>
    rw [List.foldr_cons, ← ih, trimLines_cons, keep]
    cases left : (trimLines rest).rdropWhile drop with
    | nil =>
      have nothing (blank : isTrailing code = true)
          (opens : ¬∀ next ∈ (trimLines rest).head?, next = newline) : drop code = true := by
        rcases outer with rfl | only
        · exact isOuter_of_isTrailing blank
        · refine absurd (fun next first => only next ?_) opens
          exact List.rdropWhile_eq_nil_iff.mp left next (List.mem_of_mem_head? first)
      split
      · rename_i dropped
        rw [left, if_pos ⟨isOuter_of_isTrailing dropped.1, rfl⟩]
      · rename_i stays
        rw [rdropWhile_cons, if_pos left]
        by_cases blank : isTrailing code = true
        · rw [if_pos (nothing blank fun opens => stays ⟨blank, opens⟩),
            if_pos ⟨isOuter_of_isTrailing blank, rfl⟩]
        · have same : drop code = isOuter code := by
            rcases outer with rfl | only
            · rfl
            · by_cases line : code = newline
              · rw [line, ends]
                rfl
              · rw [isOuter, Bool.eq_false_iff.mpr blank, decide_eq_false line, Bool.or_false]
                exact Bool.eq_false_iff.mpr fun dropped => line (only code dropped)
          rw [same]
          by_cases shown : isOuter code = true <;> simp [shown, blank]
    | cons first others =>
      have head : (trimLines rest).head? = some first := by
        obtain ⟨more, whole⟩ := List.rdropWhile_prefix drop (trimLines rest)
        rw [← whole, left]
        rfl
      have opens : (∀ next ∈ (trimLines rest).head?, next = newline) ↔
          (first :: others).head? = some newline := by
        simp [head]
      have shown : ¬(isOuter code = true ∧ first :: others = []) := fun both =>
        List.cons_ne_nil _ _ both.2
      by_cases merged : isTrailing code = true ∧ (first :: others).head? = some newline
      · rw [if_pos ⟨merged.1, opens.mpr merged.2⟩, left, if_neg shown, if_pos merged]
      · rw [if_neg fun both => merged ⟨both.1, opens.mp both.2⟩, rdropWhile_cons, left,
          if_neg (List.cons_ne_nil _ _), if_neg shown, if_neg merged]

theorem tolerated_eq : tolerated text = (foldEnds text).foldr keep [] :=
  rdropWhile_trimLines (decide_eq_true rfl) (.inr fun _ dropped => of_decide_eq_true dropped)

theorem dropWhile_rdropWhile (drop : CodePoint → Bool) (text : Text) :
    (text.dropWhile drop).rdropWhile drop = (text.rdropWhile drop).dropWhile drop := by
  induction text with
  | nil => rfl
  | cons code rest ih =>
    rw [rdropWhile_cons]
    by_cases dropped : drop code
    · rw [List.dropWhile_cons_of_pos dropped, ih]
      split
      · rename_i nothing
        rw [nothing]
      · rw [List.dropWhile_cons_of_pos dropped]
    · rw [List.dropWhile_cons_of_neg dropped, rdropWhile_cons]
      split
      · simp [dropped]
      · rw [List.dropWhile_cons_of_neg dropped]

/-- `_normalize` is the tolerated text without what stands before its first
visible character. -/
theorem normalize_eq : normalize text = (tolerated text).dropWhile isOuter := by
  rw [tolerated_eq, ← rdropWhile_trimLines (by decide) (.inl rfl), ← dropWhile_rdropWhile]
  rfl

end Characters

section Beginning

variable {text rest : Text} {code : CodePoint}

/-- What begins with a visible character, or is empty. -/
def Begins (text : Text) : Prop := ∀ first ∈ text.head?, isBlank first = false

theorem not_isBlank (shows : isBlank code = false) :
    isOuter code = false ∧ isTrailing code = false ∧ code ≠ newline ∧ code ≠ carriageReturn := by
  simp only [isBlank, isOuter, Bool.or_eq_false_iff, decide_eq_false_iff_not] at shows
  refine ⟨?_, shows.1.1, shows.1.2, shows.2⟩
  rw [isOuter, shows.1.1, decide_eq_false shows.1.2]
  rfl

theorem body_begins (text : Text) : Begins (body text) := by
  intro first found
  have dropped := List.head?_dropWhile_not isBlank text
  rw [← body, Option.mem_def.mp found] at dropped
  exact dropped

theorem body_eq_self (begins : Begins text) : body text = text := by
  cases text with
  | nil => rfl
  | cons first others => exact List.dropWhile_cons_of_neg (by simp [begins first rfl])

theorem foldEnds_append (before : Text) (begins : Begins rest) :
    foldEnds (before ++ rest) = foldEnds before ++ foldEnds rest := by
  have folded : replaceCrLf (before ++ rest) = replaceCrLf before ++ replaceCrLf rest := by
    induction before using replaceCrLf_induction with
    | crLf first second more pair ih =>
      rw [List.cons_append, List.cons_append, replaceCrLf_crLf pair, replaceCrLf_crLf pair, ih,
        List.cons_append]
    | cons first second more other ih =>
      rw [List.cons_append, List.cons_append, replaceCrLf_cons other, replaceCrLf_cons other,
        ← List.cons_append, ih, List.cons_append]
    | short before few =>
      rcases before with _ | ⟨last, _ | ⟨second, more⟩⟩
      · rfl
      · cases rest with
        | nil => rfl
        | cons first others =>
          have ordinary := (not_isBlank (begins first rfl)).2.2.1
          rw [List.singleton_append, replaceCrLf_cons fun pair => ordinary pair.2]
          rfl
      · rw [List.length_cons, List.length_cons] at few
        omega
  rw [foldEnds, folded, replaceCr, List.map_append]
  rfl

theorem foldEnds_cons (shows : isBlank code = false) :
    foldEnds (code :: rest) = code :: foldEnds rest := by
  have other := (not_isBlank shows).2.2.2
  have folded : replaceCrLf (code :: rest) = code :: replaceCrLf rest := by
    cases rest with
    | nil => rfl
    | cons second more => rw [replaceCrLf, if_neg fun pair => other pair.1]
  rw [foldEnds, folded, replaceCr, List.map_cons, if_neg other]
  rfl

theorem tolerated_cons (shows : isBlank code = false) :
    tolerated (code :: rest) = code :: tolerated rest := by
  have shown := not_isBlank shows
  rw [tolerated_eq, tolerated_eq, foldEnds_cons shows, List.foldr_cons, keep,
    if_neg fun both => Bool.false_ne_true (shown.1 ▸ both.1),
    if_neg fun both => Bool.false_ne_true (shown.2.1 ▸ both.1)]

theorem mem_of_mem_replaceCrLf (member : code ∈ replaceCrLf text) : code = newline ∨ code ∈ text := by
  induction text using replaceCrLf_induction with
  | crLf first second rest pair ih =>
    rw [replaceCrLf_crLf pair] at member
    rcases List.mem_cons.mp member with line | later
    · exact .inl line
    · exact (ih later).imp_right fun inside => List.mem_cons_of_mem _ (List.mem_cons_of_mem _ inside)
  | cons first second rest other ih =>
    rw [replaceCrLf_cons other] at member
    rcases List.mem_cons.mp member with same | later
    · exact .inr (same ▸ List.mem_cons_self)
    · exact (ih later).imp_right fun inside => List.mem_cons_of_mem _ inside
  | short text few => exact .inr (replaceCrLf_short few ▸ member)

theorem mem_foldEnds (member : code ∈ foldEnds text) :
    code ≠ carriageReturn ∧ (code = newline ∨ code ∈ text) := by
  obtain ⟨old, inside, rfl⟩ := List.mem_map.mp member
  split
  · exact ⟨by decide, .inl rfl⟩
  · rename_i other
    exact ⟨other, mem_of_mem_replaceCrLf inside⟩

theorem isOuter_foldEnds (blank : ∀ code ∈ text, isBlank code = true) :
    ∀ code ∈ foldEnds text, isOuter code = true := by
  intro code member
  obtain ⟨other, line | inside⟩ := mem_foldEnds member
  · rw [line]
    rfl
  · have shows := blank code inside
    rwa [isBlank, decide_eq_false other, Bool.or_false] at shows

/-- Blanks in front of a visible character: the lines among them are emptied,
and what is behind the last of them stays. -/
theorem foldr_keep (outer : ∀ code ∈ text, isOuter code = true) (shown : rest ≠ [])
    (ordinary : rest.head? ≠ some newline) :
    text.foldr keep rest = text.filter (fun code => decide (code = newline)) ++
      (text.rtakeWhile fun code => decide (code ≠ newline)) ++ rest := by
  induction text with
  | nil => rfl
  | cons code more ih =>
    have ih := ih fun other member => outer other (List.mem_cons_of_mem _ member)
    have kept : ¬(isOuter code = true ∧ more.foldr keep rest = []) := by
      rw [ih]
      exact fun both => shown (List.append_eq_nil_iff.mp both.2).2
    rw [List.foldr_cons, keep, if_neg kept, ih, rtakeWhile_cons, List.filter_cons]
    by_cases flat : ∀ other ∈ more, decide (other ≠ newline) = true
    · have none : more.filter (fun other => decide (other = newline)) = [] := by
        apply List.filter_eq_nil_iff.mpr
        intro other member
        simpa using flat other member
      have head : (more ++ rest).head? ≠ some newline := by
        cases more with
        | nil => exact ordinary
        | cons first others =>
          intro same
          exact of_decide_eq_true (flat first List.mem_cons_self) (Option.some.inj same)
      rw [if_pos flat, none, List.rtakeWhile_eq_self_iff.mpr flat, List.nil_append,
        if_neg fun both => head both.2]
      by_cases line : code = newline <;> simp [line]
    · obtain ⟨others, ends⟩ : ∃ others : Text,
          more.filter (fun other => decide (other = newline)) = newline :: others := by
        cases found : more.filter (fun other => decide (other = newline)) with
        | nil =>
          refine absurd (fun other member => ?_) flat
          simpa using List.filter_eq_nil_iff.mp found other member
        | cons first others =>
          have member : first ∈ more.filter (fun other => decide (other = newline)) := by
            rw [found]
            exact List.mem_cons_self
          exact ⟨others, by rw [of_decide_eq_true (List.mem_filter.mp member).2]⟩
      rw [if_neg flat, ends]
      by_cases line : code = newline
      · rw [line, isTrailing_newline, if_neg fun both => Bool.false_ne_true both.1,
          if_pos (decide_eq_true rfl)]
        rfl
      · have blank : isTrailing code = true := by
          have outer := outer code List.mem_cons_self
          rwa [isOuter, decide_eq_false line, Bool.or_false] at outer
        rw [if_pos ⟨blank, rfl⟩, if_neg (by simpa using line)]

theorem foldr_keep_nil (outer : ∀ code ∈ text, isOuter code = true) : text.foldr keep [] = [] := by
  induction text with
  | nil => rfl
  | cons code more ih =>
    rw [List.foldr_cons, ih fun other member => outer other (List.mem_cons_of_mem _ member), keep,
      if_pos ⟨outer code List.mem_cons_self, rfl⟩]

theorem tolerated_begins (begins : Begins text) : Begins (tolerated text) := by
  cases text with
  | nil =>
    intro first found
    cases found
  | cons code more =>
    rw [tolerated_cons (begins code rfl)]
    intro first found
    exact Option.some.inj found ▸ begins code rfl

theorem isBlank_takeWhile (text : Text) : ∀ code ∈ text.takeWhile isBlank, isBlank code = true :=
  fun _ => List.mem_takeWhile_imp

/-- The tolerance keeps the blank lines at the beginning and the indentation
behind them. -/
theorem tolerated_leading (text : Text) :
    tolerated text = leading text ++ tolerated (body text) := by
  have outer := isOuter_foldEnds (isBlank_takeWhile text)
  have parts : text = text.takeWhile isBlank ++ body text := List.takeWhile_append_dropWhile.symm
  have folded : tolerated text =
      (foldEnds (text.takeWhile isBlank)).foldr keep (tolerated (body text)) := by
    rw [tolerated_eq, tolerated_eq, ← List.foldr_append, ← foldEnds_append _ (body_begins text),
      ← parts]
  rw [folded, leading]
  split
  · rename_i nothing
    rw [nothing]
    exact foldr_keep_nil outer
  · rename_i shows
    obtain ⟨first, others, split⟩ := List.exists_cons_of_ne_nil shows
    have visible : isBlank first = false := body_begins text first (by rw [split]; rfl)
    rw [split, tolerated_cons visible]
    apply foldr_keep outer (List.cons_ne_nil _ _)
    exact fun same => (not_isBlank visible).2.2.1 (Option.some.inj same)

theorem isOuter_leading (text : Text) : ∀ code ∈ leading text, isOuter code = true := by
  intro code member
  rw [leading] at member
  split at member
  · cases member
  · apply isOuter_foldEnds (isBlank_takeWhile text)
    rcases List.mem_append.mp member with line | behind
    · exact (List.mem_filter.mp line).1
    · exact (List.rtakeWhile_suffix _ _).subset behind

theorem dropWhile_begins (begins : Begins text) : text.dropWhile isOuter = text := by
  cases text with
  | nil => rfl
  | cons first others =>
    exact List.dropWhile_cons_of_neg (by simp [(not_isBlank (begins first rfl)).1])

theorem takeWhile_begins (begins : Begins text) : text.takeWhile isOuter = [] := by
  cases text with
  | nil => rfl
  | cons first others =>
    exact List.takeWhile_cons_of_neg (by simp [(not_isBlank (begins first rfl)).1])

theorem normalize_body (text : Text) : normalize text = tolerated (body text) := by
  rw [normalize_eq, tolerated_leading, List.dropWhile_append_of_pos (isOuter_leading text),
    dropWhile_begins (tolerated_begins (body_begins text))]

theorem leading_eq (text : Text) : leading text = (tolerated text).takeWhile isOuter := by
  rw [tolerated_leading, List.takeWhile_append_of_pos (isOuter_leading text),
    takeWhile_begins (tolerated_begins (body_begins text)), List.append_nil]

theorem sameOutput_iff {left right : Text} :
    SameOutput left right ↔ leading left = leading right ∧ SameOutput (body left) (body right) := by
  constructor
  · intro same
    refine ⟨?_, ?_⟩
    · rw [leading_eq, leading_eq, same]
    · rw [SameOutput, ← normalize_body, ← normalize_body, normalize_eq, normalize_eq, same]
  · rintro ⟨before, after⟩
    rw [SameOutput, tolerated_leading left, tolerated_leading right, before, after]

theorem foldEnds_eq_self (unix : carriageReturn ∉ text) : foldEnds text = text := by
  have folded : replaceCrLf text = text := by
    induction text using replaceCrLf_induction with
    | crLf first second rest pair ih => exact absurd (pair.1 ▸ List.mem_cons_self) unix
    | cons first second rest other ih =>
      rw [replaceCrLf_cons other, ih fun later => unix (List.mem_cons_of_mem _ later)]
    | short text few => exact replaceCrLf_short few
  rw [foldEnds, folded]
  have kept : ∀ code ∈ text, (if code = carriageReturn then newline else code) = id code := by
    intro code member
    apply if_neg
    rintro rfl
    exact unix member
  calc replaceCr text = text.map id := List.map_congr_left kept
    _ = text := List.map_id text

theorem mem_of_mem_foldr_keep (member : code ∈ text.foldr keep []) : code ∈ text := by
  induction text with
  | nil => cases member
  | cons first more ih =>
    rw [List.foldr_cons, keep] at member
    split at member
    · cases member
    · split at member
      · exact List.mem_cons_of_mem _ (ih member)
      · rcases List.mem_cons.mp member with same | later
        · exact same ▸ List.mem_cons_self
        · exact List.mem_cons_of_mem _ (ih later)

theorem foldr_keep_idempotent (text : Text) :
    (text.foldr keep []).foldr keep [] = text.foldr keep [] := by
  induction text with
  | nil => rfl
  | cons code more ih =>
    rw [List.foldr_cons]
    by_cases dropped : isOuter code = true ∧ more.foldr keep [] = []
    · rw [keep, if_pos dropped]
      rfl
    · by_cases merged : isTrailing code = true ∧ (more.foldr keep []).head? = some newline
      · rw [keep, if_neg dropped, if_pos merged, ih]
      · rw [keep, if_neg dropped, if_neg merged, List.foldr_cons, ih, keep, if_neg dropped,
          if_neg merged]

theorem normalize_idempotent (text : Text) : normalize (normalize text) = normalize text := by
  have begins : Begins (normalize text) := by
    rw [normalize_body]
    exact tolerated_begins (body_begins text)
  have unix : carriageReturn ∉ normalize text := by
    rw [normalize_body, tolerated_eq]
    exact fun member => (mem_foldEnds (mem_of_mem_foldr_keep member)).1 rfl
  rw [normalize_body (normalize text), body_eq_self begins, tolerated_eq, foldEnds_eq_self unix,
    normalize_body, tolerated_eq, foldr_keep_idempotent]

/-- `_normalize` equates what the tolerance equates, except where the first
visible lines are indented differently, or have more or fewer blank lines before
them, and the texts are otherwise the same. -/
theorem normalize_tolerance_iff (left right : Text) :
    normalize (normalize left) = normalize left ∧
      ((normalize left = normalize right ↔ SameOutput left right) ↔
        (SameOutput (body left) (body right) → leading left = leading right)) := by
  refine ⟨normalize_idempotent left, ?_⟩
  rw [sameOutput_iff, normalize_body, normalize_body, ← SameOutput]
  tauto

/-- An indented line and the same line without its indentation. -/
theorem normalize_tolerance_indented :
    ¬∀ left right : Text, normalize left = normalize right ↔ SameOutput left right := by
  intro exactly
  have same : normalize (Text.ofString "  x") = normalize (Text.ofString "x") := by decide
  have differ : ¬SameOutput (Text.ofString "  x") (Text.ofString "x") := by decide
  exact differ ((exactly _ _).mp same)

end Beginning

end CodeCalc.Translation
