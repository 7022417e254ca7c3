import Mathlib.Data.List.Infix

/-! Replacing the occurrences of a word, from the left, in a list and in what a
list of cells spells when every cell is written as a list of its own.  Where an
occurrence in the writing is always a run of cells of one shape, replacing in
the writing is replacing among the cells. -/
namespace CodeCalc.Lib

variable {α β : Type}

section Replace

variable [DecidableEq α]

/-- The rest of a list, the elements of an occurrence found before it skipped. -/
def replaceFrom (needle text : List α) : Nat → List α → List α
  | _, [] => []
  | skip + 1, _ :: rest => replaceFrom needle text skip rest
  | 0, head :: rest =>
      if needle.isPrefixOf (head :: rest) then
        text ++ replaceFrom needle text (needle.length - 1) rest
      else head :: replaceFrom needle text 0 rest

/-- `line.replace(needle, text)` for a nonempty needle. -/
def replace (needle text line : List α) : List α := replaceFrom needle text 0 line

end Replace

/-- One list is another with every occurrence replaced, from the left. -/
inductive Replaces (needle text : List α) : List α → List α → Prop
  | nil : Replaces needle text [] []
  | hit {before after : List α} (rest : Replaces needle text before after) :
      Replaces needle text (needle ++ before) (text ++ after)
  | miss {head : α} {before after : List α} (elsewhere : ¬ needle <+: head :: before)
      (rest : Replaces needle text before after) :
      Replaces needle text (head :: before) (head :: after)

section Correct

variable [DecidableEq α] {needle text : List α}

private theorem replaceFrom_drop (skip : Nat) (line : List α) :
    replaceFrom needle text skip line = replaceFrom needle text 0 (line.drop skip) := by
  induction line generalizing skip with
  | nil =>
    rw [List.drop_nil]
    cases skip <;> rfl
  | cons head rest ih =>
    cases skip with
    | zero => rfl
    | succ skip => exact ih skip

theorem replaces_replace (nonempty : needle ≠ []) (line : List α) :
    Replaces needle text line (replace needle text line) := by
  induction hsize : line.length using Nat.strong_induction_on generalizing line with
  | _ size ih =>
    subst hsize
    match line with
    | [] => exact .nil
    | head :: rest =>
      unfold replace
      rw [replaceFrom]
      by_cases found : needle <+: head :: rest
      · rw [if_pos (List.isPrefixOf_iff_prefix.mpr found), replaceFrom_drop]
        obtain ⟨after, same⟩ := found
        obtain ⟨first, more, rfl⟩ := List.exists_cons_of_ne_nil nonempty
        rw [List.cons_append] at same
        obtain ⟨rfl, hrest⟩ := List.cons.inj same
        have hdrop : rest.drop ((first :: more).length - 1) = after := by
          rw [← hrest]
          exact List.drop_left
        rw [hdrop, ← same, ← List.cons_append]
        apply Replaces.hit
        apply ih _ _ after rfl
        rw [← hrest, List.length_cons, List.length_append]
        omega
      · rw [if_neg (fun holds => found (List.isPrefixOf_iff_prefix.mp holds))]
        exact .miss found (ih _ (Nat.lt_succ_self _) rest rfl)

end Correct

namespace Replaces

variable {needle text line after other : List α}

theorem unique (nonempty : needle ≠ []) (left : Replaces needle text line after)
    (right : Replaces needle text line other) : after = other := by
  induction left generalizing other with
  | nil =>
    generalize hline : ([] : List α) = line at right
    cases right with
    | nil => rfl
    | hit => exact absurd (List.append_eq_nil_iff.mp hline.symm).1 nonempty
    | miss => cases hline
  | @hit before _ _ ih =>
    generalize hline : needle ++ before = line at right
    cases right with
    | nil => exact absurd (List.append_eq_nil_iff.mp hline).1 nonempty
    | hit rest =>
      cases List.append_cancel_left hline
      rw [ih rest]
    | miss elsewhere => exact absurd ⟨before, hline⟩ elsewhere
  | @miss head before _ elsewhere _ ih =>
    generalize hline : head :: before = line at right
    cases right with
    | nil => cases hline
    | hit => exact absurd ⟨_, hline.symm⟩ elsewhere
    | miss _ rest =>
      cases hline
      rw [ih rest]

/-- Nothing happens in front of the first place where the needle can begin. -/
theorem skip {front : List α} (rest : Replaces needle text line after)
    (elsewhere : ∀ skipped kept, front = skipped ++ kept → kept ≠ [] → ¬ needle <+: kept ++ line) :
    Replaces needle text (front ++ line) (front ++ after) := by
  induction front with
  | nil => exact rest
  | cons head front ih =>
    apply Replaces.miss
    · exact elsewhere [] (head :: front) rfl (List.cons_ne_nil _ _)
    · apply ih
      intro skipped kept same
      exact elsewhere (head :: skipped) kept (congrArg (List.cons head) same)

theorem of_absent (line : List α) (absent : ¬ needle <:+: line) :
    Replaces needle text line line := by
  induction line with
  | nil => exact .nil
  | cons head rest ih =>
    apply Replaces.miss
    · exact fun found => absent found.isInfix
    · exact ih fun found => absent (List.infix_cons found)

section Mark

variable {mark : α} {before : List α} {run : List α}

/-- What stands at the front without the mark stood there before. -/
theorem prefix_of_unmarked (replaced : Replaces needle [mark] before after)
    (unmarked : mark ∉ run) (front : run <+: after) : run <+: before := by
  induction replaced generalizing run with
  | nil => exact front
  | hit _ _ =>
    cases run with
    | nil => exact List.nil_prefix
    | cons first more =>
      rw [List.singleton_append, List.cons_prefix_cons] at front
      exact absurd (by rw [front.1]; exact List.mem_cons_self) unmarked
  | miss _ _ ih =>
    cases run with
    | nil => exact List.nil_prefix
    | cons first more =>
      rw [List.cons_prefix_cons] at front ⊢
      exact ⟨front.1, ih (fun member => unmarked (List.mem_cons_of_mem _ member)) front.2⟩

theorem infix_of_unmarked (replaced : Replaces needle [mark] before after)
    (unmarked : mark ∉ run) (inside : run <:+: after) : run <:+: before := by
  induction replaced with
  | nil => exact inside
  | hit _ ih =>
    rw [List.singleton_append, List.infix_cons_iff] at inside
    cases inside with
    | inl front =>
      cases run with
      | nil => exact List.nil_infix
      | cons first more =>
        exact absurd (by rw [(List.cons_prefix_cons.mp front).1]; exact List.mem_cons_self) unmarked
    | inr later => exact (ih later).trans (List.suffix_append _ _).isInfix
  | miss elsewhere rest ih =>
    rw [List.infix_cons_iff] at inside
    cases inside with
    | inl front => exact ((miss elsewhere rest).prefix_of_unmarked unmarked front).isInfix
    | inr later => exact List.infix_cons (ih later)

/-- No occurrence is left. -/
theorem absent (nonempty : needle ≠ []) (unmarked : mark ∉ needle)
    (replaced : Replaces needle [mark] before after) : ¬ needle <:+: after := by
  intro inside
  induction replaced with
  | nil => exact nonempty (List.infix_nil.mp inside)
  | hit _ ih =>
    rw [List.singleton_append, List.infix_cons_iff] at inside
    apply inside.elim _ ih
    intro front
    obtain ⟨first, more, rfl⟩ := List.exists_cons_of_ne_nil nonempty
    exact unmarked (by rw [(List.cons_prefix_cons.mp front).1]; exact List.mem_cons_self)
  | miss elsewhere rest ih =>
    rw [List.infix_cons_iff] at inside
    apply inside.elim _ ih
    intro front
    exact elsewhere ((miss elsewhere rest).prefix_of_unmarked unmarked front)

end Mark

end Replaces

section Masks

/-- One list is another with some of the occurrences of some words replaced by
a mark. -/
inductive Masks (words : List (List α)) (mark : α) : List α → List α → Prop
  | nil : Masks words mark [] []
  | keep {line masked : List α} (head : α) (rest : Masks words mark line masked) :
      Masks words mark (head :: line) (head :: masked)
  | mask {line masked word : List α} (listed : word ∈ words) (nonempty : word ≠ [])
      (rest : Masks words mark line masked) : Masks words mark (word ++ line) (mark :: masked)

namespace Masks

variable {words more : List (List α)} {mark : α} {line masked run : List α}

theorem refl (line : List α) : Masks words mark line line := by
  induction line with
  | nil => exact .nil
  | cons head _ ih => exact .keep head ih

theorem mono (masks : Masks words mark line masked) (listed : ∀ word ∈ words, word ∈ more) :
    Masks more mark line masked := by
  induction masks with
  | nil => exact .nil
  | keep head _ ih => exact .keep head ih
  | mask member nonempty _ ih => exact .mask (listed _ member) nonempty ih

theorem eq_nil (masks : Masks words mark [] masked) : masked = [] := by
  generalize hline : ([] : List α) = line at masks
  cases masks with
  | nil => rfl
  | keep => cases hline
  | mask _ nonempty => exact absurd (List.append_eq_nil_iff.mp hline.symm).1 nonempty

theorem front (masks : Masks words mark line (run ++ masked)) (unmarked : mark ∉ run) :
    ∃ rest, line = run ++ rest ∧ Masks words mark rest masked := by
  induction run generalizing line with
  | nil => exact ⟨line, rfl, masks⟩
  | cons first more ih =>
    rw [List.mem_cons, not_or] at unmarked
    rw [List.cons_append] at masks
    cases masks with
    | keep _ inner =>
      obtain ⟨left, rfl, tail⟩ := ih inner unmarked.2
      exact ⟨left, rfl, tail⟩
    | mask => exact absurd rfl unmarked.1

theorem back {front : List α} (masks : Masks words mark line (front ++ masked)) :
    ∃ skipped rest, line = skipped ++ rest ∧ Masks words mark rest masked := by
  induction front generalizing line with
  | nil => exact ⟨[], line, rfl, masks⟩
  | cons first front ih =>
    rw [List.cons_append] at masks
    cases masks with
    | keep _ inner =>
      obtain ⟨skipped, left, rfl, tail⟩ := ih inner
      exact ⟨first :: skipped, left, rfl, tail⟩
    | @mask line _ word _ _ inner =>
      obtain ⟨skipped, left, rfl, tail⟩ := ih inner
      exact ⟨word ++ skipped, left, (List.append_assoc _ _ _).symm, tail⟩

theorem infix_of_unmarked (masks : Masks words mark line masked) (unmarked : mark ∉ run)
    (inside : run <:+: masked) : run <:+: line := by
  obtain ⟨before, after, rfl⟩ := inside
  rw [List.append_assoc] at masks
  obtain ⟨skipped, rest, rfl, inner⟩ := masks.back
  obtain ⟨left, rfl, _⟩ := inner.front unmarked
  exact ⟨skipped, left, List.append_assoc _ _ _⟩

theorem replaced {needle after : List α} (nonempty : needle ≠ [])
    (masks : Masks words mark line masked) (unmarked : mark ∉ needle) (replaces : Replaces needle [mark] masked after)
    (listed : ∀ word ∈ words, word ∈ more) (added : needle ∈ more) : Masks more mark line after := by
  induction replaces generalizing line with
  | nil => exact masks.mono listed
  | hit _ ih =>
    obtain ⟨rest, rfl, inner⟩ := masks.front unmarked
    exact .mask added nonempty (ih inner)
  | miss _ _ ih =>
    cases masks with
    | keep _ rest => exact .keep _ (ih rest)
    | mask member solid rest => exact .mask (listed _ member) solid (ih rest)

/-- An element that no word has stays, and what stands on either side of it is
masked by itself. -/
theorem split {left right : List α} {fixed : α} (apart : ∀ word ∈ words, fixed ∉ word)
    (masks : Masks words mark (left ++ fixed :: right) masked) :
    ∃ left' right', masked = left' ++ fixed :: right' ∧ Masks words mark left left' ∧
      Masks words mark right right' := by
  generalize hline : left ++ fixed :: right = line at masks
  induction masks generalizing left with
  | nil => simp at hline
  | @keep line masked head rest ih =>
    cases left with
    | nil =>
      cases hline
      exact ⟨[], masked, rfl, .nil, rest⟩
    | cons first left =>
      rw [List.cons_append] at hline
      obtain ⟨rfl, hrest⟩ := List.cons.inj hline
      obtain ⟨left', right', rfl, hleft, hright⟩ := ih hrest
      exact ⟨first :: left', right', rfl, .keep first hleft, hright⟩
  | @mask line masked word listed nonempty rest ih =>
    rw [List.append_eq_append_iff] at hline
    cases hline with
    | inl longer =>
      obtain ⟨extra, rfl, hline⟩ := longer
      cases extra with
      | nil =>
        obtain ⟨left', right', rfl, hleft, hright⟩ := @ih [] hline
        rw [List.append_nil] at listed nonempty
        refine ⟨mark :: left', right', rfl, ?_, hright⟩
        rw [← List.append_nil left]
        exact .mask listed nonempty hleft
      | cons first extra =>
        rw [List.cons_append] at hline
        have := apart _ listed
        rw [(List.cons.inj hline).1] at this
        exact absurd (by simp) this
    | inr shorter =>
      obtain ⟨extra, rfl, hline⟩ := shorter
      obtain ⟨left', right', rfl, hleft, hright⟩ := ih hline.symm
      exact ⟨mark :: left', right', rfl, .mask listed nonempty hleft, hright⟩

theorem fixed_front {front right : List α} (apart : ∀ word ∈ words, ∀ fixed ∈ front, fixed ∉ word)
    (masks : Masks words mark (front ++ right) masked) :
    ∃ right', masked = front ++ right' ∧ Masks words mark right right' := by
  induction front generalizing masked with
  | nil => exact ⟨masked, rfl, masks⟩
  | cons first front ih =>
    have single : Masks words mark ([] ++ first :: (front ++ right)) masked := masks
    obtain ⟨left', rest, rfl, hleft, hrest⟩ :=
      single.split fun word listed => apart word listed first List.mem_cons_self
    obtain ⟨right', rfl, hright⟩ :=
      ih (fun word listed fixed member => apart word listed fixed (List.mem_cons_of_mem _ member)) hrest
    rw [hleft.eq_nil]
    exact ⟨right', rfl, hright⟩

end Masks

end Masks

section Spelling

/-- A run of cells is the least one whose writing has the word at a given
place: the word takes something of its first cell and of its last. -/
def Spells (write : α → List β) (word : List β) (run : List α) : Prop :=
  ∃ before after, run.flatMap write = before ++ word ++ after ∧
    (∀ first ∈ run.head?, before.length < (write first).length) ∧
    (∀ last ∈ run.getLast?, after.length < (write last).length)

variable {write : α → List β} {word before after : List β} {cells : List α}

theorem Spells.touches {run : List α} (spells : Spells write word run) (nonempty : word ≠ [])
    {cell : α} (listed : cell ∈ run) (written : write cell ≠ []) :
    ∃ symbol ∈ write cell, symbol ∈ word := by
  obtain ⟨before, after, writing, first, last⟩ := spells
  obtain ⟨front, back, rfl⟩ := List.append_of_mem listed
  have hword := List.length_pos_of_ne_nil nonempty
  have hcell := List.length_pos_of_ne_nil written
  -- The word begins before the cell's writing ends, and ends after it begins.
  have hbegins : before.length < (front.flatMap write).length + (write cell).length := by
    cases front with
    | nil => exact (first cell rfl).trans_le (Nat.le_add_left _ _)
    | cons head front =>
      have := first head rfl
      rw [List.flatMap_cons, List.length_append]
      omega
  have hends : after.length < (write cell).length + (back.flatMap write).length := by
    rcases List.eq_nil_or_concat' back with rfl | ⟨back, final, rfl⟩
    · have := last cell (by simp)
      omega
    · have := last final (by rw [← List.cons_append, ← List.append_assoc, List.getLast?_concat]; rfl)
      rw [List.flatMap_append, List.flatMap_singleton, List.length_append]
      omega
  rw [List.flatMap_append, List.flatMap_cons, List.append_assoc before] at writing
  have hlength := congrArg List.length writing
  simp only [List.length_append] at hlength
  have place := congrArg (fun line => getElem? line (max (front.flatMap write).length before.length)) writing
  rw [List.getElem?_append_right (le_max_left _ _), List.getElem?_append_right (le_max_right _ _),
    List.getElem?_append_left (by omega), List.getElem?_append_left (by omega)] at place
  have inside : max (front.flatMap write).length before.length - (front.flatMap write).length <
      (write cell).length := by omega
  rw [List.getElem?_eq_getElem inside] at place
  exact ⟨_, List.getElem_mem inside, List.mem_of_getElem? place.symm⟩

/-- Where every cell is written as one element, a run spells what it is written
as. -/
theorem Spells.eq_of_single {embed : β → α} {run : List β} (spells : Spells write word (run.map embed))
    (single : ∀ symbol ∈ run, write (embed symbol) = [symbol]) : run = word := by
  obtain ⟨before, after, writing, first, last⟩ := spells
  have hwrite : (run.map embed).flatMap write = run := by
    rw [List.flatMap_map]
    exact (List.flatMap_congr single).trans (List.flatMap_singleton' run)
  rw [hwrite] at writing
  cases run with
  | nil => exact (List.append_eq_nil_iff.mp (List.append_eq_nil_iff.mp writing.symm).1).2.symm
  | cons symbol rest =>
    have hbefore : before = [] := by
      have := first (embed symbol) rfl
      rw [single symbol List.mem_cons_self] at this
      exact List.length_eq_zero_iff.mp (Nat.lt_one_iff.mp this)
    have hafter : after = [] := by
      have hlast := List.getLast?_eq_some_getLast (List.cons_ne_nil symbol rest)
      have := last _ (by rw [List.getLast?_map, hlast]; rfl)
      rw [single _ (List.getLast_mem _)] at this
      exact List.length_eq_zero_iff.mp (Nat.lt_one_iff.mp this)
    rw [writing, hbefore, hafter, List.nil_append, List.append_nil]

private theorem covered (nonempty : word ≠ []) (writing : cells.flatMap write = word ++ after) :
    ∃ run rest after', run ≠ [] ∧ cells = run ++ rest ∧ run.flatMap write = word ++ after' ∧
      after = after' ++ rest.flatMap write ∧
      ∀ last ∈ run.getLast?, after'.length < (write last).length := by
  induction cells generalizing word with
  | nil =>
    rw [List.flatMap_nil] at writing
    exact absurd (List.append_eq_nil_iff.mp writing.symm).1 nonempty
  | cons cell cells ih =>
    rw [List.flatMap_cons] at writing
    by_cases short : word.length ≤ (write cell).length
    · obtain ⟨left, same⟩ :=
        List.prefix_of_prefix_length_le (writing ▸ List.prefix_append word after)
          (List.prefix_append (write cell) (cells.flatMap write)) short
      refine ⟨[cell], cells, left, List.cons_ne_nil _ _, rfl, ?_, ?_, ?_⟩
      · rw [List.flatMap_singleton, same]
      · rw [← same, List.append_assoc] at writing
        exact (List.append_cancel_left writing).symm
      · intro last member
        obtain rfl : cell = last := Option.some.inj member
        have := List.length_pos_of_ne_nil nonempty
        rw [← same, List.length_append]
        omega
    · obtain ⟨left, same⟩ :=
        List.prefix_of_prefix_length_le (List.prefix_append (write cell) (cells.flatMap write))
          (writing ▸ List.prefix_append word after) (by omega)
      have hleft : left ≠ [] := by
        rintro rfl
        rw [← same, List.append_nil] at short
        exact short le_rfl
      rw [← same, List.append_assoc] at writing
      obtain ⟨run, rest, after', some, rfl, hrun, hafter, hlast⟩ :=
        ih hleft (List.append_cancel_left writing)
      refine ⟨cell :: run, rest, after', List.cons_ne_nil _ _, rfl, ?_, hafter, ?_⟩
      · rw [List.flatMap_cons, hrun, ← same, List.append_assoc]
      · intro last member
        obtain ⟨first, more, rfl⟩ := List.exists_cons_of_ne_nil some
        rw [List.getLast?_cons_cons] at member
        exact hlast last member

theorem spells_front {cell : α} (nonempty : word ≠ [])
    (writing : (cell :: cells).flatMap write = before ++ word ++ after)
    (starts : before.length < (write cell).length) :
    ∃ run rest after', cell :: cells = run ++ rest ∧ run.head? = some cell ∧
      run.flatMap write = before ++ word ++ after' ∧ after = after' ++ rest.flatMap write ∧
      Spells write word run := by
  have hword : before ++ word ≠ [] := fun nothing =>
    nonempty (List.append_eq_nil_iff.mp nothing).2
  obtain ⟨run, rest, after', some, same, hrun, hafter, hlast⟩ := covered hword writing
  obtain ⟨first, more, rfl⟩ := List.exists_cons_of_ne_nil some
  obtain ⟨rfl, -⟩ := List.cons.inj same
  refine ⟨_, rest, after', same, rfl, hrun, hafter, before, after', hrun, ?_, hlast⟩
  intro other member
  cases member
  exact starts

theorem spells_of_occurrence (nonempty : word ≠ [])
    (writing : cells.flatMap write = before ++ word ++ after) :
    ∃ front run back before' after', cells = front ++ run ++ back ∧
      before = front.flatMap write ++ before' ∧ after = after' ++ back.flatMap write ∧
      run.flatMap write = before' ++ word ++ after' ∧ Spells write word run := by
  induction cells generalizing before with
  | nil =>
    rw [List.flatMap_nil] at writing
    exact absurd (List.append_eq_nil_iff.mp (List.append_eq_nil_iff.mp writing.symm).1).2 nonempty
  | cons cell cells ih =>
    by_cases starts : before.length < (write cell).length
    · obtain ⟨run, rest, after', same, _, hrun, hafter, spells⟩ :=
        spells_front nonempty writing starts
      exact ⟨[], run, rest, before, after', same, rfl, hafter, hrun, spells⟩
    · rw [List.flatMap_cons, List.append_assoc before] at writing
      obtain ⟨left, rfl⟩ :=
        List.prefix_of_prefix_length_le (List.prefix_append (write cell) (cells.flatMap write))
          (writing ▸ List.prefix_append before _) (Nat.not_lt.mp starts)
      rw [List.append_assoc, List.append_cancel_left_eq, ← List.append_assoc] at writing
      obtain ⟨front, run, back, before', after', rfl, rfl, hafter, hrun, spells⟩ := ih writing
      refine ⟨cell :: front, run, back, before', after', rfl, ?_, hafter, hrun, spells⟩
      rw [List.flatMap_cons, List.append_assoc]

/-- Where the word is only ever spelled by one pattern, written as the word,
replacing it in the writing replaces the pattern among the cells. -/
theorem replaces_flatMap {pattern replaced : List α} {text : List β} {mark : α}
    (nonempty : word ≠ []) (plain : pattern.flatMap write = word) (marked : write mark = text)
    (aligned : ∀ run, run <:+: cells → Spells write word run → run = pattern)
    (replaces : Replaces pattern [mark] cells replaced) :
    Replaces word text (cells.flatMap write) (replaced.flatMap write) := by
  induction replaces with
  | nil => exact .nil
  | hit _ ih =>
    rw [List.flatMap_append, List.flatMap_append, List.flatMap_singleton, plain, marked]
    apply Replaces.hit
    apply ih
    intro run inside
    exact aligned run (inside.trans (List.suffix_append _ _).isInfix)
  | @miss cell cells _ elsewhere _ ih =>
    rw [List.flatMap_cons, List.flatMap_cons]
    apply Replaces.skip
    · apply ih
      intro run inside
      exact aligned run (List.infix_cons inside)
    · intro skipped kept same left found
      obtain ⟨after, hafter⟩ := found
      have writing : (cell :: cells).flatMap write = skipped ++ word ++ after := by
        rw [List.flatMap_cons, same, List.append_assoc, ← hafter, List.append_assoc]
      have starts : skipped.length < (write cell).length := by
        have := List.length_pos_of_ne_nil left
        rw [same, List.length_append]
        omega
      obtain ⟨run, rest, _, hcells, _, _, _, spells⟩ := spells_front nonempty writing starts
      have front : run <+: cell :: cells := ⟨rest, hcells.symm⟩
      rw [aligned run front.isInfix spells] at front
      exact elsewhere front

end Spelling

end CodeCalc.Lib
