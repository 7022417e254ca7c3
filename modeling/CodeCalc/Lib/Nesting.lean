import Mathlib.Data.List.Induction
import Mathlib.Data.List.Perm.Subperm
import Mathlib.Order.MinMax
import Mathlib.Order.Bounds.Basic

/-! Blocks read off indentation: the lines that open one stay on a stack for as
long as the lines that follow are indented deeper. -/
namespace CodeCalc.Lib.Nesting

variable {α : Type} [LinearOrder α]

structure Line (α : Type) where
  indent : α
  opens : Bool
  deriving DecidableEq

/-- The indents of the open blocks, innermost first, how many lines opened one,
and how deep the stack ever was. -/
structure Scan (α : Type) where
  stack : List α
  count : Nat
  deepest : Nat

def Scan.start : Scan α := ⟨[], 0, 0⟩

def Scan.step (scan : Scan α) (line : Line α) : Scan α :=
  let outer := scan.stack.dropWhile fun indent => decide (line.indent ≤ indent)
  if line.opens then
    ⟨line.indent :: outer, scan.count + 1, max scan.deepest (outer.length + 1)⟩
  else ⟨outer, scan.count, scan.deepest⟩

def scan (lines : List (Line α)) : Scan α := lines.foldl Scan.step .start

/-- The line opens a block that the lines up to `last` are inside of. -/
def HoldsTo (lines : List (Line α)) (last position : Nat) (indent : α) : Prop :=
  lines[position]? = some ⟨indent, true⟩ ∧ ∀ between next, position < between → between ≤ last →
    lines[between]? = some next → indent < next.indent

def Encloses (lines : List (Line α)) (outer inner : Nat) : Prop :=
  outer < inner ∧ ∃ indent, HoldsTo lines inner outer indent

structure Chain (lines : List (Line α)) (positions : List Nat) : Prop where
  opening : ∀ position ∈ positions, ∃ indent, lines[position]? = some ⟨indent, true⟩
  nested : positions.IsChain (Encloses lines)

section Chains

variable {lines : List (Line α)} {line : Line α} {positions : List Nat}

theorem Encloses.trans {outer middle inner : Nat} (first : Encloses lines outer middle)
    (second : Encloses lines middle inner) : Encloses lines outer inner := by
  obtain ⟨before, indent, opens, inside⟩ := first
  obtain ⟨after, deeper, opens', inside'⟩ := second
  refine ⟨before.trans after, indent, opens, fun between next past upto found => ?_⟩
  by_cases early : between ≤ middle
  · exact inside between next past early found
  · have step := inside middle _ before le_rfl opens'
    exact step.trans (inside' between next (by omega) upto found)

instance : IsTrans Nat (Encloses lines) := ⟨fun _ _ _ => Encloses.trans⟩

theorem Chain.pairwise (chain : Chain lines positions) : positions.Pairwise (Encloses lines) :=
  List.isChain_iff_pairwise.mp chain.nested

theorem Chain.nodup (chain : Chain lines positions) : positions.Nodup :=
  chain.pairwise.imp fun enclosed => enclosed.1.ne

omit [LinearOrder α] in
private theorem getElem?_old {position : Nat} (old : position < lines.length) :
    (lines ++ [line])[position]? = lines[position]? := List.getElem?_append_left old

theorem holdsTo_append {last position : Nat} {indent : α} (old : position < lines.length)
    (inside : last < lines.length) :
    HoldsTo (lines ++ [line]) last position indent ↔ HoldsTo lines last position indent := by
  unfold HoldsTo
  rw [getElem?_old old]
  apply and_congr_right
  intro _
  apply forall₄_congr
  intro between next _ upto
  rw [getElem?_old (by omega)]

theorem encloses_append {outer inner : Nat} (inside : inner < lines.length) :
    Encloses (lines ++ [line]) outer inner ↔ Encloses lines outer inner := by
  unfold Encloses
  apply and_congr_right
  intro before
  simp only [holdsTo_append (before.trans inside) inside]

/-- A block is open at a line added behind the others if it was open before and
the line is indented deeper. -/
theorem holdsTo_length {position : Nat} {indent : α} (old : position < lines.length) :
    HoldsTo (lines ++ [line]) lines.length position indent ↔
      HoldsTo lines lines.length position indent ∧ indent < line.indent := by
  unfold HoldsTo
  rw [getElem?_old old]
  constructor
  · rintro ⟨opens, inside⟩
    refine ⟨⟨opens, fun between next past upto found => ?_⟩, ?_⟩
    · apply inside between next past upto
      rw [getElem?_old (List.getElem?_eq_some_iff.mp found).1, found]
    · exact inside lines.length line old le_rfl (by simp)
  · rintro ⟨⟨opens, inside⟩, deeper⟩
    refine ⟨opens, fun between next past upto found => ?_⟩
    by_cases last : between = lines.length
    · subst last
      obtain rfl : line = next := by simpa using found
      exact deeper
    · rw [getElem?_old (by omega)] at found
      exact inside between next past upto found

theorem chain_append (before : ∀ position ∈ positions, position < lines.length) :
    Chain (lines ++ [line]) positions ↔ Chain lines positions := by
  have opening : (∀ position ∈ positions, ∃ indent, (lines ++ [line])[position]? =
      some ⟨indent, true⟩) ↔ ∀ position ∈ positions, ∃ indent, lines[position]? =
      some ⟨indent, true⟩ := by
    apply forall₂_congr
    intro position member
    rw [getElem?_old (before position member)]
  have nested : positions.IsChain (Encloses (lines ++ [line])) ↔
      positions.IsChain (Encloses lines) := by
    rw [List.isChain_iff_pairwise, List.isChain_iff_pairwise]
    apply List.Pairwise.iff_of_mem
    intro outer inner _ member
    exact encloses_append (before inner member)
  exact ⟨fun chain => ⟨opening.mp chain.opening, nested.mp chain.nested⟩,
    fun chain => ⟨opening.mpr chain.opening, nested.mpr chain.nested⟩⟩

theorem Chain.lt_length (chain : Chain lines positions) {position : Nat}
    (member : position ∈ positions) : position < lines.length := by
  obtain ⟨_, found⟩ := chain.opening position member
  exact (List.getElem?_eq_some_iff.mp found).1

end Chains

section Invariant

def Stacked (lines : List (Line α)) (stack : List α) : Prop :=
  ∃ entries : List (Nat × α), stack = entries.map Prod.snd ∧
    entries.Pairwise (fun inner outer => outer.1 < inner.1 ∧ outer.2 < inner.2) ∧
    ∀ entry, entry ∈ entries ↔ entry.1 < lines.length ∧
      HoldsTo lines lines.length entry.1 entry.2

variable {lines : List (Line α)} {line : Line α} {entries : List (Nat × α)}

private theorem dropWhile_eq_filter (bound : α) (descending : entries.Pairwise
    fun inner outer => outer.1 < inner.1 ∧ outer.2 < inner.2) :
    (entries.map Prod.snd).dropWhile (fun indent => decide (bound ≤ indent)) =
      (entries.filter fun entry => decide (entry.2 < bound)).map Prod.snd := by
  induction entries with
  | nil => rfl
  | cons entry rest ih =>
    obtain ⟨below, rest'⟩ := List.pairwise_cons.mp descending
    by_cases deep : bound ≤ entry.2
    · rw [List.map_cons, List.dropWhile_cons_of_pos (by simpa using deep), ih rest',
        List.filter_cons_of_neg (by simpa using deep)]
    · have all : ∀ other ∈ entry :: rest, decide (other.2 < bound) = true := by
        intro other member
        rcases List.mem_cons.mp member with rfl | member
        · simpa using deep
        · exact decide_eq_true ((below other member).2.trans (not_le.mp deep))
      rw [List.filter_eq_self.mpr all, List.map_cons, List.dropWhile_cons_of_neg (by simpa using deep)]

private theorem longest_at_line {indent : α} {inside : List (Nat × α)}
    (descending : inside.Pairwise fun inner outer => outer.1 < inner.1 ∧ outer.2 < inner.2)
    (around : ∀ entry, entry ∈ inside ↔ entry.1 < lines.length ∧
      HoldsTo (lines ++ [⟨indent, true⟩]) lines.length entry.1 entry.2) :
    (∃ positions, Chain (lines ++ [⟨indent, true⟩]) positions ∧
      positions.length = inside.length + 1) ∧
    ∀ positions, Chain (lines ++ [⟨indent, true⟩]) positions → lines.length ∈ positions →
      positions.length ≤ inside.length + 1 := by
  have encloses : ∀ entry ∈ inside, Encloses (lines ++ [⟨indent, true⟩]) entry.1 lines.length :=
    fun entry member => ⟨((around entry).mp member).1, _, ((around entry).mp member).2⟩
  constructor
  · refine ⟨(inside.map Prod.fst).reverse ++ [lines.length], ⟨?_, ?_⟩, by simp⟩
    · intro position member
      rcases List.mem_append.mp member with member | member
      · obtain ⟨entry, found, rfl⟩ := List.mem_map.mp (List.mem_reverse.mp member)
        exact ⟨entry.2, ((around entry).mp found).2.1⟩
      · rw [List.mem_singleton.mp member]
        exact ⟨indent, by simp⟩
    · rw [List.isChain_iff_pairwise, List.pairwise_append]
      refine ⟨?_, List.pairwise_singleton _ _, ?_⟩
      · rw [List.pairwise_reverse, List.pairwise_map]
        apply descending.imp_of_mem
        intro inner outer innerMember outerMember order
        obtain ⟨before, indent', opens, inside'⟩ := encloses outer outerMember
        obtain ⟨early, _⟩ := (around inner).mp innerMember
        exact ⟨order.1, indent', opens, fun between next past upto found =>
          inside' between next past (by omega) found⟩
      · intro position member last final
        obtain ⟨entry, found, rfl⟩ := List.mem_map.mp (List.mem_reverse.mp member)
        rw [List.mem_singleton.mp final]
        exact encloses entry found
  · intro positions chain member
    obtain ⟨front, back, rfl⟩ := List.append_of_mem member
    have subset : front ++ lines.length :: back ⊆ lines.length :: inside.map Prod.fst := by
      obtain ⟨_, later, across⟩ := List.pairwise_append.mp chain.pairwise
      intro position found
      have bound := chain.lt_length found
      rw [List.length_append, List.length_singleton] at bound
      rcases List.mem_append.mp found with early | found
      · obtain ⟨before, indent', holds⟩ := across position early _ List.mem_cons_self
        exact List.mem_cons_of_mem _
          (List.mem_map.mpr ⟨(position, indent'), (around _).mpr ⟨before, holds⟩, rfl⟩)
      · rcases List.mem_cons.mp found with rfl | late
        · exact List.mem_cons_self
        · have after := ((List.pairwise_cons.mp later).1 position late).1
          omega
    have shorter := (chain.nodup.subperm subset).length_le
    simpa using shorter

structure Invariant (lines : List (Line α)) (scan : Scan α) : Prop where
  stacked : Stacked lines scan.stack
  counted : scan.count = lines.countP Line.opens
  deepest : IsGreatest {length | ∃ positions, Chain lines positions ∧ positions.length = length}
    scan.deepest

private theorem entries_append (line : Line α)
    (holds : ∀ entry, entry ∈ entries ↔ entry.1 < lines.length ∧
      HoldsTo lines lines.length entry.1 entry.2) (entry : Nat × α) :
    entry ∈ entries.filter (fun entry => decide (entry.2 < line.indent)) ↔
      entry.1 < lines.length ∧
        HoldsTo (lines ++ [line]) lines.length entry.1 entry.2 := by
  rw [List.mem_filter, holds, decide_eq_true_eq]
  constructor
  · rintro ⟨⟨old, held⟩, deeper⟩
    exact ⟨old, (holdsTo_length old).mpr ⟨held, deeper⟩⟩
  · rintro ⟨old, held⟩
    obtain ⟨before, deeper⟩ := (holdsTo_length old).mp held
    exact ⟨⟨old, before⟩, deeper⟩

private theorem holdsTo_succ {position : Nat} {indent : α} :
    HoldsTo (lines ++ [line]) (lines.length + 1) position indent ↔
      HoldsTo (lines ++ [line]) lines.length position indent := by
  unfold HoldsTo
  apply and_congr_right
  intro _
  apply forall₃_congr
  intro between next past
  constructor
  · intro inside upto found
    exact inside (by omega) found
  · intro inside upto found
    have bound := (List.getElem?_eq_some_iff.mp found).1
    rw [List.length_append, List.length_singleton] at bound
    exact inside (by omega) found

private theorem stacked_passed {inside : List (Nat × α)} {indent : α}
    (descending : inside.Pairwise fun inner outer => outer.1 < inner.1 ∧ outer.2 < inner.2)
    (around : ∀ entry, entry ∈ inside ↔ entry.1 < lines.length ∧
      HoldsTo (lines ++ [⟨indent, false⟩]) lines.length entry.1 entry.2) :
    Stacked (lines ++ [⟨indent, false⟩]) (inside.map Prod.snd) := by
  refine ⟨inside, rfl, descending, fun entry => ?_⟩
  rw [around, List.length_append, List.length_singleton, holdsTo_succ]
  constructor
  · exact fun ⟨old, held⟩ => ⟨by omega, held⟩
  · rintro ⟨old, held⟩
    have earlier : entry.1 ≠ lines.length := by
      intro last
      have found := held.1
      simp [last] at found
    exact ⟨by omega, held⟩

private theorem stacked_opened {inside : List (Nat × α)} {indent : α}
    (descending : inside.Pairwise fun inner outer => outer.1 < inner.1 ∧ outer.2 < inner.2)
    (around : ∀ entry, entry ∈ inside ↔ entry.1 < lines.length ∧
      HoldsTo (lines ++ [⟨indent, true⟩]) lines.length entry.1 entry.2) :
    Stacked (lines ++ [⟨indent, true⟩]) (indent :: inside.map Prod.snd) := by
  refine ⟨(lines.length, indent) :: inside, rfl, ?_, fun entry => ?_⟩
  · refine List.pairwise_cons.mpr ⟨fun entry member => ?_, descending⟩
    obtain ⟨old, held⟩ := (around entry).mp member
    exact ⟨old, held.2 _ ⟨indent, true⟩ old le_rfl (by simp)⟩
  · rw [List.mem_cons, around, List.length_append, List.length_singleton, holdsTo_succ]
    constructor
    · rintro (rfl | ⟨old, held⟩)
      · exact ⟨by simp, by simp, fun between next past upto => by omega⟩
      · exact ⟨by omega, held⟩
    · rintro ⟨old, held⟩
      by_cases last : entry.1 = lines.length
      · have found := held.1
        rw [last] at found
        obtain same : indent = entry.2 := by simpa using found
        exact Or.inl (Prod.ext last same.symm)
      · exact Or.inr ⟨by omega, held⟩

theorem Invariant.step {state : Scan α} (before : Invariant lines state) :
    Invariant (lines ++ [line]) (state.step line) := by
  obtain ⟨entries, stack_eq, descending, holds⟩ := before.stacked
  have outer := dropWhile_eq_filter line.indent descending
  have sorted := descending.filter fun entry => decide (entry.2 < line.indent)
  have around := entries_append line holds
  generalize entries.filter (fun entry => decide (entry.2 < line.indent)) = inside at *
  rw [← stack_eq] at outer
  obtain ⟨reached, bounded⟩ := before.deepest
  have kept : ∀ positions, Chain (lines ++ [line]) positions → lines.length ∉ positions →
      Chain lines positions := by
    intro positions chain old
    refine (chain_append fun position member => ?_).mp chain
    have bound := chain.lt_length member
    have other : position ≠ lines.length := fun last => old (last ▸ member)
    rw [List.length_append, List.length_singleton] at bound
    omega
  obtain ⟨positions, chain, longest⟩ := reached
  have still : Chain (lines ++ [line]) positions :=
    (chain_append fun _ => chain.lt_length).mpr chain
  obtain ⟨indent, opens⟩ := line
  unfold Scan.step
  dsimp only at outer ⊢
  rw [outer]
  cases opens with
  | false =>
    refine ⟨stacked_passed sorted around, by simpa using before.counted, ⟨positions, still, longest⟩, ?_⟩
    rintro _ ⟨others, chain', rfl⟩
    apply bounded
    refine ⟨others, kept others chain' fun member => ?_, rfl⟩
    obtain ⟨_, found⟩ := chain'.opening _ member
    simp at found
  | true =>
    obtain ⟨⟨around', ending, length_eq⟩, most⟩ := longest_at_line sorted around
    refine ⟨stacked_opened sorted around, by simpa using before.counted, ?_, ?_⟩
    · simp only [if_pos, List.length_map]
      rcases le_total state.deepest (inside.length + 1) with deeper | deeper
      · rw [max_eq_right deeper]
        exact ⟨around', ending, length_eq⟩
      · rw [max_eq_left deeper]
        exact ⟨positions, still, longest⟩
    · rintro _ ⟨others, chain', rfl⟩
      simp only [if_pos, List.length_map]
      by_cases member : lines.length ∈ others
      · exact le_max_of_le_right (most others chain' member)
      · exact le_max_of_le_left (bounded ⟨others, kept others chain' member, rfl⟩)

theorem invariant_scan (lines : List (Line α)) : Invariant lines (scan lines) := by
  induction lines using List.reverseRecOn with
  | nil =>
    refine ⟨⟨[], rfl, List.Pairwise.nil, by simp⟩, rfl, ⟨[], ⟨by simp, List.IsChain.nil⟩, rfl⟩, ?_⟩
    rintro _ ⟨positions, chain, rfl⟩
    cases positions with
    | nil => exact le_rfl
    | cons position rest => simpa using chain.opening position List.mem_cons_self
  | append_singleton lines line ih =>
    rw [scan, List.foldl_append]
    exact ih.step

end Invariant

section Counts

structure Bounded (scan : Scan α) : Prop where
  stack_le : scan.stack.length ≤ scan.count
  deepest_le : scan.deepest ≤ scan.count
  deepest_pos : 0 < scan.count → 0 < scan.deepest

theorem Bounded.step {state : Scan α} (before : Bounded state) (line : Line α) :
    Bounded (state.step line) := by
  obtain ⟨stack_le, deepest_le, deepest_pos⟩ := before
  have shorter := (List.dropWhile_sublist (l := state.stack)
    fun indent => decide (line.indent ≤ indent)).length_le
  unfold Scan.step
  dsimp only
  cases line.opens with
  | false => exact ⟨shorter.trans stack_le, deepest_le, deepest_pos⟩
  | true =>
    refine ⟨?_, ?_, fun _ => ?_⟩
    · exact Nat.succ_le_succ (shorter.trans stack_le)
    · exact max_le (deepest_le.trans (Nat.le_succ _)) (Nat.succ_le_succ (shorter.trans stack_le))
    · exact lt_max_of_lt_right (Nat.succ_pos _)

theorem bounded_scan (lines : List (Line α)) : Bounded (scan lines) := by
  have run : ∀ state : Scan α, Bounded state → Bounded (lines.foldl Scan.step state) := by
    induction lines with
    | nil => exact fun state before => before
    | cons line lines ih => exact fun state before => ih _ (before.step line)
  exact run .start ⟨le_rfl, le_rfl, fun none => none⟩

end Counts
end CodeCalc.Lib.Nesting
