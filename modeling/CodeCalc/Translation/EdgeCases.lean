import Mathlib.Data.List.Sort
import Mathlib.Data.List.Dedup
import Mathlib.Data.List.Perm.Subperm
import CodeCalc.Translation.Verify

/-! `compare_edge_cases`.  The languages of a row are compared by what the row
shows of their outputs: the first three hundred characters of what the
executor's cap has left. -/
namespace CodeCalc.Translation
open Lib Lib.Utf8 Output

def defaultEdgeInputs : List Text :=
  ["", "0", "1", "-1", "10", "100", "0.1\n0.2"].map Text.ofString

structure RunEntry where
  ok : Bool
  stdout : Text
  stdoutRaw : Text
  verdict : Option String
  stderr : Text
  error : Option String := none
  code : Option Errors.Code := none
  remedy : Option String := none
  codeInferred : Bool := false

def stampRow (entry : RunEntry) (timedOut : Bool) (timeoutMessage : String) : RunEntry :=
  if entry.ok then entry
  else
    let error := if entry.error.isNone && timedOut then some timeoutMessage else entry.error
    match error with
    | some message =>
        let code := Errors.fromMessage message
        { entry with error, code := some code, remedy := some (Errors.remedies code),
                     codeInferred := true }
    | none => { entry with error }

def nonEmpty (text : Option String) : Option String := text.filter fun message => decide (message ≠ "")

def runEntry (language : String) (timeout : Int) (result : RunResult) : RunEntry :=
  stampRow
    { ok := result.ok, stdout := (normalize result.output).take 300,
      stdoutRaw := result.output.take 300, verdict := result.verdict,
      stderr := (result.stderr.getD []).take 150, error := nonEmpty result.error }
    result.timedOut (language ++ " timed out after " ++ toString timeout ++ "s (wall-clock)")

inductive DivergenceKind where
  | content
  | order
  deriving DecidableEq, Repr

def DivergenceKind.name : DivergenceKind → String
  | .content => "content"
  | .order => "order"

structure Row where
  input : Text
  runs : List (String × RunEntry)

structure Divergence where
  input : Text
  languages : List String
  kind : DivergenceKind
  runs : List (String × RunEntry)

/-- `tuple(sorted(lines))`. -/
def sortLines (lines : List Text) : List Text := lines.insertionSort (· ≤ ·)

def exactBehaviors (entries : List RunEntry) : List (Bool × List Text) :=
  (entries.map fun entry => (entry.ok, splitLines entry.stdout)).dedup

def sortedBehaviors (entries : List RunEntry) : List (Bool × List Text) :=
  (entries.map fun entry => (entry.ok, sortLines (splitLines entry.stdout))).dedup

def divergenceKind (orderSensitive : Bool) (entries : List RunEntry) : Option DivergenceKind :=
  if 1 < entries.length then
    let contentDiverges := decide (1 < (sortedBehaviors entries).length)
    let orderDiverges := !contentDiverges && decide (1 < (exactBehaviors entries).length)
    if contentDiverges || (orderSensitive && orderDiverges) then
      some (if contentDiverges then .content else .order)
    else none
  else none

/-- The runs of one input: of every language, in the order of the snippets. -/
def edgeRow (run : String → String → RunResult) (snippets : Dict String String) (timeout : Int)
    (stdin : Text) : Row where
  input := stdin.take 60
  runs := snippets.entries.map fun (language, code) =>
    (language, runEntry language timeout (run language code))

def edgeDivergence (orderSensitive : Bool) (row : Row) : Option Divergence :=
  (divergenceKind orderSensitive (row.runs.map Prod.snd)).map fun kind =>
    ⟨row.input, row.runs.map Prod.fst, kind, row.runs⟩

structure EdgeReport where
  inputs : List Text
  languages : List String
  divergenceCount : Nat
  results : List Row
  divergences : List Divergence

/-- `compare_edge_cases`, given what each run comes to: of the input at a
position, in a language, of a code. -/
def compareEdgeCases (run : Nat → String → String → Text → RunResult) (snippets : Dict String String)
    (inputs : Option (List Text)) (timeout : Int) (orderSensitive : Bool) : Except String EdgeReport :=
  if snippets.entries = [] then .error "provide at least one \x7blanguage: code\x7d snippet"
  else
    let inputs := match inputs with
      | some (first :: rest) => first :: rest
      | _ => defaultEdgeInputs
    let results := inputs.mapIdx fun position stdin =>
      edgeRow (fun language code => run position language code stdin) snippets timeout stdin
    let divergences := results.filterMap (edgeDivergence orderSensitive)
    .ok ⟨inputs, snippets.keys, divergences.length, results, divergences⟩

def OneImage {α β : Type} (image : α → β) (items : List α) : Prop :=
  ∀ left ∈ items, ∀ right ∈ items, image left = image right

theorem one_lt_dedup_iff {α β : Type} [DecidableEq β] (image : α → β) (items : List α) :
    1 < (items.map image).dedup.length ↔ ¬OneImage image items := by
  constructor
  · intro several same
    cases items with
    | nil => simp at several
    | cons first rest =>
      have hsub : ((first :: rest).map image).dedup ⊆ [image first] := by
        intro value member
        obtain ⟨item, hitem, rfl⟩ := List.mem_map.mp (List.mem_dedup.mp member)
        exact List.mem_singleton.mpr (same item hitem first List.mem_cons_self)
      have := ((List.nodup_dedup _).subperm hsub).length_le
      rw [List.length_singleton] at this
      omega
  · intro differ
    by_contra few
    apply differ
    intro left hleft right hright
    have inside := fun item (member : item ∈ items) =>
      List.mem_dedup.mpr (List.mem_map_of_mem (f := image) member)
    match h : (items.map image).dedup with
    | [] =>
      have := inside left hleft
      simp [h] at this
    | [value] =>
      have hl := inside left hleft
      have hr := inside right hright
      rw [h, List.mem_singleton] at hl hr
      rw [hl, hr]
    | _ :: _ :: _ =>
      rw [h] at few
      simp at few

theorem sortLines_eq_iff {left right : List Text} :
    sortLines left = sortLines right ↔ left.Perm right := by
  constructor
  · intro same
    have hleft := List.perm_insertionSort (· ≤ ·) left
    have hright := List.perm_insertionSort (· ≤ ·) right
    rw [sortLines, sortLines] at same
    rw [same] at hleft
    exact hleft.symm.trans hright
  · intro perm
    apply List.Perm.eq_of_pairwise' (r := (· ≤ ·))
    · exact List.pairwise_insertionSort _ _
    · exact List.pairwise_insertionSort _ _
    · exact (List.perm_insertionSort _ left).trans (perm.trans (List.perm_insertionSort _ right).symm)

/-- What comes of running a language on an input: a run of the program, or an
answer without one, of which nothing is cut. -/
inductive Attempt where
  | ran (behaviour : Behaviour) (verdict error : Option String)
  | answered (result : RunResult)

namespace Attempt

/-- What `_run` returns. -/
def result (backend : Backend) : Attempt → RunResult
  | .ran behaviour verdict error => { behaviour.executed backend with verdict, error }
  | .answered result => result

/-- All that was written on stdout. -/
def complete : Attempt → Text
  | .ran behaviour _ _ => behaviour.complete
  | .answered result => result.output

/-- The executor's cap leaves all of it. -/
def Whole : Attempt → Prop
  | .ran behaviour _ _ => behaviour.timedOut = false ∧ ¬ behaviour.Overflows
  | .answered _ => True

end Attempt

section Exactness

variable (backend : Backend) {orderSensitive : Bool} {attempts : List Attempt}

def Attempt.succeeded (attempt : Attempt) : Bool := (attempt.result backend).ok

/-- What a row compares of an output. -/
def cutOutput (attempt : Attempt) : Text := (normalize (attempt.result backend).output).take 300

/-- All that the program wrote. -/
def fullOutput (attempt : Attempt) : Text := normalize attempt.complete

/-- Every two of the outputs have the same lines, however ordered. -/
def SameLines (output : Attempt → Text) (attempts : List Attempt) : Prop :=
  ∀ left ∈ attempts, ∀ right ∈ attempts,
    (splitLines (output left)).Perm (splitLines (output right))

/-- Two languages differ in ok status or in the multiset of their lines. -/
def ContentDiffers (attempts : List Attempt) : Prop :=
  ∃ left ∈ attempts, ∃ right ∈ attempts, left.succeeded backend ≠ right.succeeded backend ∨
    ¬(splitLines (fullOutput left)).Perm (splitLines (fullOutput right))

/-- They agree in these, and two of them in the order of the lines do not. -/
def OrderDiffers (attempts : List Attempt) : Prop :=
  ¬ContentDiffers backend attempts ∧ ∃ left ∈ attempts, ∃ right ∈ attempts,
    splitLines (fullOutput left) ≠ splitLines (fullOutput right)

/-- A row is reported as what it is, and not otherwise. -/
structure RowExact (orderSensitive : Bool) (attempts : List Attempt)
    (kind : Option DivergenceKind) : Prop where
  content : kind = some .content ↔ ContentDiffers backend attempts
  order : kind = some .order ↔ orderSensitive = true ∧ OrderDiffers backend attempts

/-- An output that neither the executor nor the row cuts. -/
def Attempt.Short (attempt : Attempt) : Prop :=
  attempt.Whole ∧ (fullOutput attempt).length ≤ 300

/-- Among languages of one ok status all outputs are short, or their lines
differ in the first three hundred characters as they do in full, or are the
same in both and in the same order in both or in neither. -/
def RowTold (orderSensitive : Bool) (attempts : List Attempt) : Prop :=
  OneImage (Attempt.succeeded backend) attempts →
    (∀ attempt ∈ attempts, attempt.Short) ∨
    (¬SameLines fullOutput attempts ∧ ¬SameLines (cutOutput backend) attempts) ∨
    (SameLines fullOutput attempts ∧ SameLines (cutOutput backend) attempts ∧
      (orderSensitive = true →
        (OneImage fullOutput attempts ↔ OneImage (cutOutput backend) attempts)))

variable {backend}

theorem contentDiffers_iff :
    ContentDiffers backend attempts ↔
      ¬(OneImage (Attempt.succeeded backend) attempts ∧ SameLines fullOutput attempts) := by
  constructor
  · rintro ⟨left, hleft, right, hright, differ⟩ ⟨hok, hlines⟩
    rcases differ with status | content
    · exact status (hok left hleft right hright)
    · exact content (hlines left hleft right hright)
  · intro differ
    by_contra none
    apply differ
    constructor
    · intro left hleft right hright
      by_contra status
      exact none ⟨left, hleft, right, hright, .inl status⟩
    · intro left hleft right hright
      by_contra content
      exact none ⟨left, hleft, right, hright, .inr content⟩

theorem orderDiffers_iff :
    OrderDiffers backend attempts ↔ OneImage (Attempt.succeeded backend) attempts ∧
      SameLines fullOutput attempts ∧ ¬OneImage fullOutput attempts := by
  have hseq : (∃ left ∈ attempts, ∃ right ∈ attempts,
      splitLines (fullOutput left) ≠ splitLines (fullOutput right)) ↔ ¬OneImage fullOutput attempts := by
    simp only [OneImage, not_forall, splitLines_injective.ne_iff, exists_prop]
  rw [OrderDiffers, contentDiffers_iff, not_not, hseq, and_assoc]

theorem Attempt.Whole.output {attempt : Attempt} (whole : attempt.Whole) :
    (attempt.result backend).output = attempt.complete := by
  cases attempt with
  | answered result => rfl
  | ran behaviour verdict error =>
    obtain ⟨alive, fits⟩ := whole
    exact (executed_output alive).trans (capped_of_fits fits)

theorem Attempt.Short.cut {attempt : Attempt} (short : attempt.Short) :
    cutOutput backend attempt = fullOutput attempt := by
  rw [cutOutput, short.1.output]
  exact List.take_of_length_le short.2

theorem cut_of_short (short : ∀ attempt ∈ attempts, attempt.Short) :
    (SameLines (cutOutput backend) attempts ↔ SameLines fullOutput attempts) ∧
      (OneImage (cutOutput backend) attempts ↔ OneImage fullOutput attempts) := by
  have same (left : Attempt) (hleft : left ∈ attempts) :
      cutOutput backend left = fullOutput left := (short left hleft).cut
  constructor
  · exact forall₂_congr fun left hleft => forall₂_congr fun right hright => by
      rw [same left hleft, same right hright]
  · exact forall₂_congr fun left hleft => forall₂_congr fun right hright => by
      rw [same left hleft, same right hright]

theorem stampRow_keeps (entry : RunEntry) (timedOut : Bool) (timeoutMessage : String) :
    (stampRow entry timedOut timeoutMessage).ok = entry.ok ∧
      (stampRow entry timedOut timeoutMessage).stdout = entry.stdout := by
  unfold stampRow
  split
  · exact ⟨rfl, rfl⟩
  · dsimp only
    split
    · exact ⟨rfl, rfl⟩
    · exact ⟨rfl, rfl⟩

theorem runEntry_shows (language : String) (timeout : Int) (attempt : Attempt) :
    (runEntry language timeout (attempt.result backend)).ok = attempt.succeeded backend ∧
      (runEntry language timeout (attempt.result backend)).stdout = cutOutput backend attempt :=
  stampRow_keeps _ _ _

/-- What the two behaviour sets of a row tell. -/
theorem divergenceKind_iff (orderSensitive : Bool) (entries : List RunEntry) :
    (divergenceKind orderSensitive entries = some .content ↔
      ¬OneImage (fun entry : RunEntry => (entry.ok, sortLines (splitLines entry.stdout))) entries) ∧
    (divergenceKind orderSensitive entries = some .order ↔ orderSensitive = true ∧
      OneImage (fun entry : RunEntry => (entry.ok, sortLines (splitLines entry.stdout))) entries ∧
      ¬OneImage (fun entry : RunEntry => (entry.ok, splitLines entry.stdout)) entries) := by
  rw [← one_lt_dedup_iff, ← not_not (a := OneImage _ _), ← one_lt_dedup_iff, ← one_lt_dedup_iff]
  unfold divergenceKind sortedBehaviors exactBehaviors
  by_cases several : 1 < entries.length
  · rw [if_pos several]
    by_cases content : 1 < (entries.map fun entry =>
        (entry.ok, sortLines (splitLines entry.stdout))).dedup.length
    · simp [content]
    · by_cases order : 1 < (entries.map fun entry => (entry.ok, splitLines entry.stdout)).dedup.length
      · cases orderSensitive <;> simp [content, order]
      · simp [content, order]
  · have few {β : Type} [DecidableEq β] (image : RunEntry → β) :
        ¬1 < (entries.map image).dedup.length := by
      have := (List.dedup_sublist (entries.map image)).length_le
      rw [List.length_map] at this
      omega
    simp [several, few]

variable {α : Type} {items : List α} {attempt : α → Attempt} {entry : α → RunEntry}

theorem forall_pairs_and {p q : α → α → Prop} :
    (∀ left ∈ items, ∀ right ∈ items, p left right ∧ q left right) ↔
      (∀ left ∈ items, ∀ right ∈ items, p left right) ∧ ∀ left ∈ items, ∀ right ∈ items, q left right := by
  simp only [forall_and]

theorem rowExact_iff (shows : ∀ item, (entry item).ok = (attempt item).succeeded backend ∧
      (entry item).stdout = cutOutput backend (attempt item)) :
    RowExact backend orderSensitive (items.map attempt)
        (divergenceKind orderSensitive (items.map entry)) ↔
      RowTold backend orderSensitive (items.map attempt) := by
  have hsorted : OneImage (fun entry : RunEntry => (entry.ok, sortLines (splitLines entry.stdout)))
      (items.map entry) ↔ OneImage (Attempt.succeeded backend) (items.map attempt) ∧
        SameLines (cutOutput backend) (items.map attempt) := by
    simp only [OneImage, SameLines, List.forall_mem_map, shows, Prod.mk.injEq, sortLines_eq_iff]
    exact forall_pairs_and
  have hexact : OneImage (fun entry : RunEntry => (entry.ok, splitLines entry.stdout))
      (items.map entry) ↔ OneImage (Attempt.succeeded backend) (items.map attempt) ∧
        OneImage (cutOutput backend) (items.map attempt) := by
    simp only [OneImage, List.forall_mem_map, shows, Prod.mk.injEq, splitLines_injective.eq_iff]
    exact forall_pairs_and
  obtain ⟨hcontent, horder⟩ := divergenceKind_iff orderSensitive (items.map entry)
  rw [hsorted] at hcontent
  rw [hsorted, hexact] at horder
  generalize items.map attempt = attempts at hcontent horder ⊢
  constructor
  · rintro ⟨content, order⟩ status
    rw [hcontent, contentDiffers_iff, not_iff_not] at content
    rw [horder, orderDiffers_iff] at order
    simp only [status, true_and] at content order
    by_cases lines : SameLines fullOutput attempts
    · have cutLines := content.mpr lines
      refine .inr (.inr ⟨lines, cutLines, ?_⟩)
      intro sensitive
      simp only [sensitive, lines, cutLines, true_and, not_iff_not] at order
      exact order.symm
    · exact .inr (.inl ⟨lines, fun cutLines => lines (content.mp cutLines)⟩)
  · intro told
    constructor
    · rw [hcontent, contentDiffers_iff, not_iff_not]
      apply and_congr_right
      intro status
      obtain short | ⟨lines, cutLines⟩ | ⟨lines, cutLines, _⟩ := told status
      · exact (cut_of_short short).1
      · exact iff_of_false cutLines lines
      · exact iff_of_true cutLines lines
    · rw [horder, orderDiffers_iff]
      apply and_congr_right
      intro sensitive
      by_cases status : OneImage (Attempt.succeeded backend) attempts
      · simp only [status, true_and]
        obtain short | ⟨lines, cutLines⟩ | ⟨lines, cutLines, images⟩ := told status
        · rw [(cut_of_short short).1, (cut_of_short short).2]
        · simp only [lines, cutLines, false_and]
        · simp only [lines, cutLines, images sensitive, true_and]
      · simp only [status, false_and]

def rowAttempts (run : Nat → String → String → Text → Attempt) (snippets : Dict String String)
    (position : Nat) (stdin : Text) : List Attempt :=
  snippets.entries.map fun snippet => run position snippet.1 snippet.2 stdin

def answers (backend : Backend) (run : Nat → String → String → Text → Attempt) (position : Nat)
    (language code : String) (stdin : Text) : RunResult :=
  (run position language code stdin).result backend

end Exactness

section Tails

/-- Three hundred letters and one more byte. -/
def tail (last : UInt8) : Attempt :=
  .ran ⟨true, 0, false, List.replicate 300 97 ++ [last], []⟩ none none

theorem whole_tail (last : UInt8) : (tail last).Whole := by
  refine ⟨rfl, ?_⟩
  have room : ¬ outBudget maxOutputBytes 0 < 300 + 1 := by decide
  rwa [Behaviour.Overflows, List.length_append, List.length_replicate, List.length_singleton]

theorem fullOutput_tail {last : UInt8} (ascii : last ≤ 0x7F) : fullOutput (tail last) =
    normalize (List.replicate 300 (CodePoint.ofChar 'a') ++ [codePoint last []]) := by
  have plain : ∀ byte ∈ List.replicate 300 97 ++ [last], byte ≤ 0x7F := by
    intro byte member
    rcases List.mem_append.mp member with filler | final
    · rw [List.eq_of_mem_replicate filler]
      decide
    · rwa [List.mem_singleton.mp final]
  rw [fullOutput, tail, Attempt.complete, Behaviour.complete, lossy_ascii plain, List.map_append,
    List.map_replicate]
  rfl

theorem fullOutput_tail_b : fullOutput (tail 98) =
    List.replicate 300 (CodePoint.ofChar 'a') ++ [CodePoint.ofChar 'b'] := by
  rw [fullOutput_tail (by decide)]
  decide +kernel

theorem fullOutput_tail_c : fullOutput (tail 99) =
    List.replicate 300 (CodePoint.ofChar 'a') ++ [CodePoint.ofChar 'c'] := by
  rw [fullOutput_tail (by decide)]
  decide +kernel

theorem cutOutput_tail (backend : Backend) {last : UInt8} (either : last = 98 ∨ last = 99) :
    cutOutput backend (tail last) = List.replicate 300 (CodePoint.ofChar 'a') := by
  have cut : cutOutput backend (tail last) = (fullOutput (tail last)).take 300 := by
    rw [cutOutput, (whole_tail last).output, fullOutput]
  obtain rfl | rfl := either
  · rw [cut, fullOutput_tail_b]
    exact List.take_left' List.length_replicate
  · rw [cut, fullOutput_tail_c]
    exact List.take_left' List.length_replicate

theorem tails_differ :
    ¬(splitLines (fullOutput (tail 98))).Perm (splitLines (fullOutput (tail 99))) := by
  rw [fullOutput_tail_b, fullOutput_tail_c]
  decide +kernel

/-- Two outputs that differ in their last character only are not told apart. -/
theorem not_rowTold_tails (backend : Backend) (orderSensitive : Bool) :
    ¬RowTold backend orderSensitive [tail 98, tail 99] := by
  intro told
  have status : OneImage (Attempt.succeeded backend) [tail 98, tail 99] := by
    intro left hleft right hright
    simp only [List.mem_cons, List.not_mem_nil, or_false] at hleft hright
    have succeeded (last : UInt8) : (tail last).succeeded backend = true := rfl
    obtain rfl | rfl := hleft <;> obtain rfl | rfl := hright <;> simp only [succeeded]
  have differ : ¬SameLines fullOutput [tail 98, tail 99] := by
    intro same
    exact tails_differ (same _ List.mem_cons_self _ (List.mem_cons_of_mem _ List.mem_cons_self))
  have cutOne : ∀ attempt ∈ [tail 98, tail 99],
      cutOutput backend attempt = List.replicate 300 (CodePoint.ofChar 'a') := by
    intro attempt member
    simp only [List.mem_cons, List.not_mem_nil, or_false] at member
    obtain rfl | rfl := member
    · exact cutOutput_tail backend (.inl rfl)
    · exact cutOutput_tail backend (.inr rfl)
  have cutSame : SameLines (cutOutput backend) [tail 98, tail 99] := by
    intro left hleft right hright
    exact .of_eq (congrArg splitLines ((cutOne left hleft).trans (cutOne right hright).symm))
  obtain short | ⟨_, cutDiffer⟩ | ⟨same, _⟩ := told status
  · have := (short _ List.mem_cons_self).2
    rw [fullOutput_tail_b, List.length_append, List.length_replicate, List.length_singleton] at this
    omega
  · exact cutDiffer cutSame
  · exact differ same

theorem divergenceKind_tails (backend : Backend) :
    divergenceKind true [runEntry "python3" 15 ((tail 99).result backend),
      runEntry "node" 15 ((tail 98).result backend)] = none := by
  have shown (language : String) (last : UInt8) (either : last = 98 ∨ last = 99) :
      (runEntry language 15 ((tail last).result backend)).ok = true ∧
        (runEntry language 15 ((tail last).result backend)).stdout =
          List.replicate 300 (CodePoint.ofChar 'a') := by
    obtain ⟨ok, stdout⟩ := @runEntry_shows backend language 15 (tail last)
    exact ⟨ok.trans rfl, stdout.trans (cutOutput_tail backend either)⟩
  have first := shown "python3" 99 (.inr rfl)
  have second := shown "node" 98 (.inl rfl)
  generalize List.replicate 300 (CodePoint.ofChar 'a') = shown at first second
  simp [divergenceKind, sortedBehaviors, exactBehaviors, first, second]

end Tails

theorem kind_edgeDivergence (orderSensitive : Bool) (row : Row) :
    (edgeDivergence orderSensitive row).map Divergence.kind =
      divergenceKind orderSensitive (row.runs.map Prod.snd) := by
  rw [edgeDivergence, Option.map_map]
  exact Option.map_id'

/-- Rows of outputs up to a length are reported as they are if and only if the row shows
outputs of that length whole. -/
theorem rowsExact_iff (backend : Backend) (orderSensitive : Bool) (timeout : Int) (limit : Nat) :
    (∀ runs : List (String × Attempt),
      (∀ run ∈ runs, run.2.Whole ∧ (fullOutput run.2).length ≤ limit) →
      RowExact backend orderSensitive (runs.map Prod.snd) (divergenceKind orderSensitive
        (runs.map fun run => runEntry run.1 timeout (run.2.result backend)))) ↔
    limit ≤ 300 := by
  have told (runs : List (String × Attempt)) :
      RowExact backend orderSensitive (runs.map Prod.snd) (divergenceKind orderSensitive
          (runs.map fun run => runEntry run.1 timeout (run.2.result backend))) ↔
        RowTold backend orderSensitive (runs.map Prod.snd) :=
    rowExact_iff fun run => runEntry_shows run.1 timeout run.2
  simp only [told]
  constructor
  · intro exact
    by_contra beyond
    refine not_rowTold_tails backend orderSensitive (exact [("python3", tail 98), ("node", tail 99)] ?_)
    intro run member
    simp only [List.mem_cons, List.not_mem_nil, or_false] at member
    obtain rfl | rfl := member
    · refine ⟨whole_tail _, ?_⟩
      rw [fullOutput_tail_b, List.length_append, List.length_replicate, List.length_singleton]
      omega
    · refine ⟨whole_tail _, ?_⟩
      rw [fullOutput_tail_c, List.length_append, List.length_replicate, List.length_singleton]
      omega
  · intro small runs short _
    refine .inl ?_
    intro attempt member
    obtain ⟨run, inside, rfl⟩ := List.mem_map.mp member
    exact ⟨(short run inside).1, (short run inside).2.trans small⟩

/-- The divergences are those of the rows and no others, and the row of an input
is reported as what its outputs are if and only if they are told as they are;
and every row whose outputs have at most so many characters is, if and only if
that is no more than what the row shows of them. -/
theorem divergences_exact_iff (backend : Backend) (orderSensitive : Bool) (timeout : Int) :
    (∀ {run : Nat → String → String → Text → Attempt} {snippets : Dict String String}
        {inputs : Option (List Text)} {report : EdgeReport},
      compareEdgeCases (answers backend run) snippets inputs timeout orderSensitive = .ok report →
      report.divergences = report.results.filterMap (edgeDivergence orderSensitive) ∧
      report.results.length = report.inputs.length ∧
      ∀ position stdin row, report.inputs[position]? = some stdin → report.results[position]? = some row →
        row.input = stdin.take 60 ∧
        (RowExact backend orderSensitive (rowAttempts run snippets position stdin)
            ((edgeDivergence orderSensitive row).map Divergence.kind) ↔
          RowTold backend orderSensitive (rowAttempts run snippets position stdin))) ∧
    ∀ limit : Nat,
      (∀ runs : List (String × Attempt),
        (∀ run ∈ runs, run.2.Whole ∧ (fullOutput run.2).length ≤ limit) →
        RowExact backend orderSensitive (runs.map Prod.snd) (divergenceKind orderSensitive
          (runs.map fun run => runEntry run.1 timeout (run.2.result backend)))) ↔
      limit ≤ 300 := by
  constructor
  · intro run snippets inputs report ran
    unfold compareEdgeCases at ran
    split at ran
    · cases ran
    · cases ran
      refine ⟨rfl, List.length_mapIdx, ?_⟩
      intro position stdin row hinput hrow
      rw [List.getElem?_mapIdx, hinput] at hrow
      cases hrow
      apply And.intro rfl
      rw [kind_edgeDivergence]
      have hruns : (edgeRow (fun language code => answers backend run position language code stdin) snippets
          timeout stdin).runs.map Prod.snd = snippets.entries.map fun snippet =>
            runEntry snippet.1 timeout ((run position snippet.1 snippet.2 stdin).result backend) :=
        List.map_map
      rw [hruns]
      exact rowExact_iff fun snippet => runEntry_shows _ _ _
  · exact rowsExact_iff backend orderSensitive timeout

section Examples

def twoLanguages : Dict String String := (Dict.empty.set "python3" "").set "node" ""

def tailRun (_ : Nat) (language _ : String) (_ : Text) : Attempt :=
  tail (if language = "node" then 98 else 99)

/-- Two languages that differ in the last character are reported as agreeing. -/
theorem tail_unreported : ∃ report,
    compareEdgeCases (answers .native tailRun) twoLanguages (some [[]]) 15 true = .ok report ∧
      report.divergences = [] ∧ ContentDiffers .native (rowAttempts tailRun twoLanguages 0 []) ∧
      ¬RowExact .native true (rowAttempts tailRun twoLanguages 0 [])
        ((report.results[0]?.bind (edgeDivergence true)).map Divergence.kind) := by
  have differs : ContentDiffers .native (rowAttempts tailRun twoLanguages 0 []) :=
    ⟨tail 98, List.mem_cons_of_mem _ List.mem_cons_self, tail 99, List.mem_cons_self, .inr tails_differ⟩
  have silent : edgeDivergence true
      (edgeRow (fun language code => answers .native tailRun 0 language code []) twoLanguages 15 []) =
        none := by
    apply Option.map_eq_none_iff.mpr
    exact divergenceKind_tails .native
  refine ⟨_, rfl, List.filterMap_cons_none silent, differs, ?_⟩
  intro exact
  have reported := exact.content.mpr differs
  have first : (edgeDivergence true (edgeRow (fun language code => answers .native tailRun 0 language code [])
      twoLanguages 15 [])).map Divergence.kind = some .content := reported
  rw [silent] at first
  cases first

/-- One language prints two lines the other way round, and is reported so. -/
def swappedRun (_ : Nat) (language _ : String) (_ : Text) : Attempt :=
  .answered { ok := true, stdout := some (Text.ofString (if language = "node" then "a\nb" else "b\na")) }

def swappedReport : EdgeReport :=
  (compareEdgeCases (answers .native swappedRun) twoLanguages (some [[]]) 15 true).toOption.getD
    ⟨[], [], 0, [], []⟩

theorem swapped_exact :
    swappedReport.divergences.map Divergence.kind = [.order] ∧
      swappedReport.divergences = swappedReport.results.filterMap (edgeDivergence true) :=
  ⟨by decide,
    ((divergences_exact_iff .native true 15).1 (show compareEdgeCases (answers .native swappedRun)
      twoLanguages (some [[]]) 15 true = .ok swappedReport from rfl)).1⟩

end Examples

end CodeCalc.Translation
