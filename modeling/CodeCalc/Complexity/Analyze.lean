import Mathlib.Analysis.SpecialFunctions.Log.Basic
import Mathlib.Analysis.SpecificLimits.Normed
import CodeCalc.Errors
import CodeCalc.Lib.Nesting
import CodeCalc.Lib.Regex
import CodeCalc.Lib.Text

/-! The growth class that `analyze` reads off a program's structure: the loops
and how deep they nest, a function that calls itself, and calls of a sort. -/
namespace CodeCalc.Complexity
open Lib

section Patterns

/- `isWord` is `\w`. -/
variable (isWord : CodePoint → Bool)

def literal (text : String) : Regex CodePoint := Regex.word (Text.ofString text)

def edge : Regex CodePoint := .edge isWord

/-- `\s*`. -/
def blanks : Regex CodePoint := .many true (.one isSpace)

/-- `\s+`. -/
def gap : Regex CodePoint := .some_ (.one isSpace)

/-- `\w+`. -/
def name : Regex CodePoint := .some_ (.one isWord)

def loopRe : Regex CodePoint :=
  .anyOf
    [.concat [edge isWord, .group 1 (.anyOf
        (["for", "while", "foreach", "until", "loop", "repeat"].map literal)), edge isWord],
      .concat [edge isWord, literal "for", blanks, literal "("],
      literal ".forEach(", literal ".map(", literal ".filter(", literal ".reduce(",
      .concat [literal "for", gap, name isWord, gap, literal "in", edge isWord],
      .concat [literal "for", gap, name isWord, blanks, literal ":="],
      .concat [literal "for", gap, name isWord, gap, literal "of", edge isWord]]

def recursionRe : Regex CodePoint :=
  .anyOf
    [.concat [edge isWord, .group 1 (.anyOf
        [literal "def", .seq (literal "func") (.maybe (literal "tion")), literal "fn",
          literal "sub"]), gap, .group 2 (name isWord), blanks, literal "("],
      .concat [literal "public", gap, .maybe (.seq (literal "static") gap), name isWord, gap,
        .group 3 (name isWord), blanks, literal "("]]

def sortRe : Regex CodePoint :=
  .anyOf
    [literal ".sort(", literal ".sort_by(", .seq (edge isWord) (literal "sort("),
      .seq (edge isWord) (literal "sorted("),
      .concat [edge isWord, literal "sort_by", edge isWord]]

def hashRe : Regex CodePoint :=
  .anyOf
    ((["dict", "HashMap", "Map", "HashSet", "Set"].map fun word =>
        .concat [edge isWord, literal word, edge isWord]) ++
      [.seq (edge isWord) (literal "\x7b\x7d"),
        .concat [edge isWord, literal "Hash", edge isWord]])

/-- The definition of a function up to the first line that is not indented. -/
def bodyRe (fn : Text) : Regex CodePoint :=
  .concat
    [edge isWord, .word fn, blanks, literal "(", .many true (.one fun code => code ≠ ')'),
      literal ")", .many true (.one fun code => code ≠ '#' ∧ code ≠ newline), literal "\n",
      .group 1 (.many false (.one fun _ => true)),
      .ahead (.alt (.seq (literal "\n") (.one fun code => !isSpace code)) .finish)]

def callRe (fn : Text) : Regex CodePoint :=
  .concat [edge isWord, .word fn, blanks, literal "("]

end Patterns

section Source

variable (isWord : CodePoint → Bool)

def begins (prefixes : List String) (line : Text) : Bool :=
  prefixes.any fun start => (Text.ofString start).isPrefixOf line

/-- A line that is neither blank nor a comment, as `_count_loops` reads it. -/
def scannedLine (raw : Text) : Option (Nesting.Line Nat) :=
  let stripped := stripSpace raw
  if stripped.isEmpty || begins ["#", "//", "/*", "*"] stripped then none
  else some ⟨(raw.takeWhile isSpace).length,
    ((loopRe isWord).search raw).isSome && !begins ["\x7d", ")"] stripped⟩

def scannedLines (code : Text) : List (Nesting.Line Nat) :=
  (universalLines code).filterMap (scannedLine isWord)

def countLoops (code : Text) : Nat × Nat :=
  let scan := Nesting.scan (scannedLines isWord code)
  (scan.count, scan.deepest)

/-- `_detect_recursion`, the name of the first function that calls itself. -/
def detectRecursion (code : Text) : Option Text :=
  let funcs := ((recursionRe isWord).findAll code).filterMap fun found =>
    (found.group 2).or (found.group 3)
  funcs.find? fun fn =>
    (((bodyRe isWord fn).search code).bind fun found => found.group 1).any fun body =>
      ((callRe isWord fn).search body).isSome

def hasSort (code : Text) : Bool := ((sortRe isWord).search code).isSome

def hasHash (code : Text) : Bool := ((hashRe isWord).search code).isSome

/-- `parsing.ParseFacts`, as far as `analyze` reads it.  The parser counts a loop
where it meets one, and its depth with it. -/
structure ParseFacts where
  grammar : Option Text
  parsed : Bool
  loops : Nat
  maxLoopDepth : Nat
  functions : List Text
  recursiveFunctions : List Text
  hasError : Bool
  reason : Option Text
  tooDeep : Bool
  depth_le : maxLoopDepth ≤ loops
  depth_pos : 0 < maxLoopDepth ↔ 0 < loops

/-- The texts that `estimate` can be. -/
inductive Estimate where
  | exponential
  | power (degree : Nat)
  | linear
  | sorting
  | constant
  deriving DecidableEq, Repr

def Estimate.text : Estimate → Text
  | exponential => Text.ofString "O(2^n) — recursion detected"
  | power degree => Text.ofString "O(n^" ++ decimal degree ++ Text.ofString ")"
  | linear => Text.ofString "O(n) — with sort: O(n log n)"
  | sorting => Text.ofString "O(n log n)"
  | constant => Text.ofString "O(1)"

def noLoops : Text := Text.ofString "no loops, no recursion"

def baseEstimate (recursion : Option Text) (depth loops : Nat) (sorts : Bool) : Estimate × Text :=
  match recursion with
  | some fn => (.exponential, Text.ofString "recursive function '" ++ fn ++ Text.ofString "'")
  | none =>
    if 2 ≤ depth then
      (.power depth, decimal depth ++ Text.ofString " nested loop levels (" ++ decimal loops ++
        Text.ofString " loop constructs)")
    else if loops = 1 then (.linear, Text.ofString "1 loop level")
    else if sorts ∧ loops = 0 then (.sorting, Text.ofString "sorting call, no loops")
    else (.constant, noLoops)

/-- What `analyze` answers when it answers. -/
structure Report where
  estimate : Estimate
  basis : Text
  loops : Nat
  maxNesting : Nat
  recursion : Bool
  analysis : Text
  grammar : Option Text
  functions : List Text
  notes : List Text

def treeSitter : Text := Text.ofString "tree-sitter"

def regexFallback : Text := Text.ofString "regex-fallback"

def notes (facts : ParseFacts) (recursive : Bool) (loops : Nat) (sorts hashes : Bool) : List Text :=
  (if sorts then [Text.ofString "sort/builtin detected (O(n log n) worst case)"] else []) ++
  (if hashes then [Text.ofString "hash structures → average-case O(1) lookups"] else []) ++
  (if loops = 0 ∧ ¬ recursive ∧ ¬ sorts then
    [Text.ofString "constant-time surface; may hide loops in library calls"] else []) ++
  (match facts.parsed, facts.reason with
    | false, some reason =>
      if reason.isEmpty then []
      else [Text.ofString "structural heuristic only (" ++ reason ++ Text.ofString ")"]
    | _, _ => []) ++
  (if facts.parsed ∧ facts.hasError then
    [Text.ofString "source has syntax errors; the parse is partial"] else [])

def counts (facts : ParseFacts) (code : Text) : Nat × Nat × Option Text :=
  if facts.parsed then (facts.loops, facts.maxLoopDepth, facts.recursiveFunctions.head?)
  else
    let (loops, depth) := countLoops isWord code
    (loops, depth, detectRecursion isWord code)

/-- `analyze`; `parsing` is `parsing.analyse`.  Source that is nested too deep
is an `error_result` with the parser's reason. -/
def analyze (parsing : Text → Text → ParseFacts) (code language : Text) :
    Except (Errors.Code × Option Text) Report :=
  let facts := parsing code language
  if facts.tooDeep then .error (.resourceExhausted, facts.reason)
  else
    let (loops, depth, recursion) := counts isWord facts code
    let sorts := hasSort isWord code
    let (estimate, basis) := baseEstimate recursion depth loops sorts
    .ok {
      estimate := estimate
      basis := basis
      loops := loops
      maxNesting := depth
      recursion := recursion.isSome
      analysis := if facts.parsed then treeSitter else regexFallback
      grammar := facts.grammar
      functions := if facts.parsed then facts.functions else []
      notes := notes facts recursion.isSome loops sorts (hasHash isWord code) }

end Source

section Growth

open Asymptotics Filter

local instance two_atLeastTwo : Nat.AtLeastTwo 2 := ⟨le_rfl⟩

/-- The growth class of an estimate: `linear` names two, one for a program that sorts. -/
noncomputable def Estimate.curve (sorts : Bool) : Estimate → ℕ → ℝ
  | exponential, n => 2 ^ n
  | power degree, n => (n : ℝ) ^ degree
  | linear, n => if sorts then n * Real.log n else n
  | sorting, n => n * Real.log n
  | constant, _ => 1

@[simp] theorem curve_power (sorts : Bool) (degree : ℕ) :
    (Estimate.power degree).curve sorts = fun n : ℕ => (n : ℝ) ^ degree := rfl

@[simp] theorem curve_linear_plain : Estimate.linear.curve false = fun n : ℕ => (n : ℝ) := rfl

@[simp] theorem curve_linear_sorts :
    Estimate.linear.curve true = fun n : ℕ => (n : ℝ) * Real.log n := rfl

@[simp] theorem curve_sorting (sorts : Bool) :
    Estimate.sorting.curve sorts = fun n : ℕ => (n : ℝ) * Real.log n := rfl

@[simp] theorem curve_constant (sorts : Bool) :
    Estimate.constant.curve sorts = fun _ : ℕ => (1 : ℝ) := rfl

private theorem one_isBigO_power (degree : ℕ) :
    (fun _ : ℕ => (1 : ℝ)) =O[atTop] fun n : ℕ => (n : ℝ) ^ degree := by
  apply IsBigO.of_bound 1
  filter_upwards [eventually_ge_atTop 1] with n hn
  have large : (1 : ℝ) ≤ n := by exact_mod_cast hn
  rw [one_mul, norm_one, Real.norm_of_nonneg (by positivity)]
  exact one_le_pow₀ large

private theorem power_isBigO_power {less more : ℕ} (h : less ≤ more) :
    (fun n : ℕ => (n : ℝ) ^ less) =O[atTop] fun n : ℕ => (n : ℝ) ^ more := by
  apply IsBigO.of_bound 1
  filter_upwards [eventually_ge_atTop 1] with n hn
  have large : (1 : ℝ) ≤ n := by exact_mod_cast hn
  rw [one_mul, Real.norm_of_nonneg (by positivity), Real.norm_of_nonneg (by positivity)]
  exact pow_le_pow_right₀ large h

private theorem linearithmic_isBigO_power {degree : ℕ} (h : 2 ≤ degree) :
    (fun n : ℕ => (n : ℝ) * Real.log n) =O[atTop] fun n : ℕ => (n : ℝ) ^ degree := by
  have square : (fun n : ℕ => (n : ℝ) * Real.log n) =O[atTop] fun n : ℕ => (n : ℝ) ^ 2 := by
    apply IsBigO.of_bound 1
    filter_upwards [eventually_ge_atTop 1] with n hn
    have large : (1 : ℝ) ≤ n := by exact_mod_cast hn
    have log_nonneg := Real.log_nonneg large
    have log_le := Real.log_le_self (show (0 : ℝ) ≤ n by positivity)
    rw [one_mul, Real.norm_of_nonneg (by positivity), Real.norm_of_nonneg (by positivity), sq]
    exact mul_le_mul_of_nonneg_left log_le (by positivity)
  exact square.trans (power_isBigO_power h)

/-- The counts of a program: every nesting is of loops, and a loop nests once. -/
def Consistent (loops depth : Nat) : Prop := depth ≤ loops ∧ (0 < depth ↔ 0 < loops)

/-- Loops that follow one another, none inside another. -/
def SideBySide (loops depth : Nat) : Prop := 2 ≤ loops ∧ depth < 2

theorem baseEstimate_none (depth loops : Nat) (sorts : Bool) :
    (baseEstimate none depth loops sorts).1 =
      if 2 ≤ depth then .power depth
      else if loops = 1 then .linear
      else if sorts ∧ loops = 0 then .sorting
      else .constant := by
  unfold baseEstimate
  dsimp only
  split_ifs <;> rfl

private theorem shallow_isBigO_power {depth degree : Nat} (shallow : ¬ 2 ≤ depth)
    (high : 2 ≤ degree) (loops : Nat) (sorts : Bool) :
    (baseEstimate none depth loops sorts).1.curve sorts =O[atTop]
      fun n : ℕ => (n : ℝ) ^ degree := by
  rw [baseEstimate_none, if_neg shallow]
  by_cases single : loops = 1
  · rw [if_pos single]
    cases sorts with
    | false => simpa using power_isBigO_power (show 1 ≤ degree by omega)
    | true => exact linearithmic_isBigO_power high
  · rw [if_neg single]
    by_cases sorting : sorts ∧ loops = 0
    · rw [if_pos sorting]
      exact linearithmic_isBigO_power high
    · rw [if_neg sorting]
      exact one_isBigO_power degree

/-- No count can grow into a smaller class than before, unless it grows into loops
that follow one another. -/
theorem baseEstimate_mono {loops depth loops' depth' : Nat} (consistent : Consistent loops depth)
    (recursion : Option Text) (sorts : Bool) (moreLoops : loops ≤ loops') (deeper : depth ≤ depth')
    (nested : recursion ≠ none ∨ ¬ SideBySide loops' depth') :
    (baseEstimate recursion depth loops sorts).1.curve sorts =O[atTop]
      (baseEstimate recursion depth' loops' sorts).1.curve sorts := by
  obtain ⟨depth_le, depth_pos⟩ := consistent
  cases recursion with
  | some fn => exact isBigO_refl _ _
  | none =>
    have nested : ¬ SideBySide loops' depth' := by simpa using nested
    unfold SideBySide at nested
    by_cases deep' : 2 ≤ depth'
    · rw [baseEstimate_none depth', if_pos deep', curve_power]
      by_cases deep : 2 ≤ depth
      · rw [baseEstimate_none, if_pos deep, curve_power]
        exact power_isBigO_power deeper
      · exact shallow_isBigO_power deep deep' loops sorts
    · have shallow : ¬ 2 ≤ depth := by omega
      rw [baseEstimate_none, baseEstimate_none, if_neg deep', if_neg shallow]
      by_cases single' : loops' = 1
      · rw [if_pos single']
        by_cases single : loops = 1
        · rw [if_pos single]
        · have none : loops = 0 := by omega
          rw [if_neg single]
          cases sorts with
          | false => simpa using one_isBigO_power 1
          | true =>
            rw [if_pos ⟨rfl, none⟩, curve_sorting, curve_linear_sorts]
      · have same : loops = loops' := by omega
        rw [same, if_neg single']

theorem baseEstimate_constant_iff {loops depth : Nat} (consistent : Consistent loops depth)
    (recursion : Option Text) (sorts : Bool) :
    baseEstimate recursion depth loops sorts = (.constant, noLoops) ↔
      recursion = none ∧ (loops = 0 ∧ sorts = false ∨ SideBySide loops depth) := by
  obtain ⟨depth_le, depth_pos⟩ := consistent
  unfold baseEstimate SideBySide
  cases recursion with
  | some fn => simp
  | none =>
    by_cases deep : 2 ≤ depth
    · simp [deep]
      omega
    · by_cases single : loops = 1
      · simp [deep, single]
      · by_cases none : loops = 0
        · cases sorts <;> simp [none, deep]
        · simp [deep, single, none]
          omega

end Growth

section Verdict

variable (isWord : CodePoint → Bool) (facts : ParseFacts) (code : Text)

/-- A function that calls itself was found. -/
def Recurses : Prop :=
  if facts.parsed then facts.recursiveFunctions ≠ [] else detectRecursion isWord code ≠ none

/-- Two loops or more, none inside another: by the parser's counts or, without a
parse, by the loop lines of the text. -/
def LoopsFollow : Prop :=
  if facts.parsed then SideBySide facts.loops facts.maxLoopDepth
  else
    2 ≤ (scannedLines isWord code).countP Nesting.Line.opens ∧
      ∀ outer inner, (∃ indent, (scannedLines isWord code)[inner]? = some ⟨indent, true⟩) →
        ¬ Nesting.Encloses (scannedLines isWord code) outer inner

structure Faithful (report : Report) : Prop where
  loops_eq : facts.parsed = false →
    report.loops = (scannedLines isWord code).countP Nesting.Line.opens
  longest : facts.parsed = false → IsGreatest
    {length | ∃ positions, Nesting.Chain (scannedLines isWord code) positions ∧
      positions.length = length} report.maxNesting
  consistent : Consistent report.loops report.maxNesting
  constant_iff : report.estimate = .constant ∧ report.basis = noLoops ↔
    report.loops = 0 ∧ report.recursion = false ∧ hasSort isWord code = false
  mono : ∀ loops depth, Consistent loops depth → loops ≤ report.loops →
    depth ≤ report.maxNesting →
    (baseEstimate (counts isWord facts code).2.2 depth loops (hasSort isWord code)).1.curve
        (hasSort isWord code) =O[Filter.atTop]
      report.estimate.curve (hasSort isWord code)

variable {isWord facts code}

theorem consistent_counts :
    Consistent (counts isWord facts code).1 (counts isWord facts code).2.1 := by
  unfold counts
  split
  · exact ⟨facts.depth_le, facts.depth_pos⟩
  · have bounded := Nesting.bounded_scan (scannedLines isWord code)
    exact ⟨bounded.deepest_le, fun deep => deep.trans_le bounded.deepest_le, bounded.deepest_pos⟩

theorem recursion_counts : (counts isWord facts code).2.2 = none ↔ ¬ Recurses isWord facts code := by
  unfold counts Recurses
  split <;> simp

theorem sideBySide_scan {lines : List (Nesting.Line Nat)} :
    SideBySide (Nesting.scan lines).count (Nesting.scan lines).deepest ↔
      2 ≤ lines.countP Nesting.Line.opens ∧
        ∀ outer inner, (∃ indent, lines[inner]? = some ⟨indent, true⟩) →
          ¬ Nesting.Encloses lines outer inner := by
  obtain ⟨-, counted, ⟨positions, chain, longest⟩, bounded⟩ := Nesting.invariant_scan lines
  rw [SideBySide, counted]
  apply and_congr_right
  intro _
  constructor
  · intro shallow outer inner opening enclosed
    obtain ⟨_, indent, opens, _⟩ := id enclosed
    have pair : Nesting.Chain lines [outer, inner] := by
      refine ⟨fun position member => ?_, by simpa using enclosed⟩
      rcases List.mem_cons.mp member with rfl | last
      · exact ⟨indent, opens⟩
      · rw [List.mem_singleton.mp last]
        exact opening
    have deep := bounded ⟨_, pair, rfl⟩
    simp only [List.length_cons, List.length_nil] at deep
    omega
  · intro apart
    by_contra deep
    match positions, longest with
    | [], longest | [_], longest =>
      simp only [List.length_cons, List.length_nil] at longest
      omega
    | outer :: inner :: rest, _ =>
      exact apart outer inner (chain.opening inner (by simp))
        ((List.isChain_cons_cons.mp chain.nested).1)

theorem sideBySide_counts :
    SideBySide (counts isWord facts code).1 (counts isWord facts code).2.1 ↔
      LoopsFollow isWord facts code := by
  unfold counts LoopsFollow
  split
  · exact Iff.rfl
  · exact sideBySide_scan

theorem report_of_analyze {parsing : Text → Text → ParseFacts} {language : Text} {report : Report}
    (answered : analyze isWord parsing code language = .ok report)
    (facts_eq : parsing code language = facts) :
    report.loops = (counts isWord facts code).1 ∧
      report.maxNesting = (counts isWord facts code).2.1 ∧
      report.recursion = (counts isWord facts code).2.2.isSome ∧
      (report.estimate, report.basis) = baseEstimate (counts isWord facts code).2.2
        report.maxNesting report.loops (hasSort isWord code) := by
  unfold analyze at answered
  rw [facts_eq] at answered
  dsimp only at answered
  split at answered
  · cases answered
  · cases answered
    exact ⟨rfl, rfl, rfl, rfl⟩

variable (isWord code) in
theorem exists_report (parsing : Text → Text → ParseFacts) {language : Text}
    (shallow : (parsing code language).tooDeep = false) :
    ∃ report, analyze isWord parsing code language = .ok report := by
  unfold analyze
  dsimp only
  rw [if_neg (by simp [shallow])]
  exact ⟨_, rfl⟩

/-- `analyze` understates the loops it counted exactly where they follow one another. -/
theorem analyze_faithful_iff {parsing : Text → Text → ParseFacts} {language : Text}
    {report : Report} (answered : analyze isWord parsing code language = .ok report) :
    Faithful isWord (parsing code language) code report ↔
      Recurses isWord (parsing code language) code ∨
        ¬ LoopsFollow isWord (parsing code language) code := by
  generalize facts_eq : parsing code language = facts
  obtain ⟨loops_eq, depth_eq, recursion_eq, estimate_eq⟩ := report_of_analyze answered facts_eq
  have consistent : Consistent (counts isWord facts code).1 (counts isWord facts code).2.1 :=
    consistent_counts
  rw [← sideBySide_counts, ← loops_eq, ← depth_eq]
  rw [← loops_eq, ← depth_eq] at consistent
  have constant : report.estimate = .constant ∧ report.basis = noLoops ↔
      (counts isWord facts code).2.2 = none ∧ (report.loops = 0 ∧ hasSort isWord code = false ∨
        SideBySide report.loops report.maxNesting) := by
    rw [← baseEstimate_constant_iff consistent, ← estimate_eq, Prod.mk.injEq]
  constructor
  · intro faithful
    by_contra wrong
    rw [not_or, not_not] at wrong
    have verdict := constant.mpr ⟨recursion_counts.mpr wrong.1, Or.inr wrong.2⟩
    have none := (faithful.constant_iff.mp verdict).1
    have two := wrong.2.1
    omega
  · intro fine
    have nested : (counts isWord facts code).2.2 ≠ none ∨
        ¬ SideBySide report.loops report.maxNesting := by
      rwa [Ne, recursion_counts, not_not]
    refine ⟨fun fallback => ?_, fun fallback => ?_, consistent, ?_, ?_⟩
    · rw [loops_eq, counts, if_neg (by simp [fallback])]
      exact (Nesting.invariant_scan _).counted
    · rw [depth_eq, counts, if_neg (by simp [fallback])]
      exact (Nesting.invariant_scan _).deepest
    · rw [constant, recursion_eq, Option.isSome_eq_false_iff, Option.isNone_iff_eq_none]
      constructor
      · rintro ⟨quiet, ⟨none, plain⟩ | follow⟩
        · exact ⟨none, quiet, plain⟩
        · rcases nested with found | apart
          · exact absurd quiet found
          · exact absurd follow apart
      · rintro ⟨none, quiet, plain⟩
        exact ⟨quiet, Or.inl ⟨none, plain⟩⟩
    · intro loops depth consistent' fewer shallower
      have same : report.estimate = (baseEstimate (counts isWord facts code).2.2
          report.maxNesting report.loops (hasSort isWord code)).1 := by rw [← estimate_eq]
      rw [same]
      exact baseEstimate_mono consistent' _ _ fewer shallower nested

def asciiWord (code : CodePoint) : Bool :=
  decide (48 ≤ code.val ∧ code.val ≤ 57 ∨ 65 ≤ code.val ∧ code.val ≤ 90 ∨ code.val = 95 ∨
    97 ≤ code.val ∧ code.val ≤ 122)

/-- What `parsing.analyse` says of a language it has no grammar for. -/
def noGrammar : ParseFacts where
  grammar := none
  parsed := false
  loops := 0
  maxLoopDepth := 0
  functions := []
  recursiveFunctions := []
  hasError := false
  reason := some (Text.ofString "no tree-sitter grammar for 'awk'")
  tooDeep := false
  depth_le := le_rfl
  depth_pos := Iff.rfl

private def nestedLoops : Text := Text.ofString "while a\n while b"

private theorem scanned_nested :
    scannedLines asciiWord nestedLoops = [⟨0, true⟩, ⟨1, true⟩] := by decide +kernel

theorem analyze_faithful_nested :
    ∃ report, analyze asciiWord (fun _ _ => noGrammar) nestedLoops (Text.ofString "awk") = .ok report ∧
      Faithful asciiWord noGrammar nestedLoops report := by
  obtain ⟨report, answered⟩ := exists_report asciiWord nestedLoops (fun _ _ => noGrammar)
    (show noGrammar.tooDeep = false from rfl)
  refine ⟨report, answered, (analyze_faithful_iff answered).mpr (Or.inr fun follow => ?_)⟩
  rw [LoopsFollow, if_neg (by decide), scanned_nested] at follow
  refine follow.2 0 1 ⟨1, rfl⟩ ⟨by decide, 0, rfl, fun between next past upto found => ?_⟩
  obtain rfl : between = 1 := by omega
  cases found
  decide

private def loopsInARow : Text := Text.ofString "while a\nwhile b"

private theorem scanned_row :
    scannedLines asciiWord loopsInARow = [⟨0, true⟩, ⟨0, true⟩] := by decide +kernel

/-- Two loops in a row are reported as no loops at all. -/
theorem analyze_understates :
    ∃ report, analyze asciiWord (fun _ _ => noGrammar) loopsInARow (Text.ofString "awk") = .ok report ∧
      report.loops = 2 ∧ report.maxNesting = 1 ∧ report.recursion = false ∧
      report.estimate = .constant ∧ report.basis = noLoops ∧
      ¬ Faithful asciiWord noGrammar loopsInARow report := by
  have counted : countLoops asciiWord loopsInARow = (2, 1) := by
    rw [countLoops, scanned_row]
    decide
  have quiet : detectRecursion asciiWord loopsInARow = none := by decide +kernel
  have counts_eq : counts asciiWord noGrammar loopsInARow = (2, 1, none) := by
    rw [counts, if_neg (by decide), counted, quiet]
  obtain ⟨report, answered⟩ := exists_report asciiWord loopsInARow (fun _ _ => noGrammar)
    (show noGrammar.tooDeep = false from rfl)
  obtain ⟨loops_eq, depth_eq, recursion_eq, estimate_eq⟩ := report_of_analyze answered rfl
  rw [counts_eq] at loops_eq depth_eq recursion_eq estimate_eq
  rw [loops_eq, depth_eq] at estimate_eq
  obtain ⟨constant, basis⟩ := Prod.mk.inj estimate_eq
  refine ⟨report, answered, loops_eq, depth_eq, recursion_eq, constant, basis, fun faithful => ?_⟩
  have none := (faithful.constant_iff.mp ⟨constant, basis⟩).1
  rw [loops_eq] at none
  cases none

end Verdict

end CodeCalc.Complexity
