import Mathlib.Data.List.DropRight
import CodeCalc.Errors
import CodeCalc.Lib.Text

/-! What cross-language comparison calls the same output, and the three-way
classification of a pair of runs.  Normalising removes blanks and line ends
only, so a text with any other character in it never normalises to nothing. -/
namespace CodeCalc.Translation
open Lib

section Normalize

abbrev space : CodePoint := CodePoint.ofChar ' '

abbrev tab : CodePoint := CodePoint.ofChar '\t'

abbrev carriageReturn : CodePoint := CodePoint.ofChar '\r'

/-- `text.replace("\r\n", "\n")`. -/
def replaceCrLf : Text → Text
  | first :: second :: rest =>
      if first = carriageReturn ∧ second = newline then newline :: replaceCrLf rest
      else first :: replaceCrLf (second :: rest)
  | text => text

/-- `text.replace("\r", "\n")`. -/
def replaceCr (text : Text) : Text :=
  text.map fun code => if code = carriageReturn then newline else code

/-- A character of `" \t"`. -/
def isTrailing (code : CodePoint) : Bool := decide (code = space) || decide (code = tab)

/-- A character of `" \t\n"`. -/
def isOuter (code : CodePoint) : Bool := isTrailing code || decide (code = newline)

/-- `text.strip(" \t\n")`. -/
def strip (text : Text) : Text := (text.dropWhile isOuter).rdropWhile isOuter

def normalize (text : Text) : Text :=
  strip (joinLines ((splitLines (replaceCr (replaceCrLf text))).map (List.rdropWhile isTrailing)))

/-- A character that no step of `_normalize` removes or rewrites. -/
def Visible (code : CodePoint) : Prop := isOuter code = false ∧ code ≠ carriageReturn

instance (code : CodePoint) : Decidable (Visible code) := inferInstanceAs (Decidable (_ ∧ _))

variable {text : Text} {code : CodePoint}

theorem replaceCrLf_crLf {first second : CodePoint} (pair : first = carriageReturn ∧ second = newline) :
    replaceCrLf (first :: second :: text) = newline :: replaceCrLf text := if_pos pair

theorem replaceCrLf_cons {first second : CodePoint} (other : ¬(first = carriageReturn ∧ second = newline)) :
    replaceCrLf (first :: second :: text) = first :: replaceCrLf (second :: text) := if_neg other

theorem replaceCrLf_short (short : text.length ≤ 1) : replaceCrLf text = text := by
  rcases text with _ | ⟨first, _ | ⟨second, rest⟩⟩
  · rfl
  · rfl
  · rw [List.length_cons, List.length_cons] at short
    omega

/-- Induction along the pairs of a carriage return and a line feed. -/
@[elab_as_elim]
theorem replaceCrLf_induction {motive : Text → Prop}
    (crLf : ∀ first second rest, first = carriageReturn ∧ second = newline → motive rest →
      motive (first :: second :: rest))
    (cons : ∀ first second rest, ¬(first = carriageReturn ∧ second = newline) →
      motive (second :: rest) → motive (first :: second :: rest))
    (short : ∀ text : Text, text.length ≤ 1 → motive text) (text : Text) : motive text := by
  induction text using List.twoStepInduction with
  | nil => exact short [] (Nat.zero_le _)
  | singleton code => exact short [code] le_rfl
  | cons_cons first second rest ih tail =>
    by_cases pair : first = carriageReturn ∧ second = newline
    · exact crLf first second rest pair ih
    · exact cons first second rest pair (tail second)

@[simp] theorem normalize_nil : normalize [] = [] := by decide

end Normalize

/-- What `_run` returns, as the comparison reads it. -/
structure RunResult where
  ok : Bool
  phase : Option String := none
  stdout : Option Text := none
  stderr : Option Text := none
  verdict : Option String := none
  error : Option String := none
  timedOut : Bool := false

/-- `result.get("stdout", "")`. -/
def RunResult.output (result : RunResult) : Text := result.stdout.getD []

inductive Outcome where
  | isMatch
  | mismatch
  | inconclusive
  deriving DecidableEq, Repr

def Outcome.name : Outcome → String
  | .isMatch => "match"
  | .mismatch => "mismatch"
  | .inconclusive => "inconclusive"

def RunResult.notCompiled (result : RunResult) : Bool :=
  !result.ok && decide (result.phase = some "compile")

def classifyCase (source target : RunResult) : Outcome × String :=
  if source.notCompiled then
    (.inconclusive, "the source program failed to compile; there is nothing to verify against")
  else if target.notCompiled then (.mismatch, "the translation failed to compile")
  else if source.ok && target.ok then
    if normalize source.output ≠ normalize target.output then
      (.mismatch, "both ran; stdout differs")
    else if normalize source.output = [] then
      (.inconclusive, "both programs succeeded but produced no output; an absence of output is not " ++
        "evidence of a match")
    else (.isMatch, "")
  else if source.ok ≠ target.ok then
    (.mismatch, (if source.ok then "the translation" else "the source program") ++
      " failed while the other succeeded")
  else
    (.inconclusive, "both programs failed at run time; their errors are not comparable")

structure Verdict where
  ok : Bool := true
  passed : Bool
  reason : Option String
  matched : Nat
  mismatched : Nat
  inconclusive : Nat
  total : Nat
  deriving DecidableEq

def aggregate (outcomes : List (Outcome × String)) : Verdict :=
  let count (outcome : Outcome) := outcomes.countP fun entry => decide (entry.1 = outcome)
  let (passed, reason) :=
    if count .mismatch ≠ 0 then
      (false, some (toString (count .mismatch) ++ " of " ++ toString outcomes.length ++
        " test input(s) showed different behaviour"))
    else if count .isMatch = 0 then
      (false, some ("could not verify: no test input produced a successful run of BOTH programs, " ++
        "so nothing was actually compared"))
    else (true, none)
  { passed, reason, matched := count .isMatch, mismatched := count .mismatch,
    inconclusive := count .inconclusive, total := outcomes.length }

inductive Side where
  | source
  | target
  deriving DecidableEq, Repr

def Side.name : Side → String
  | .source => "source"
  | .target => "target"

def vanishedOutputSide (source target : RunResult) : Option Side :=
  if !(source.ok && target.ok) then none
  else if normalize source.output ≠ [] ∧ normalize target.output = [] then some .target
  else if normalize target.output ≠ [] ∧ normalize source.output = [] then some .source
  else none

theorem not_ok_of_notCompiled {result : RunResult} (stopped : result.notCompiled = true) :
    result.ok = false := by
  simp only [RunResult.notCompiled, Bool.and_eq_true, Bool.not_eq_true'] at stopped
  exact stopped.1

/-- A match is two successful runs with one non-empty normalised output. -/
theorem classifyCase_match_iff {source target : RunResult} :
    (classifyCase source target).1 = .isMatch ↔ source.ok = true ∧ target.ok = true ∧
      normalize source.output = normalize target.output ∧ normalize source.output ≠ [] := by
  unfold classifyCase
  split
  · rename_i stopped
    simp [not_ok_of_notCompiled stopped]
  · split
    · rename_i stopped
      simp [not_ok_of_notCompiled stopped]
    · split
      · rename_i both
        rw [Bool.and_eq_true] at both
        split
        · rename_i differ
          simp [differ]
        · split
          · rename_i blank
            simp [blank]
          · rename_i same blank
            simp [both, not_not.mp same, not_not.mp same ▸ blank]
      · rename_i alone
        split
        · simp_all
        · simp_all

theorem passed_iff {outcomes : List (Outcome × String)} :
    (aggregate outcomes).passed = true ↔
      (∃ entry ∈ outcomes, entry.1 = .isMatch) ∧ ∀ entry ∈ outcomes, entry.1 ≠ .mismatch := by
  have hnone (outcome : Outcome) :
      outcomes.countP (fun entry => decide (entry.1 = outcome)) = 0 ↔
        ∀ entry ∈ outcomes, entry.1 ≠ outcome := by
    simp [List.countP_eq_zero]
  simp only [aggregate]
  split
  · rename_i mismatched
    have : ¬∀ entry ∈ outcomes, entry.1 ≠ .mismatch := fun none => mismatched ((hnone _).mpr none)
    exact iff_of_false Bool.false_ne_true fun passed => this passed.2
  · rename_i clean
    have clean := (hnone .mismatch).mp (not_not.mp clean)
    split
    · rename_i unmatched
      have : ¬∃ entry ∈ outcomes, entry.1 = .isMatch := by
        rintro ⟨entry, member, matched⟩
        exact (hnone _).mp unmatched entry member matched
      exact iff_of_false Bool.false_ne_true fun passed => this passed.1
    · rename_i matched
      have : ∃ entry ∈ outcomes, entry.1 = .isMatch := by
        by_contra none
        apply matched
        apply (hnone _).mpr
        intro entry member same
        exact none ⟨entry, member, same⟩
      exact iff_of_true rfl ⟨this, clean⟩

end CodeCalc.Translation
