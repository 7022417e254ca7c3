import CodeCalc.Translation.Comparison
import CodeCalc.Output.Spill

/-! `verify_translation`, and what its verdict says of the programs.  A run
hands over its output as the executor's cap left it, so a verdict is about the
whole output only where the cap hides no difference. -/
namespace CodeCalc.Translation
open Lib Lib.Utf8 Output

/-- The first run of a program on an input, and a second one should it be made. -/
structure Runs where
  first : RunResult
  again : RunResult

/-- The one of two things that belongs to a side. -/
def Side.pick {α : Type} (side : Side) (source target : α) : α :=
  match side with
  | .source => source
  | .target => target

/-- One round of the loop of `verify_translation`. -/
def compareCase (source target : Runs) : Outcome × String :=
  let (outcome, reason) := classifyCase source.first target.first
  let side := if outcome = .mismatch then vanishedOutputSide source.first target.first else none
  match side with
  | none => (outcome, reason)
  | some side =>
      let retry := side.pick source.again target.again
      if normalize retry.output ≠ [] then
        (.inconclusive, "the " ++ side.name ++ " produced no output on the first run and output on a " ++
          "second run of the same input; the runtime is not deterministic here, so neither result " ++
          "is evidence about the translation")
      else (outcome, reason ++ " (the empty side was re-run and was empty again)")

structure SideReport where
  ok : Bool
  phase : Option String
  stdout : Text
  stdoutRaw : Text
  stderr : Text

def sideReport (result : RunResult) : SideReport where
  ok := result.ok
  phase := result.phase
  stdout := (normalize result.output).take 400
  stdoutRaw := result.output.take 400
  stderr := (result.stderr.getD []).take 200

structure Case where
  input : Text
  outcome : Outcome
  reason : String
  matched : Bool
  source : SideReport
  target : SideReport

def caseReport (stdin : Text) (source target : Runs) : Case :=
  let (outcome, reason) := compareCase source target
  { input := stdin.take 60, outcome, reason, matched := decide (outcome = .isMatch),
    source := sideReport source.first, target := sideReport target.first }

/-- `verify_translation`, given what a run of either program comes to. -/
def verifyTranslation (source target : Text → Runs) (testInputs : List Text) : Verdict × List Case :=
  (aggregate (testInputs.map fun stdin => compareCase (source stdin) (target stdin)),
    testInputs.map fun stdin => caseReport stdin (source stdin) (target stdin))

/-- What a program does on an input: whether it builds, how it exits, and all it
writes; for one that does not build, what the compiler writes. -/
structure Behaviour where
  compiled : Bool := true
  exitCode : Int := 0
  timedOut : Bool := false
  stdout : Bytes
  stderr : Bytes := []

abbrev Program := Text → Behaviour

namespace Behaviour

def Succeeds (behaviour : Behaviour) : Prop :=
  behaviour.compiled = true ∧ behaviour.exitCode = 0 ∧ behaviour.timedOut = false

instance (behaviour : Behaviour) : Decidable behaviour.Succeeds :=
  inferInstanceAs (Decidable (_ ∧ _))

def complete (behaviour : Behaviour) : Text := lossy behaviour.stdout

/-- The fields of `executor.execute` that the comparison reads, at its default
output cap. -/
def executed (backend : Backend) (behaviour : Behaviour) : RunResult :=
  let response := match backend with
    | .native => nativeRun 0 behaviour.stdout behaviour.stderr behaviour.timedOut
    | .fallback => fallbackRun 0 behaviour.stdout behaviour.stderr behaviour.timedOut
  { ok := decide behaviour.Succeeds
    phase := some (if behaviour.compiled then "run" else "compile")
    stdout := some response.stdout.value
    stderr := some response.stderr.value
    timedOut := behaviour.timedOut }

/-- Stdout is over the share of the executor's cap that stderr leaves it. -/
def Overflows (behaviour : Behaviour) : Prop :=
  outBudget maxOutputBytes behaviour.stderr.length < behaviour.stdout.length

/-- The start of stdout, up to the last character that its share has room for,
and the marker of the cut if there is more. -/
def capped (backend : Backend) (behaviour : Behaviour) : Text :=
  rendered backend.marker behaviour.stdout (outBudget maxOutputBytes behaviour.stderr.length)

end Behaviour

def Program.runs (backend : Backend) (program : Program) (stdin : Text) : Runs :=
  ⟨(program stdin).executed backend, (program stdin).executed backend⟩

def Agree (left right : Text) : Prop := normalize left = normalize right ∧ normalize left ≠ []

/-- What a verdict about two programs has to mean. -/
structure Certified (backend : Backend) (source target : Program) (testInputs : List Text) : Prop where
  evidence : (verifyTranslation (source.runs backend) (target.runs backend) testInputs).1.passed = true →
    ∃ stdin ∈ testInputs, (source stdin).Succeeds ∧ (target stdin).Succeeds ∧
      normalize (source stdin).complete ≠ [] ∧ normalize (target stdin).complete ≠ []
  agreement : (verifyTranslation (source.runs backend) (target.runs backend) testInputs).1.passed = true →
    ∀ stdin ∈ testInputs, (source stdin).Succeeds → (target stdin).Succeeds →
      normalize (source stdin).complete = normalize (target stdin).complete
  oneSided : ∀ stdin ∈ testInputs, ¬((source stdin).Succeeds ↔ (target stdin).Succeeds) →
    (compareCase (source.runs backend stdin) (target.runs backend stdin)).1 ≠ .isMatch

/-- Of two successful runs neither stdout overflows, or they differ before the
cut already, or they agree as a whole. -/
def Told (backend : Backend) (source target : Behaviour) : Prop :=
  source.Succeeds → target.Succeeds →
    (¬ source.Overflows ∧ ¬ target.Overflows) ∨
    normalize (source.capped backend) ≠ normalize (target.capped backend) ∨
    Agree source.complete target.complete

section Capped

variable {backend : Backend} {behaviour : Behaviour}

theorem executed_output (alive : behaviour.timedOut = false) :
    (behaviour.executed backend).output = behaviour.capped backend := by
  cases backend with
  | native =>
    simp only [Behaviour.executed, RunResult.output, Option.getD_some, nativeRun, cutStream_value]
    rfl
  | fallback =>
    simp only [Behaviour.executed, RunResult.output, Option.getD_some, fallbackRun, alive, Bool.false_eq_true,
      if_false, cutStream_value]
    rfl

theorem executed_ok (backend : Backend) : (behaviour.executed backend).ok = true ↔ behaviour.Succeeds :=
  decide_eq_true_iff

theorem capped_of_fits (fits : ¬ behaviour.Overflows) :
    behaviour.capped backend = behaviour.complete :=
  rendered_of_le (Nat.le_of_not_lt fits)

/-- The share is half of the cap at least, and all that stderr leaves of it. -/
theorem fits_of_total (total : behaviour.stdout.length + behaviour.stderr.length ≤ maxOutputBytes) :
    ¬ behaviour.Overflows := by
  unfold Behaviour.Overflows outBudget
  omega

end Capped

section Certificates

variable {backend : Backend} {source target : Program}

theorem vanishedOutputSide_empty {first second : RunResult} {side : Side}
    (vanished : vanishedOutputSide first second = some side) :
    normalize (side.pick first second).output = [] := by
  unfold vanishedOutputSide at vanished
  split at vanished
  · cases vanished
  · split at vanished
    · rename_i empty
      cases vanished
      exact empty.2
    · split at vanished
      · rename_i empty
        cases vanished
        exact empty.2
      · cases vanished

/-- Runs that repeat themselves never turn a mismatch into anything else. -/
theorem compareCase_runs (stdin : Text) :
    (compareCase (source.runs backend stdin) (target.runs backend stdin)).1 =
      (classifyCase ((source stdin).executed backend) ((target stdin).executed backend)).1 := by
  simp only [compareCase, Program.runs]
  split
  · rfl
  · rename_i side found
    have hempty := vanishedOutputSide_empty (Option.ite_none_right_eq_some.mp found).2
    simp [hempty]

/-- A case counts as a match just when both succeed and what the cap shows of
them agrees. -/
theorem compareCase_match_iff {stdin : Text} :
    (compareCase (source.runs backend stdin) (target.runs backend stdin)).1 = .isMatch ↔
      (source stdin).Succeeds ∧ (target stdin).Succeeds ∧
        Agree ((source stdin).capped backend) ((target stdin).capped backend) := by
  rw [compareCase_runs, classifyCase_match_iff, executed_ok, executed_ok]
  constructor
  · rintro ⟨hsource, htarget, same, visible⟩
    rw [executed_output hsource.2.2] at same visible
    rw [executed_output htarget.2.2] at same
    exact ⟨hsource, htarget, same, visible⟩
  · rintro ⟨hsource, htarget, same, visible⟩
    rw [executed_output hsource.2.2, executed_output htarget.2.2]
    exact ⟨hsource, htarget, same, visible⟩

theorem normalize_capped_eq {stdin : Text} (hsource : (source stdin).Succeeds)
    (htarget : (target stdin).Succeeds)
    (clean : (compareCase (source.runs backend stdin) (target.runs backend stdin)).1 ≠ .mismatch) :
    normalize ((source stdin).capped backend) = normalize ((target stdin).capped backend) := by
  by_contra differ
  apply clean
  have hok := (executed_ok backend).mpr hsource
  have hok' := (executed_ok backend).mpr htarget
  rw [← executed_output hsource.2.2, ← executed_output htarget.2.2] at differ
  rw [compareCase_runs]
  simp [classifyCase, RunResult.notCompiled, hok, hok', differ]

theorem passed_runs_iff {testInputs : List Text} :
    (verifyTranslation (source.runs backend) (target.runs backend) testInputs).1.passed = true ↔
      (∃ stdin ∈ testInputs,
        (compareCase (source.runs backend stdin) (target.runs backend stdin)).1 = .isMatch) ∧
      ∀ stdin ∈ testInputs,
        (compareCase (source.runs backend stdin) (target.runs backend stdin)).1 ≠ .mismatch := by
  rw [verifyTranslation, passed_iff]
  simp only [List.mem_map, exists_exists_and_eq_and, forall_exists_index, and_imp,
    forall_apply_eq_imp_iff₂]

/-- Of runs that are told apart, what the cap leaves agrees only as the whole
outputs do. -/
theorem Told.agree {source target : Behaviour} (told : Told backend source target)
    (hsource : source.Succeeds) (htarget : target.Succeeds)
    (agree : Agree (source.capped backend) (target.capped backend)) :
    Agree source.complete target.complete := by
  obtain ⟨fits, fits'⟩ | differ | whole := told hsource htarget
  · rwa [capped_of_fits fits, capped_of_fits fits'] at agree
  · exact absurd agree.1 differ
  · exact whole

/-- A pass says what it should on every list of inputs on which the outputs are
told apart. -/
theorem certified_of_told {testInputs : List Text}
    (told : ∀ stdin ∈ testInputs, Told backend (source stdin) (target stdin)) :
    Certified backend source target testInputs := by
  constructor
  · intro passed
    obtain ⟨⟨stdin, member, matched⟩, _⟩ := passed_runs_iff.mp passed
    obtain ⟨hsource, htarget, agree⟩ := compareCase_match_iff.mp matched
    obtain ⟨same, visible⟩ := (told stdin member).agree hsource htarget agree
    exact ⟨stdin, member, hsource, htarget, visible, same ▸ visible⟩
  · intro passed stdin member hsource htarget
    have clean := (passed_runs_iff.mp passed).2 stdin member
    have same := normalize_capped_eq hsource htarget clean
    obtain ⟨fits, fits'⟩ | differ | whole := told stdin member hsource htarget
    · rwa [capped_of_fits fits, capped_of_fits fits'] at same
    · exact absurd same differ
    · exact whole.1
  · intro stdin _ differ matched
    obtain ⟨hsource, htarget, _⟩ := compareCase_match_iff.mp matched
    exact differ (iff_of_true hsource htarget)

/-- A verdict is right about programs whose streams the cap has room for. -/
theorem certified_of_total {testInputs : List Text}
    (total : ∀ stdin ∈ testInputs,
      (source stdin).stdout.length + (source stdin).stderr.length ≤ maxOutputBytes ∧
        (target stdin).stdout.length + (target stdin).stderr.length ≤ maxOutputBytes) :
    Certified backend source target testInputs :=
  certified_of_told fun stdin member _ _ =>
    .inl ⟨fits_of_total (total stdin member).1, fits_of_total (total stdin member).2⟩

end Certificates

section Examples

theorem lossy_ascii {bytes : Bytes} (ascii : ∀ byte ∈ bytes, byte ≤ 0x7F) :
    lossy bytes = bytes.map fun byte => codePoint byte [] := by
  induction bytes with
  | nil => rw [lossy, List.map_nil]
  | cons byte rest ih =>
    have char : IsChar byte [] := ⟨[], by simp [followers, ascii byte (by simp)], rfl, rfl⟩
    have := lossy_char char rest
    rw [List.nil_append] at this
    rw [this, ih fun other member => ascii other (by simp [member]), List.map_cons]

variable {outSize errSize : Nat} {last : UInt8}

end Examples

end CodeCalc.Translation
