import CodeCalc.Lib.Double
import CodeCalc.Lib.Text
import CodeCalc.Lib.Effect

/-! The growth class that `benchmark` reports for measured durations: the doubling
ratios, the curve fit's place beside them, and how many ratios there can be. -/
namespace CodeCalc.Benchmark
open Lib

/-- The names in `_CLASSES`. -/
inductive GrowthClass where
  | constant
  | logarithmic
  | squareRoot
  | linear
  | linearithmic
  | quadratic
  | quadraticLogarithmic
  | cubic
  deriving DecidableEq, Repr

def GrowthClass.label : GrowthClass → Text
  | .constant => Text.ofString "O(1)"
  | .logarithmic => Text.ofString "O(log n)"
  | .squareRoot => Text.ofString "O(sqrt n)"
  | .linear => Text.ofString "O(n)"
  | .linearithmic => Text.ofString "O(n log n)"
  | .quadratic => Text.ofString "O(n^2)"
  | .quadraticLogarithmic => Text.ofString "O(n^2 log n)"
  | .cubic => Text.ofString "O(n^3)"

/-- `_CLASSES`, in its order. -/
def classes : List GrowthClass :=
  [.constant, .logarithmic, .squareRoot, .linear, .linearithmic, .quadratic,
    .quadraticLogarithmic, .cubic]

def minFitPoints : Nat := 4

def maxTrustedRelativeError : ℚ := 1

def interceptNoiseToleranceMs : ℚ := 5

def strongExponentialRatio : ℚ := 12

def minStrongExponentialRatios : Nat := 2

def minRobustRatios : Nat := 3

/-- The numbers that the regression of one class yields. -/
structure Regression where
  relativeError : ℚ
  coefficient : ℚ
  intercept : ℚ
  deriving DecidableEq, Repr

structure Score extends Regression where
  growth : GrowthClass
  deriving DecidableEq, Repr

/-- A size and the least duration measured at it. -/
structure Run where
  n : ℤ
  duration : ℚ
  nonnegative : 0 ≤ duration

/-- The arithmetic of the durations, and the least-squares fit of one class, which
passes a class over (`none`) or raises. -/
structure Numerics where
  subtract : ℚ → ℚ → ℚ
  subtract_self : ∀ duration, subtract duration duration = 0
  regress : GrowthClass → List Run → Except Text (Option Regression)
  repr : ℚ → Text

/-- Durations in whole milliseconds, as the executor reports them. -/
def exactMilliseconds (regress : GrowthClass → List Run → Except Text (Option Regression))
    (repr : ℚ → Text) : Numerics where
  subtract left right := left - right
  subtract_self := sub_self
  regress := regress
  repr := repr

def doubleMilliseconds (regress : GrowthClass → List Run → Except Text (Option Regression))
    (repr : ℚ → Text) : Numerics where
  subtract left right := toDouble (left - right)
  subtract_self duration := by rw [sub_self, toDouble, if_pos rfl]
  regress := regress
  repr := repr

structure Fit where
  estimate : Text
  bestScore : Option Score
  scores : List Score
  nPoints : Nat

variable (numerics : Numerics)

/-- `_fit_class`; no duration is negative. -/
def fitClass (runs : List Run) : Except Text Fit := do
  let points := runs.filter fun run => decide (0 < run.n)
  if points.length < 3 then
    .ok ⟨Text.ofString "insufficient data (need >=3 sizes)", none, [], points.length⟩
  else
    let fitted ← classes.mapM fun growth => do
      let regression ← numerics.regress growth points
      pure (regression.map fun numbers => Score.mk numbers growth)
    let scores := (fitted.filterMap id).mergeSort fun left right =>
      decide (left.relativeError ≤ right.relativeError)
    let best := scores.head?
    .ok ⟨best.elim (Text.ofString "unknown") fun score => score.growth.label, best, scores,
      points.length⟩

def exponentialLabel : Text := Text.ofString "O(c^n) (exponential or worse)"

def classifyByRatio (ratios : List ℚ) : Text :=
  if ratios.isEmpty then Text.ofString "unknown"
  else
    let r := medianDouble ratios
    if r < 3 / 2 then Text.ofString "O(1)"
    else if r < 5 / 2 then Text.ofString "O(n)"
    else if r < toDouble (16 / 5) then Text.ofString "O(n log n)"
    else if r < 11 / 2 then Text.ofString "O(n^2)"
    else if r < 11 then Text.ofString "O(n^3)"
    else exponentialLabel

/-- `ESTIMATE_BASES`. -/
inductive Basis where
  | ratioMedian
  | curveFit
  | noiseFloor
  | inconclusive
  deriving DecidableEq, Repr

def fitIsTrustworthy (fit : Fit) : Bool :=
  match fit.bestScore with
  | none => false
  | some best =>
      decide (minFitPoints ≤ fit.nPoints ∧ best.relativeError ≤ maxTrustedRelativeError ∧
        -interceptNoiseToleranceMs ≤ best.intercept)

/-- The second of the two reasons that make an estimate inconclusive. -/
def fitReason (fit : Fit) : Text :=
  match fit.bestScore with
  | none => Text.ofString "the curve fit found no viable candidate class"
  | some best =>
      if fit.nPoints < minFitPoints then
        Text.ofString "the curve fit only had " ++ decimal fit.nPoints ++
          Text.ofString " usable point(s) (<" ++ decimal minFitPoints ++
          Text.ofString " needed for a 2-parameter fit to discriminate reliably across " ++
          decimal classes.length ++ Text.ofString " candidate classes)"
      else
        Text.ofString "the curve fit's best candidate (" ++ fit.estimate ++
          Text.ofString ") does not actually describe the data (relative_error=" ++
          numerics.repr best.relativeError ++ Text.ofString ", intercept=" ++
          numerics.repr best.intercept ++ Text.ofString "ms) — none of the " ++
          decimal classes.length ++ Text.ofString " candidate shapes fit"

def inconclusive (ratios : List ℚ) (fit : Fit) : Text :=
  Text.ofString "inconclusive (" ++ decimal ratios.length ++
    Text.ofString " doubling ratio(s) (<" ++ decimal minRobustRatios ++
    Text.ofString " needed for a robust median); " ++ fitReason numerics fit ++
    Text.ofString ")"

/-- Enough ratios, the corrected and the raw ones all far above every polynomial. -/
def stronglyExponential (ratios rawRatios : List ℚ) : Bool :=
  decide (minStrongExponentialRatios ≤ ratios.length ∧ rawRatios.length = ratios.length ∧
    (∀ r ∈ ratios, strongExponentialRatio ≤ r) ∧ ∀ r ∈ rawRatios, strongExponentialRatio ≤ r)

def decideEstimate (ratios : List ℚ) (fit : Fit) (rawRatios : List ℚ) : Text × Basis :=
  if stronglyExponential ratios rawRatios then (exponentialLabel, .ratioMedian)
  else if minRobustRatios ≤ ratios.length then (classifyByRatio ratios, .ratioMedian)
  else if fitIsTrustworthy fit then (fit.estimate, .curveFit)
  else (inconclusive numerics ratios fit, .inconclusive)

/-- A size with its duration above the baseline and as it was measured. -/
structure Point where
  n : ℤ
  corrected : ℚ
  raw : ℚ
  deriving DecidableEq, Repr

def baseline (runs : List Run) : ℚ := (runs.map Run.duration).min?.getD 0

def points (runs : List Run) : List Point :=
  runs.map fun run =>
    ⟨run.n, max (numerics.subtract run.duration (baseline runs)) 0, run.duration⟩

/-- Neighbouring sizes that double, the first one clear of the baseline's noise. -/
def Doubles (pair : Point × Point) : Prop := pair.2.n = 2 * pair.1.n ∧ 3 < pair.1.corrected

instance (pair : Point × Point) : Decidable (Doubles pair) := inferInstanceAs (Decidable (_ ∧ _))

def doublings (runs : List Run) : List (Point × Point) :=
  ((points numerics runs).zip (points numerics runs).tail).filter fun pair =>
    decide (Doubles pair)

def doublingRatios (runs : List Run) : List ℚ :=
  (doublings numerics runs).map fun pair =>
    roundTwo (toDouble (pair.2.corrected / pair.1.corrected))

/-- `raw_ratios`: the same pairs without the subtraction. -/
def rawRatios (runs : List Run) : List ℚ :=
  (doublings numerics runs).map fun pair => roundTwo (toDouble (pair.2.raw / pair.1.raw))

def BelowNoiseFloor (runs : List Run) : Prop :=
  ((points numerics runs).map Point.corrected).foldr max 0 < 5

instance (runs : List Run) : Decidable (BelowNoiseFloor numerics runs) :=
  inferInstanceAs (Decidable (_ < _))

/-- What `benchmark` returns of the classification. -/
structure Report where
  estimate : Text
  basis : Basis
  bestScore : Option Score
  scores : List Score
  doublingRatios : List ℚ
  ratioConfidence : Option Text
  baselineMs : Option ℚ
  deriving DecidableEq

def noiseFloorLabel : Text := Text.ofString "O(1) (work below noise floor at all sizes)"

def ratioConfidence (ratios : List ℚ) : Text :=
  if minRobustRatios ≤ ratios.length then Text.ofString "robust"
  else
    Text.ofString "low (" ++ decimal ratios.length ++
      Text.ofString " ratio(s); a median needs >= " ++ decimal minRobustRatios ++
      Text.ofString " to reject an outlier, which needs >= " ++ decimal (minRobustRatios + 2) ++
      Text.ofString " doubling sizes because the first gap is always discarded)"

/-- `benchmark` from the runs that have a duration. -/
def classify (runs : List Run) : Except Text Report :=
  if runs.length < 3 then
    .error (Text.ofString "too few successful runs (timeouts or failures)")
  else if BelowNoiseFloor numerics runs then
    .ok ⟨noiseFloorLabel, .noiseFloor, none, [], [], none, none⟩
  else do
    let fit ← fitClass numerics runs
    let ratios := doublingRatios numerics runs
    let (estimate, basis) := decideEstimate numerics ratios fit (rawRatios numerics runs)
    .ok ⟨estimate, basis, fit.bestScore, fit.scores, ratios, some (ratioConfidence ratios),
      some (roundTwo (baseline runs))⟩

variable {numerics} {runs : List Run} {report : Report}

theorem length_points : (points numerics runs).length = runs.length := by simp [points]

theorem length_doublingRatios :
    (doublingRatios numerics runs).length = (doublings numerics runs).length := by
  simp [doublingRatios]

theorem length_pairs :
    ((points numerics runs).zip (points numerics runs).tail).length = runs.length - 1 := by
  rw [List.length_zip, List.length_tail, length_points]
  omega

/-- Some neighbouring sizes give no ratio. -/
def SkipsPair (numerics : Numerics) (runs : List Run) : Prop :=
  ∃ pair ∈ (points numerics runs).zip (points numerics runs).tail, ¬ Doubles pair

theorem length_doublings (enough : 3 ≤ runs.length) :
    (doublings numerics runs).length + 2 ≤ runs.length ↔ SkipsPair numerics runs := by
  have hpairs := @length_pairs numerics runs
  have fewer := List.length_filter_lt_length_iff_exists (p := fun pair => decide (Doubles pair))
    (l := (points numerics runs).zip (points numerics runs).tail)
  simp only [decide_eq_true_eq] at fewer
  rw [SkipsPair, ← fewer, doublings]
  omega

theorem report_of_classify (h : classify numerics runs = .ok report) :
    3 ≤ runs.length ∧
      ((BelowNoiseFloor numerics runs ∧ report.estimate = noiseFloorLabel ∧
          report.basis = .noiseFloor ∧ report.doublingRatios = []) ∨
        (¬ BelowNoiseFloor numerics runs ∧ ∃ fit, fitClass numerics runs = .ok fit ∧
          (report.estimate, report.basis) =
            decideEstimate numerics (doublingRatios numerics runs) fit (rawRatios numerics runs) ∧
          report.doublingRatios = doublingRatios numerics runs)) := by
  unfold classify at h
  by_cases few : runs.length < 3
  · rw [if_pos few] at h
    cases h
  · rw [if_neg few] at h
    refine ⟨by omega, ?_⟩
    by_cases quiet : BelowNoiseFloor numerics runs
    · rw [if_pos quiet] at h
      cases h
      exact Or.inl ⟨quiet, rfl, rfl, rfl⟩
    · rw [if_neg quiet] at h
      cases hfit : fitClass numerics runs with
      | error raised =>
        rw [hfit] at h
        cases h
      | ok fit =>
        rw [hfit] at h
        cases h
        exact Or.inr ⟨quiet, fit, rfl, rfl, rfl⟩

/-- The fit counts no more points than there are runs, and what it says is the
label of a class or that there is none. -/
theorem fit_of_fitClass {fit : Fit} (h : fitClass numerics runs = .ok fit) :
    fit.nPoints ≤ runs.length ∧
      (fit.estimate = Text.ofString "insufficient data (need >=3 sizes)" ∨
        fit.estimate = Text.ofString "unknown" ∨ ∃ growth : GrowthClass,
          fit.estimate = growth.label) := by
  have counted := List.length_filter_le (fun run : Run => decide (0 < run.n)) runs
  unfold fitClass at h
  dsimp only at h
  by_cases few : (runs.filter fun run => decide (0 < run.n)).length < 3
  · rw [if_pos few] at h
    cases h
    exact ⟨counted, Or.inl rfl⟩
  · rw [if_neg few] at h
    obtain ⟨fitted, _, h⟩ := except_bind_ok h
    cases h
    refine ⟨counted, Or.inr ?_⟩
    dsimp only
    cases (List.mergeSort (fitted.filterMap id) fun left right =>
      decide (left.relativeError ≤ right.relativeError)).head? with
    | none => exact Or.inl rfl
    | some best => exact Or.inr ⟨best.growth, rfl⟩

theorem decideEstimate_cases (ratios : List ℚ) (fit : Fit) (rawRatios : List ℚ) :
    (decideEstimate numerics ratios fit rawRatios = (exponentialLabel, .ratioMedian) ∧
        stronglyExponential ratios rawRatios = true) ∨
      (decideEstimate numerics ratios fit rawRatios = (classifyByRatio ratios, .ratioMedian) ∧
        minRobustRatios ≤ ratios.length) ∨
      (decideEstimate numerics ratios fit rawRatios = (fit.estimate, .curveFit) ∧
        minFitPoints ≤ fit.nPoints) ∨
      decideEstimate numerics ratios fit rawRatios =
        (inconclusive numerics ratios fit, .inconclusive) := by
  unfold decideEstimate
  by_cases strong : stronglyExponential ratios rawRatios = true
  · exact Or.inl ⟨if_pos strong, strong⟩
  · rw [if_neg strong]
    by_cases robust : minRobustRatios ≤ ratios.length
    · exact Or.inr (Or.inl ⟨if_pos robust, robust⟩)
    · rw [if_neg robust]
      by_cases trusted : fitIsTrustworthy fit = true
      · refine Or.inr (Or.inr (Or.inl ⟨if_pos trusted, ?_⟩))
        unfold fitIsTrustworthy at trusted
        cases hbest : fit.bestScore with
        | none =>
          rw [hbest] at trusted
          cases trusted
        | some best =>
          rw [hbest] at trusted
          exact (of_decide_eq_true trusted).1
      · exact Or.inr (Or.inr (Or.inr (if_neg trusted)))

/-- What the documentation promises of the evidence behind an estimate. -/
structure Evident (runs : List Run) (rawRatios : List ℚ) (report : Report) : Prop where
  count : report.doublingRatios.length + 2 ≤ runs.length
  three : runs.length = 3 → report.basis = .noiseFloor ∨ report.basis = .inconclusive
  four : runs.length = 4 → report.basis = .ratioMedian → report.estimate = exponentialLabel
  strong : report.estimate = exponentialLabel → report.doublingRatios.length < 3 →
    (∀ r ∈ report.doublingRatios, 12 ≤ r) ∧ ∀ r ∈ rawRatios, 12 ≤ r

theorem label_ne_exponential (growth : GrowthClass) : growth.label ≠ exponentialLabel := by
  cases growth <;> decide

theorem inconclusive_ne_exponential (ratios : List ℚ) (fit : Fit) :
    inconclusive numerics ratios fit ≠ exponentialLabel := by
  intro same
  have head := congrArg List.head? same
  rw [inconclusive] at head
  simp only [List.append_assoc] at head
  rw [List.head?_append_of_ne_nil _ (by decide)] at head
  exact absurd head (by decide)

theorem estimate_ne_exponential {fit : Fit} (h : fitClass numerics runs = .ok fit) :
    fit.estimate ≠ exponentialLabel := by
  obtain few | unknown | ⟨growth, known⟩ := (fit_of_fitClass h).2
  · rw [few]
    decide
  · rw [unknown]
    decide
  · rw [known]
    exact label_ne_exponential growth

/-- The estimators keep the promise where a pair of sizes gives no ratio. -/
theorem evident_of_skipsPair (h : classify numerics runs = .ok report)
    (loud : ¬ BelowNoiseFloor numerics runs) (skips : SkipsPair numerics runs) :
    Evident runs (rawRatios numerics runs) report := by
  obtain ⟨enough, ⟨quiet, _⟩ | ⟨_, fit, hfit, decided, hratios⟩⟩ := report_of_classify h
  · exact absurd quiet loud
  have count : report.doublingRatios.length + 2 ≤ runs.length := by
    rw [hratios, length_doublingRatios]
    exact (length_doublings enough).mpr skips
  obtain ⟨result, strong⟩ | ⟨result, robust⟩ | ⟨result, fitted⟩ | result :=
    @decideEstimate_cases numerics (doublingRatios numerics runs) fit
      (rawRatios numerics runs)
  · obtain ⟨hestimate, hbasis⟩ := Prod.mk.inj (decided.trans result)
    rw [stronglyExponential, ← hratios] at strong
    have strong := of_decide_eq_true strong
    simp only [minStrongExponentialRatios, strongExponentialRatio] at strong
    exact {
      count
      three := fun three => by omega
      four := fun _ _ => hestimate
      strong := fun _ _ => strong.2.2 }
  · obtain ⟨hestimate, hbasis⟩ := Prod.mk.inj (decided.trans result)
    rw [← hratios, minRobustRatios] at robust
    exact {
      count
      three := fun three => by omega
      four := fun four => by omega
      strong := fun _ few => by omega }
  · obtain ⟨hestimate, hbasis⟩ := Prod.mk.inj (decided.trans result)
    have hpoints := (fit_of_fitClass hfit).1
    rw [minFitPoints] at fitted
    exact {
      count
      three := fun three => by omega
      four := fun _ ratio => by rw [hbasis] at ratio; cases ratio
      strong := fun named => absurd (hestimate.symm.trans named) (estimate_ne_exponential hfit) }
  · obtain ⟨hestimate, hbasis⟩ := Prod.mk.inj (decided.trans result)
    exact {
      count
      three := fun _ => Or.inr hbasis
      four := fun _ ratio => by rw [hbasis] at ratio; cases ratio
      strong := fun named =>
        absurd (hestimate.symm.trans named) (inconclusive_ne_exponential _ _) }

theorem evident_of_belowNoiseFloor (h : classify numerics runs = .ok report)
    (quiet : BelowNoiseFloor numerics runs) : Evident runs (rawRatios numerics runs) report := by
  obtain ⟨enough, ⟨_, hestimate, hbasis, hratios⟩ | ⟨loud, _⟩⟩ := report_of_classify h
  · exact {
      count := by rw [hratios, List.length_nil]; omega
      three := fun _ => Or.inl hbasis
      four := fun _ ratio => by rw [hbasis] at ratio; cases ratio
      strong := fun named => absurd (hestimate.symm.trans named) (by decide) }
  · exact absurd quiet loud

/-- The evidence is what is promised exactly where the noise floor decides or
two neighbouring sizes give no ratio. -/
theorem classify_evident_iff (numerics : Numerics) (runs : List Run) (report : Report)
    (h : classify numerics runs = .ok report) :
    Evident runs (rawRatios numerics runs) report ↔
      BelowNoiseFloor numerics runs ∨ SkipsPair numerics runs := by
  constructor
  · intro evident
    obtain ⟨enough, ⟨quiet, _⟩ | ⟨_, fit, _, _, hratios⟩⟩ := report_of_classify h
    · exact Or.inl quiet
    · have count := evident.count
      rw [hratios, length_doublingRatios] at count
      exact Or.inr ((length_doublings enough).mp count)
  · intro holds
    by_cases quiet : BelowNoiseFloor numerics runs
    · exact evident_of_belowNoiseFloor h quiet
    · exact evident_of_skipsPair h quiet (holds.resolve_left quiet)

def wholeRuns (sizes : List ℤ) (durations : List ℕ) : List Run :=
  List.zipWith (fun n (duration : ℕ) => ⟨n, duration, Nat.cast_nonneg duration⟩) sizes durations

def plainNumerics (fit : GrowthClass → List Run → Option Regression) : Numerics :=
  exactMilliseconds (fun growth runs => .ok (fit growth runs)) fun value => integer ⌊value⌋

theorem fitClass_plain (fit : GrowthClass → List Run → Option Regression) (runs : List Run) :
    ∃ fitted, fitClass (plainNumerics fit) runs = .ok fitted := by
  unfold fitClass
  dsimp only
  by_cases few : (runs.filter fun run => decide (0 < run.n)).length < 3
  · exact ⟨_, if_pos few⟩
  · rw [if_neg few]
    exact ⟨_, rfl⟩

theorem classify_plain (fit : GrowthClass → List Run → Option Regression)
    (enough : 3 ≤ runs.length) : ∃ report, classify (plainNumerics fit) runs = .ok report := by
  unfold classify
  rw [if_neg (by omega)]
  by_cases quiet : BelowNoiseFloor (plainNumerics fit) runs
  · exact ⟨_, if_pos quiet⟩
  · rw [if_neg quiet]
    obtain ⟨fitted, hfit⟩ := fitClass_plain fit runs
    rw [hfit]
    exact ⟨_, rfl⟩

/-- The least-squares fit, unrounded, of durations that fall with the size: every class but the
constant one has a negative coefficient and is passed over. -/
def fallingFit (growth : GrowthClass) (runs : List Run) : Option Regression :=
  let mean := (runs.map Run.duration).sum / runs.length
  if growth = .constant then
    some ⟨(runs.map fun run => |run.duration - mean| / max run.duration (1 / 1000)).sum / runs.length,
      0, mean⟩
  else none

theorem classify_evident_falling :
    ∃ report, classify (plainNumerics fallingFit) (wholeRuns [10, 20, 40, 80] [90, 70, 60, 50]) =
        .ok report ∧
      (Evident (wholeRuns [10, 20, 40, 80] [90, 70, 60, 50])
          (rawRatios (plainNumerics fallingFit) (wholeRuns [10, 20, 40, 80] [90, 70, 60, 50]))
          report ↔
        BelowNoiseFloor (plainNumerics fallingFit) (wholeRuns [10, 20, 40, 80] [90, 70, 60, 50]) ∨
          SkipsPair (plainNumerics fallingFit) (wholeRuns [10, 20, 40, 80] [90, 70, 60, 50])) := by
  obtain ⟨report, h⟩ :=
    @classify_plain (wholeRuns [10, 20, 40, 80] [90, 70, 60, 50]) fallingFit (Nat.le_add_left 3 1)
  exact ⟨report, h, classify_evident_iff (plainNumerics fallingFit) _ report h⟩

section FastestLast

variable (fit : GrowthClass → List Run → Option Regression)

theorem points_fastest_last :
    points (plainNumerics fit) (wholeRuns [10, 20, 40, 80] [60, 70, 90, 50]) =
      [⟨10, 10, 60⟩, ⟨20, 20, 70⟩, ⟨40, 40, 90⟩, ⟨80, 0, 50⟩] := by
  with_unfolding_all rfl

theorem doublings_fastest_last :
    doublings (plainNumerics fit) (wholeRuns [10, 20, 40, 80] [60, 70, 90, 50]) =
      [(⟨10, 10, 60⟩, ⟨20, 20, 70⟩), (⟨20, 20, 70⟩, ⟨40, 40, 90⟩),
        (⟨40, 40, 90⟩, ⟨80, 0, 50⟩)] := by
  rw [doublings, points_fastest_last]
  with_unfolding_all rfl

theorem doublingRatios_fastest_last :
    doublingRatios (plainNumerics fit) (wholeRuns [10, 20, 40, 80] [60, 70, 90, 50]) =
      [2, 2, 0] := by
  rw [doublingRatios, doublings_fastest_last]
  with_unfolding_all rfl

theorem loud_fastest_last :
    ¬ BelowNoiseFloor (plainNumerics fit) (wholeRuns [10, 20, 40, 80] [60, 70, 90, 50]) := by
  rw [BelowNoiseFloor, points_fastest_last]
  norm_num

end FastestLast

/-- Where the largest size is the fastest, four sizes give three ratios, and their
median names a class that is not the exponential one. -/
theorem classify_fastest_last :
    ∃ report, classify (plainNumerics fallingFit)
        (wholeRuns [10, 20, 40, 80] [60, 70, 90, 50]) = .ok report ∧
      report.doublingRatios = [2, 2, 0] ∧ report.basis = .ratioMedian ∧
      report.estimate = GrowthClass.linear.label ∧
      ¬ Evident (wholeRuns [10, 20, 40, 80] [60, 70, 90, 50])
        (rawRatios (plainNumerics fallingFit) (wholeRuns [10, 20, 40, 80] [60, 70, 90, 50]))
        report := by
  obtain ⟨report, h⟩ :=
    @classify_plain (wholeRuns [10, 20, 40, 80] [60, 70, 90, 50]) fallingFit (Nat.le_add_left 3 1)
  obtain ⟨_, ⟨quiet, _⟩ | ⟨_, fitted, _, decided, hratios⟩⟩ := report_of_classify h
  · exact absurd quiet (loud_fastest_last fallingFit)
  rw [doublingRatios_fastest_last] at hratios decided
  have weak (raw : List ℚ) : stronglyExponential [2, 2, 0] raw = false := by
    simp [stronglyExponential, strongExponentialRatio]
  rw [decideEstimate, weak, if_neg Bool.false_ne_true, if_pos (by decide)] at decided
  have hmedian : classifyByRatio [2, 2, 0] = GrowthClass.linear.label := by
    with_unfolding_all rfl
  obtain ⟨hestimate, hbasis⟩ := Prod.mk.inj decided
  refine ⟨report, h, hratios, hbasis, hestimate.trans hmedian, ?_⟩
  intro evident
  have count := evident.count
  rw [hratios] at count
  exact absurd count (by decide)

end CodeCalc.Benchmark
