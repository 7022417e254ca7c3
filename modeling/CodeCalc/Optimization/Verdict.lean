import Mathlib.Data.Nat.Choose.Basic
import CodeCalc.Optimization.Timing

/-! From two measurements to a verdict: which positions count, the headline
ratio, the test of each counted position and the decision over all of them. -/
namespace CodeCalc.Optimization
open Lib

section Positions

/-- A position whose baseline is visible.  `position` is the index of the loop. -/
structure Entry where
  position : Nat
  size : Int
  sizeAfter : Option Int
  beforeMs : Nat
  afterMs : Nat
  beforeSample : List Nat
  afterSample : List Nat

inductive Exclusion where
  | tooFewRuns (before after : Nat)
  | belowResolution (before after : Nat)

/-- A row of `sizes_below_floor`. -/
structure Excluded where
  position : Nat
  size : Int
  beforeMs : Option Nat
  afterMs : Option Nat
  reason : Option Exclusion

namespace Entry

def exclude (entry : Entry) (reason : Exclusion) : Excluded :=
  ⟨entry.position, entry.size, some entry.beforeMs, some entry.afterMs, some reason⟩

/-- `before_ms / after_ms`. -/
def ratio (entry : Entry) : ℚ := divideInts entry.beforeMs entry.afterMs

def exactRatio (entry : Entry) : ℚ := entry.beforeMs / entry.afterMs

end Entry

def comparableAt (before after : List Row) (position : Nat) : Except Excluded Entry :=
  match before[position]?, after[position]? with
  | some base, some row =>
    match base.durationMs, row.durationMs with
    | some beforeMs, some afterMs =>
      if beforeMs < visibilityFloorMs ∨ afterMs = 0 then
        .error ⟨position, base.n, some beforeMs, some afterMs, none⟩
      else
        .ok ⟨position, base.n, if row.n ≠ base.n then some row.n else none, beforeMs, afterMs,
          base.allRunsMs, row.allRunsMs⟩
    | beforeMs, afterMs => .error ⟨position, base.n, beforeMs, afterMs, none⟩
  | some base, none => .error ⟨position, base.n, none, none, none⟩
  | none, some row => .error ⟨position, row.n, none, none, none⟩
  | none, none => .error ⟨position, position, none, none, none⟩

def comparablePositions (before after : List Row) : List Entry × List Excluded :=
  let outcomes := (List.range (max before.length after.length)).map (comparableAt before after)
  (outcomes.filterMap Except.toOption,
    outcomes.filterMap fun outcome =>
      match outcome with
      | .ok _ => none
      | .error excluded => some excluded)

def alpha : ℚ := toDouble (5 / 100)

/-- The search of `min_testable_n`, which 64 steps are more than enough for. -/
def minTestableFrom (level : ℚ) : Nat → Nat → Nat
  | 0, n => n
  | steps + 1, n =>
    if level ≤ divideInts 1 (Nat.choose (2 * n) n) then minTestableFrom level steps (n + 1) else n

def minTestableN (level : ℚ) : Nat := minTestableFrom level 64 2

def normalApproxMinN : Nat := 8

def rangesOverlap (left right : List Nat) : Bool :=
  !(left.max?.getD 0 < right.min?.getD 0 || right.max?.getD 0 < left.min?.getD 0)

variable (world : World)

/-- A counted position with its test. -/
structure Survivor extends Entry where
  test : MannWhitney

def tooFewRuns (entry : Entry) : Bool :=
  entry.beforeSample.length < minTestableN alpha || entry.afterSample.length < minTestableN alpha

/-- A tie went to the normal approximation, too few runs and the ranges meet. -/
def belowResolution (survivor : Survivor) : Bool :=
  survivor.test.approximate &&
    (survivor.beforeSample.length < normalApproxMinN ||
      survivor.afterSample.length < normalApproxMinN) &&
    rangesOverlap survivor.afterSample survivor.beforeSample

def tested (entry : Entry) : Survivor :=
  { entry with test := world.mannWhitney entry.afterSample entry.beforeSample }

def testablePositions (before after : List Row) : List Survivor × List Excluded :=
  let (comparable, excluded) := comparablePositions before after
  let few := comparable.filter tooFewRuns
  let candidates := (comparable.filter fun entry => !tooFewRuns entry).map (tested world)
  let ambiguous := candidates.filter belowResolution
  (candidates.filter fun survivor => !belowResolution survivor,
    excluded ++
      few.map (fun entry => entry.exclude
        (.tooFewRuns entry.beforeSample.length entry.afterSample.length)) ++
      ambiguous.map fun survivor => survivor.exclude
        (.belowResolution survivor.beforeSample.length survivor.afterSample.length))

end Positions

section Decision

structure SpeedupRow where
  position : Nat
  n : Int
  nAfter : Option Int
  beforeMs : Nat
  afterMs : Nat
  ratio : ℚ

structure Speedup where
  ratio : Option ℚ
  perSize : List SpeedupRow

def speedup (comparable : List Survivor) : Speedup :=
  if comparable = [] then ⟨none, []⟩
  else
    ⟨some (roundTwo (medianDouble (comparable.map fun entry => entry.ratio))),
      comparable.map fun entry =>
        ⟨entry.position, entry.size, entry.sizeAfter, entry.beforeMs, entry.afterMs,
          roundTwo entry.ratio⟩⟩

def fwerUnanimityMax : Nat := 3

def minCountedSizes : Nat := 2

inductive Correction where
  | notApplicable
  | unanimity
  | bonferroni
  deriving DecidableEq, Repr

def fwerCorrection (total : Nat) (level : ℚ) : ℚ × Correction :=
  if total = 0 then (level, .notApplicable)
  else if total ≤ fwerUnanimityMax then (level, .unanimity)
  else (toDouble (level / total), .bonferroni)

def fwerSatisfied (total rejecting : Nat) (correction : Correction) : Bool :=
  if total = 0 then false
  else if total < minCountedSizes then false
  else if correction = .unanimity then rejecting == total
  else total < rejecting * 2

structure InferenceRow where
  position : Nat
  size : Int
  sizeAfter : Option Int
  nBefore : Nat
  nAfter : Nat
  pValue : ℚ
  approximate : Bool
  ratio : ℚ

def InferenceRow.rejects (row : InferenceRow) (level minSpeedup : ℚ) : Bool :=
  row.pValue < level && minSpeedup ≤ row.ratio

structure Inference where
  perSize : List InferenceRow
  effectiveAlpha : ℚ
  correction : Correction
  sizesRejecting : Nat
  sizesTotal : Nat
  sizesBelowFloor : List Excluded

def inferSpeedup (minSpeedup : ℚ) (positions : List Survivor × List Excluded) : Inference :=
  let perSize := positions.1.map fun entry =>
    { position := entry.position, size := entry.size, sizeAfter := entry.sizeAfter,
      nBefore := entry.beforeSample.length, nAfter := entry.afterSample.length,
      pValue := entry.test.pValue, approximate := entry.test.approximate,
      ratio := roundTwo entry.ratio : InferenceRow }
  let total := perSize.length
  let (effectiveAlpha, correction) := fwerCorrection total alpha
  ⟨perSize, effectiveAlpha, correction,
    perSize.countP fun row => row.rejects effectiveAlpha minSpeedup, total, positions.2⟩

inductive Reason where
  | notMeasurable
  | undemanding
  | notFaster
  | belowRequired
  | couldBeNoise
  | verified
  deriving DecidableEq, Repr

def acceptDecision (measuredSpeedup : Speedup) (minSpeedup : ℚ) (inference : Inference) :
    Bool × Reason :=
  match measuredSpeedup.ratio with
  | none => (false, .notMeasurable)
  | some ratio =>
    if minSpeedup ≤ 1 then (false, .undemanding)
    else if ratio ≤ 1 then (false, .notFaster)
    else if ratio < minSpeedup then (false, .belowRequired)
    else if !fwerSatisfied inference.sizesTotal inference.sizesRejecting inference.correction then
      (false, .couldBeNoise)
    else (true, .verified)

structure Report where
  accepted : Bool
  reason : Reason
  speedup : Speedup
  inference : Inference

def judge (world : World) (minSpeedup : ℚ) (measurements : Measurements) : Report :=
  let positions := testablePositions world measurements.before measurements.after
  let measuredSpeedup := speedup positions.1
  let inference := inferSpeedup minSpeedup positions
  let (accepted, reason) := acceptDecision measuredSpeedup minSpeedup inference
  ⟨accepted, reason, measuredSpeedup, inference⟩

inductive Result where
  | notEquivalent
  | measurementFailed
  | judged (measurements : Measurements) (report : Report)

def defaultSizes : List Int := [2000, 5000, 10000, 20000]

def verifyOptimization (world : World) (sizes : List Int) (minSpeedup : ℚ) : Result :=
  if !world.equivalent then .notEquivalent
  else
    match measurePhase world (if sizes = [] then defaultSizes else sizes) with
    | none => .measurementFailed
    | some measurements => .judged measurements (judge world minSpeedup measurements)

end Decision

end CodeCalc.Optimization
