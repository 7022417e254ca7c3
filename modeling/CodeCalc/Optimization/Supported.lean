import Mathlib.Data.List.Perm.Basic
import Mathlib.Tactic.Positivity
import CodeCalc.Lib.ShortestDecimal
import CodeCalc.Optimization.Verdict

/-! What an accepted optimisation is supported by.  Every position of the
measurement is reported once and every gate is applied, but on ratios rounded to
two decimals and to positions that may share a size: the verdict is supported
unless the rounding or the shared size is what carried it. -/
namespace CodeCalc.Optimization
open Lib

section Statement

namespace Measurements

/-- The unrounded `before / after` of a position. -/
def exactRatio (measurements : Measurements) (position : Nat) : ℚ :=
  match (measurements.before[position]?).bind Row.durationMs,
      (measurements.after[position]?).bind Row.durationMs with
  | some before, some after => before / after
  | _, _ => 0

def positions (measurements : Measurements) : Nat :=
  max measurements.before.length measurements.after.length

end Measurements

variable (minSpeedup : ℚ) (measurements : Measurements) (report : Report)

/-- The verdict is the measured improvement it claims to be. -/
structure Wins : Prop where
  sizesDiffer : ∃ left ∈ report.inference.perSize, ∃ right ∈ report.inference.perSize,
    left.size ≠ right.size
  candidateNotSmaller : ∀ row ∈ report.inference.perSize, ∃ base candidate,
    measurements.before[row.position]? = some base ∧
    measurements.after[row.position]? = some candidate ∧
    row.size = base.n ∧ base.n ≤ candidate.n
  demanding : 1 < minSpeedup
  medianClears : minSpeedup ≤
    median (report.inference.perSize.map fun row => measurements.exactRatio row.position)
  rejectingClear : ∀ row ∈ report.inference.perSize,
    row.rejects report.inference.effectiveAlpha minSpeedup →
    minSpeedup ≤ measurements.exactRatio row.position
  unanimous : report.inference.perSize.length ≤ 3 → ∀ row ∈ report.inference.perSize,
    row.rejects alpha minSpeedup
  majority : 3 < report.inference.perSize.length →
    report.inference.perSize.length < 2 * report.inference.perSize.countP fun row =>
      row.rejects (toDouble (alpha / report.inference.perSize.length)) minSpeedup

/-- Each measured position is reported once, and `speedup` lists the counted ones. -/
structure Accounted : Prop where
  once : (report.inference.perSize.map InferenceRow.position ++
    report.inference.sizesBelowFloor.map Excluded.position).Perm
      (List.range measurements.positions)
  sameRows : report.speedup.perSize.map SpeedupRow.position =
    report.inference.perSize.map InferenceRow.position

structure Supported : Prop where
  accounted : Accounted measurements report
  wins : report.accepted → Wins minSpeedup measurements report

def AnswersSupported (world : World) (sizes : List Int) (minSpeedup : ℚ) : Prop :=
  match verifyOptimization world sizes minSpeedup with
  | .judged measurements report => Supported minSpeedup measurements report
  | _ => True

end Statement

section Condition

namespace Survivor

def shownRatio (survivor : Survivor) : ℚ := roundTwo survivor.ratio

def significant (level : ℚ) (survivor : Survivor) : Bool := survivor.test.pValue < level

end Survivor

def testLevel (total : Nat) : ℚ := if total ≤ 3 then alpha else toDouble (alpha / total)

structure PassesShown (minSpeedup : ℚ) (counted : List Survivor) : Prop where
  enough : 2 ≤ counted.length
  demanding : 1 < minSpeedup
  median : minSpeedup ≤ roundTwo (medianDouble (counted.map fun entry => entry.ratio))
  quorum :
    let rejecting := counted.countP fun survivor =>
      survivor.significant (testLevel counted.length) && minSpeedup ≤ survivor.shownRatio
    if counted.length ≤ 3 then rejecting = counted.length else counted.length < 2 * rejecting

/-- Only the rounding to two decimals lifts the ratio to the threshold. -/
def Lifted (minSpeedup exact shown : ℚ) : Prop := exact < minSpeedup ∧ minSpeedup ≤ shown

namespace Measurements

variable (world : World) (measurements : Measurements) (position : Nat)

def size : Int := (measurements.before[position]?.map Row.n).getD 0

/-- The duration of the baseline and that of the candidate. -/
def durations : Option (Nat × Nat) := do
  let slow ← (measurements.before[position]?).bind Row.durationMs
  let fast ← (measurements.after[position]?).bind Row.durationMs
  pure (slow, fast)

def baselineRuns : List Nat := (measurements.before[position]?.map Row.allRunsMs).getD []

def candidateRuns : List Nat := (measurements.after[position]?.map Row.allRunsMs).getD []

def test : MannWhitney :=
  world.mannWhitney (measurements.candidateRuns position) (measurements.baselineRuns position)

/-- The baseline is visible, the candidate takes any time at all, both have runs
enough, and no tie left the test to an approximation it is too small for. -/
def counts : Bool :=
  (measurements.durations position).any (fun (slow, fast) => visibilityFloorMs ≤ slow && 0 < fast) &&
    minTestableN alpha ≤ (measurements.baselineRuns position).length &&
    minTestableN alpha ≤ (measurements.candidateRuns position).length &&
    !((measurements.test world position).approximate &&
      ((measurements.baselineRuns position).length < normalApproxMinN ||
        (measurements.candidateRuns position).length < normalApproxMinN) &&
      rangesOverlap (measurements.candidateRuns position) (measurements.baselineRuns position))

def counting : List Nat := (List.range measurements.positions).filter (measurements.counts world)

def ratio : ℚ := (measurements.durations position).elim 0 fun (slow, fast) => divideInts slow fast

end Measurements

/-- The rows that were timed leave the rounding and the sizes nothing to decide: those
that count do not all have one size, and neither their median ratio nor the ratio of a
significant one is lifted. -/
structure Steady (world : World) (minSpeedup : ℚ) (measurements : Measurements) : Prop where
  sizes : 1 < (measurements.counting world).length →
    ∃ left ∈ measurements.counting world, ∃ right ∈ measurements.counting world,
      measurements.size left ≠ measurements.size right
  median : ¬ Lifted minSpeedup
    (Lib.median ((measurements.counting world).map measurements.exactRatio))
    (roundTwo (medianDouble ((measurements.counting world).map measurements.ratio)))
  ratios : ∀ position ∈ measurements.counting world,
    (measurements.test world position).pValue < testLevel (measurements.counting world).length →
    ¬ Lifted minSpeedup (measurements.exactRatio position) (roundTwo (measurements.ratio position))

end Condition

section Positions

variable {world : World} {before after : List Row} {position : Nat}

theorem comparableAt_ok {entry : Entry} (h : comparableAt before after position = .ok entry) :
    entry.position = position ∧ ∃ base row, before[position]? = some base ∧
      after[position]? = some row ∧ entry.size = base.n ∧ base.visible ∧
      base.durationMs = some entry.beforeMs ∧ row.durationMs = some entry.afterMs := by
  unfold comparableAt at h
  cases hbase : before[position]? with
  | none =>
    rw [hbase] at h
    cases hrow : after[position]? <;> rw [hrow] at h <;> cases h
  | some base =>
    cases hrow : after[position]? with
    | none =>
      rw [hbase, hrow] at h
      cases h
    | some row =>
      rw [hbase, hrow] at h
      dsimp only at h
      cases beforeMs : base.durationMs with
      | none =>
        rw [beforeMs] at h
        cases h
      | some slow =>
        cases afterMs : row.durationMs with
        | none =>
          rw [beforeMs, afterMs] at h
          cases h
        | some fast =>
          rw [beforeMs, afterMs] at h
          dsimp only at h
          split at h
          · cases h
          · next fit =>
            cases h
            refine ⟨rfl, base, row, rfl, rfl, rfl, ?_, beforeMs, afterMs⟩
            simp only [Row.visible, beforeMs, Option.any_some, decide_eq_true_eq]
            omega

theorem comparableAt_error {excluded : Excluded}
    (h : comparableAt before after position = .error excluded) : excluded.position = position := by
  unfold comparableAt at h
  split at h
  · split at h
    · split at h
      · cases h
        rfl
      · cases h
    · cases h
      rfl
  · cases h
    rfl
  · cases h
    rfl
  · cases h
    rfl

theorem positions_split (indices : List Nat) :
    (((indices.map (comparableAt before after)).filterMap Except.toOption).map Entry.position ++
      ((indices.map (comparableAt before after)).filterMap fun outcome =>
        match outcome with
        | .ok _ => none
        | .error excluded => some excluded).map Excluded.position).Perm indices := by
  induction indices with
  | nil => exact .nil
  | cons index rest ih =>
    cases h : comparableAt before after index with
    | ok entry =>
      simp only [List.map_cons, h, List.filterMap_cons, Except.toOption, List.cons_append]
      rw [(comparableAt_ok h).1]
      exact ih.cons index
    | error excluded =>
      simp only [List.map_cons, h, List.filterMap_cons, Except.toOption]
      rw [comparableAt_error h]
      exact List.perm_middle.trans (ih.cons index)

theorem comparable_positions :
    ((comparablePositions before after).1.map Entry.position ++
      (comparablePositions before after).2.map Excluded.position).Perm
        (List.range (max before.length after.length)) :=
  positions_split _

theorem filter_positions {α : Type} (entries : List α) (keep : α → Bool) (position : α → Nat) :
    (((entries.filter keep).map position : List Nat) : Multiset Nat) +
      ((entries.filter fun entry => !keep entry).map position : List Nat) =
      (entries.map position : List Nat) := by
  rw [Multiset.coe_add, Multiset.coe_eq_coe, ← List.map_append]
  exact (List.filter_append_perm keep entries).map position

/-- The gates of the test move positions to the excluded ones, and lose none. -/
theorem testable_positions :
    ((testablePositions world before after).1.map (fun survivor => survivor.position) ++
      (testablePositions world before after).2.map Excluded.position).Perm
        (List.range (max before.length after.length)) := by
  apply List.Perm.trans _ comparable_positions
  let comparable := (comparablePositions before after).1
  let candidates := (comparable.filter fun entry => !tooFewRuns entry).map (tested world)
  have ambiguity := filter_positions candidates belowResolution fun survivor => survivor.position
  have fewness := filter_positions comparable tooFewRuns Entry.position
  have carried : candidates.map (fun survivor => survivor.position) =
      (comparable.filter fun entry => !tooFewRuns entry).map Entry.position := by
    simp only [candidates, List.map_map]
    rfl
  rw [← Multiset.coe_eq_coe]
  simp only [testablePositions, List.map_append, List.map_map, ← Multiset.coe_add]
  change _ = ((comparable.map Entry.position : List Nat) : Multiset Nat) + _
  rw [← fewness, ← carried, ← ambiguity]
  simp only [Function.comp_def, Entry.exclude, comparable, candidates]
  abel

/-- A counted position is one of both measurements, visible in the baseline. -/
theorem survivor_spec {survivor : Survivor}
    (member : survivor ∈ (testablePositions world before after).1) :
    ∃ base row, before[survivor.position]? = some base ∧
      after[survivor.position]? = some row ∧ survivor.size = base.n ∧ base.visible ∧
      base.durationMs = some survivor.beforeMs ∧ row.durationMs = some survivor.afterMs := by
  have candidate := List.mem_of_mem_filter member
  obtain ⟨entry, kept, rfl⟩ := List.mem_map.mp candidate
  have comparable := List.mem_of_mem_filter kept
  obtain ⟨outcome, indexed, counted⟩ := List.mem_filterMap.mp comparable
  obtain ⟨index, -, rfl⟩ := List.mem_map.mp indexed
  cases h : comparableAt before after index with
  | error excluded =>
    rw [h] at counted
    cases counted
  | ok found =>
    rw [h] at counted
    cases counted
    obtain ⟨rfl, spec⟩ := comparableAt_ok h
    exact spec

def survivorAt (world : World) (measurements : Measurements) (position : Nat) : Option Survivor :=
  (((comparableAt measurements.before measurements.after position).toOption.filter
    fun entry => !tooFewRuns entry).map (tested world)).filter fun survivor => !belowResolution survivor

def counted (world : World) (measurements : Measurements) : List Survivor :=
  (testablePositions world measurements.before measurements.after).1

variable {measurements : Measurements}

theorem counted_eq : counted world measurements =
    (List.range measurements.positions).filterMap (survivorAt world measurements) := by
  simp only [counted, testablePositions, comparablePositions, List.filterMap_map,
    List.filter_filterMap, List.map_filterMap, Measurements.positions]
  rfl

/-- The filters read nothing but the two rows of the position. -/
theorem survivorAt_eq (base row : Row) (hbase : measurements.before[position]? = some base)
    (hrow : measurements.after[position]? = some row) {slow fast : Nat}
    (hslow : base.durationMs = some slow) (hfast : row.durationMs = some fast) :
    survivorAt world measurements position =
      if measurements.counts world position then
        some (tested world ⟨position, base.n, if row.n ≠ base.n then some row.n else none, slow, fast,
          base.allRunsMs, row.allRunsMs⟩)
      else none := by
  have counts : measurements.counts world position =
      (decide (visibilityFloorMs ≤ slow) && decide (0 < fast) &&
        decide (minTestableN alpha ≤ base.allRunsMs.length) &&
        decide (minTestableN alpha ≤ row.allRunsMs.length) &&
        !((world.mannWhitney row.allRunsMs base.allRunsMs).approximate &&
          (decide (base.allRunsMs.length < normalApproxMinN) ||
            decide (row.allRunsMs.length < normalApproxMinN)) &&
          rangesOverlap row.allRunsMs base.allRunsMs)) := by
    simp [Measurements.counts, Measurements.durations, Measurements.test, Measurements.baselineRuns,
      Measurements.candidateRuns, hbase, hrow, hslow, hfast]
  rw [counts, survivorAt, comparableAt]
  simp only [hbase, hrow, hslow, hfast]
  by_cases unmeasured : slow < visibilityFloorMs ∨ fast = 0
  · rw [if_pos unmeasured, if_neg]
    · rfl
    · simp only [Bool.and_eq_true, decide_eq_true_eq]
      omega
  · rw [if_neg unmeasured]
    push Not at unmeasured
    simp only [Except.toOption, Option.filter_some, tooFewRuns, decide_eq_true unmeasured.1,
      decide_eq_true (Nat.pos_of_ne_zero unmeasured.2), Bool.true_and]
    by_cases few : base.allRunsMs.length < minTestableN alpha ∨ row.allRunsMs.length < minTestableN alpha
    · rw [if_neg (by simpa [or_iff_not_imp_left] using few), if_neg]
      · rfl
      · simp only [Bool.and_eq_true, decide_eq_true_eq]
        omega
    · push Not at few
      rw [if_pos (by simpa using few), decide_eq_true few.1, decide_eq_true few.2]
      rfl

theorem survivorAt_none (unmeasured : measurements.durations position = none) :
    survivorAt world measurements position = none := by
  simp only [Measurements.durations, Option.bind_eq_bind, Option.pure_def] at unmeasured
  rw [survivorAt, comparableAt]
  split
  · next base row hbase hrow =>
    rw [hbase, hrow] at unmeasured
    split
    · next hslow hfast =>
      simp [hslow, hfast] at unmeasured
    · rfl
  all_goals rfl

theorem survivorAt_guard :
    (survivorAt world measurements position).map (fun survivor => survivor.position) =
      Option.guard (measurements.counts world) position := by
  cases measured : measurements.durations position with
  | none =>
    rw [survivorAt_none measured, Option.guard, if_neg (by simp [Measurements.counts, measured])]
    rfl
  | some durations =>
    simp only [Measurements.durations, Option.bind_eq_bind, Option.bind_eq_some_iff,
      Option.pure_def, Option.some.injEq] at measured
    obtain ⟨slow, ⟨base, hbase, hslow⟩, fast, ⟨row, hrow, hfast⟩, -⟩ := measured
    rw [survivorAt_eq base row hbase hrow hslow hfast, Option.guard]
    split <;> rfl

theorem survivorAt_reads {survivor : Survivor}
    (found : survivorAt world measurements position = some survivor) :
    survivor.position = position ∧ survivor.size = measurements.size position ∧
      survivor.ratio = measurements.ratio position ∧
      survivor.exactRatio = measurements.exactRatio position ∧
      survivor.test = measurements.test world position := by
  cases measured : measurements.durations position with
  | none =>
    rw [survivorAt_none measured] at found
    cases found
  | some durations =>
    have timed := measured
    simp only [Measurements.durations, Option.bind_eq_bind, Option.bind_eq_some_iff,
      Option.pure_def, Option.some.injEq] at timed
    obtain ⟨slow, ⟨base, hbase, hslow⟩, fast, ⟨row, hrow, hfast⟩, rfl⟩ := timed
    rw [survivorAt_eq base row hbase hrow hslow hfast] at found
    split at found
    · cases found
      refine ⟨rfl, ?_, ?_, ?_, ?_⟩
      · simp [Measurements.size, hbase, tested]
      · rw [Measurements.ratio, measured]
        rfl
      · simp [Measurements.exactRatio, hbase, hrow, hslow, hfast, tested, Entry.exactRatio]
      · simp [Measurements.test, Measurements.candidateRuns, Measurements.baselineRuns, hbase, hrow,
          tested]
    · cases found

theorem positions_counted :
    (counted world measurements).map (fun survivor => survivor.position) =
      measurements.counting world := by
  rw [counted_eq, List.map_filterMap, Measurements.counting, ← List.filterMap_eq_filter]
  exact List.filterMap_congr fun position _ => survivorAt_guard

theorem counted_reads {survivor : Survivor} (member : survivor ∈ counted world measurements) :
    survivor.size = measurements.size survivor.position ∧
      survivor.ratio = measurements.ratio survivor.position ∧
      survivor.exactRatio = measurements.exactRatio survivor.position ∧
      survivor.test = measurements.test world survivor.position := by
  rw [counted_eq] at member
  obtain ⟨position, -, found⟩ := List.mem_filterMap.mp member
  obtain ⟨rfl, reads⟩ := survivorAt_reads found
  exact reads

end Positions

section Acceptance

variable {world : World} {minSpeedup : ℚ} {measurements : Measurements}
  {positions : List Survivor × List Excluded}

theorem fwerCorrection_level (total : Nat) : (fwerCorrection total alpha).1 = testLevel total := by
  unfold fwerCorrection testLevel fwerUnanimityMax
  split_ifs <;> first | rfl | omega

theorem fwerSatisfied_iff (total rejecting : Nat) :
    fwerSatisfied total rejecting (fwerCorrection total alpha).2 = true ↔
      2 ≤ total ∧ if total ≤ 3 then rejecting = total else total < 2 * rejecting := by
  unfold fwerSatisfied fwerCorrection fwerUnanimityMax minCountedSizes
  by_cases zero : total = 0
  · simp [zero]
  by_cases lone : total < 2
  · simp [zero, lone]
  by_cases few : total ≤ 3
  · simp [zero, lone, few]
    omega
  · simp [zero, lone, few]
    omega

theorem effectiveAlpha_eq :
    (inferSpeedup minSpeedup positions).effectiveAlpha = testLevel positions.1.length := by
  rw [← fwerCorrection_level]
  simp [inferSpeedup]

theorem sizesRejecting_eq :
    (inferSpeedup minSpeedup positions).sizesRejecting =
      positions.1.countP fun survivor =>
        survivor.significant (testLevel positions.1.length) &&
          minSpeedup ≤ survivor.shownRatio := by
  rw [← fwerCorrection_level]
  simp only [inferSpeedup, List.length_map, List.countP_map]
  rfl

/-- The decision is the conjunction of the gates on the shown ratios. -/
theorem accepted_iff :
    (acceptDecision (speedup positions.1) minSpeedup (inferSpeedup minSpeedup positions)).1 = true ↔
      PassesShown minSpeedup positions.1 := by
  unfold acceptDecision speedup
  by_cases empty : positions.1 = []
  · simp only [empty, if_true]
    constructor
    · exact nofun
    · intro passes
      have enough := passes.enough
      simp at enough
  · have satisfied := fwerSatisfied_iff positions.1.length
      (inferSpeedup minSpeedup positions).sizesRejecting
    have correction : (inferSpeedup minSpeedup positions).correction =
        (fwerCorrection positions.1.length alpha).2 := by simp [inferSpeedup]
    have total : (inferSpeedup minSpeedup positions).sizesTotal = positions.1.length := by
      simp [inferSpeedup]
    rw [sizesRejecting_eq] at satisfied
    simp only [if_neg empty, correction, total, sizesRejecting_eq]
    constructor
    · intro accepted
      split at accepted
      · cases accepted
      split at accepted
      · cases accepted
      split at accepted
      · cases accepted
      split at accepted
      · cases accepted
      · next demanding faster clears quorum =>
        simp only [Bool.not_eq_true', Bool.not_eq_false] at quorum
        obtain ⟨enough, rejecting⟩ := satisfied.mp quorum
        exact ⟨enough, not_le.mp demanding, not_lt.mp clears, rejecting⟩
    · intro passes
      have quorum := satisfied.mpr ⟨passes.enough, passes.quorum⟩
      have faster := lt_of_lt_of_le passes.demanding passes.median
      rw [if_neg (not_le.mpr passes.demanding), if_neg (not_le.mpr faster),
        if_neg (not_lt.mpr passes.median), if_neg (by simp [quorum])]

end Acceptance

section Verdict

variable {world : World} {minSpeedup : ℚ} {measurements : Measurements}

theorem perSize_eq :
    (judge world minSpeedup measurements).inference.perSize =
      (counted world measurements).map fun entry =>
        ⟨entry.position, entry.size, entry.sizeAfter, entry.beforeSample.length,
          entry.afterSample.length, entry.test.pValue, entry.test.approximate,
          entry.shownRatio⟩ := rfl

theorem length_perSize :
    (judge world minSpeedup measurements).inference.perSize.length =
      (counted world measurements).length := by
  rw [perSize_eq, List.length_map]

theorem countP_perSize (level : ℚ) :
    (judge world minSpeedup measurements).inference.perSize.countP
        (fun row => row.rejects level minSpeedup) =
      (counted world measurements).countP fun survivor =>
        survivor.significant level && minSpeedup ≤ survivor.shownRatio := by
  rw [perSize_eq, List.countP_map]
  rfl

theorem accounted : Accounted measurements (judge world minSpeedup measurements) := by
  constructor
  · have whole := @testable_positions world measurements.before measurements.after
    rw [perSize_eq, List.map_map]
    exact whole
  · rw [perSize_eq, List.map_map]
    change (speedup (counted world measurements)).perSize.map SpeedupRow.position = _
    unfold speedup
    split_ifs with empty
    · rw [empty]
      rfl
    · rw [List.map_map]
      rfl

theorem judge_accepted :
    (judge world minSpeedup measurements).accepted = true ↔
      PassesShown minSpeedup (counted world measurements) :=
  accepted_iff

/-- Anything read of the counted positions is read of the rows that count. -/
theorem map_counting {α : Type} {ofSurvivor : Survivor → α} {ofPosition : Nat → α}
    (same : ∀ survivor ∈ counted world measurements,
      ofPosition survivor.position = ofSurvivor survivor) :
    (measurements.counting world).map ofPosition = (counted world measurements).map ofSurvivor := by
  rw [← positions_counted, List.map_map]
  exact List.map_congr_left same

theorem length_counting :
    (measurements.counting world).length = (counted world measurements).length := by
  rw [← positions_counted, List.length_map]

theorem exactRatios_perSize :
    (judge world minSpeedup measurements).inference.perSize.map
        (fun row => measurements.exactRatio row.position) =
      (measurements.counting world).map measurements.exactRatio := by
  rw [perSize_eq, ← positions_counted, List.map_map, List.map_map]
  rfl

theorem ratios_counting :
    (measurements.counting world).map measurements.ratio =
      (counted world measurements).map fun survivor => survivor.ratio :=
  map_counting fun _ member => (counted_reads member).2.1.symm

theorem mem_counting {survivor : Survivor} (member : survivor ∈ counted world measurements) :
    survivor.position ∈ measurements.counting world := by
  rw [← positions_counted]
  exact List.mem_map_of_mem member

theorem of_mem_counting {position : Nat} (member : position ∈ measurements.counting world) :
    ∃ survivor ∈ counted world measurements, survivor.position = position := by
  rw [← positions_counted] at member
  exact List.mem_map.mp member

theorem effectiveAlpha_judge :
    (judge world minSpeedup measurements).inference.effectiveAlpha =
      testLevel (measurements.counting world).length := by
  rw [length_counting]
  exact effectiveAlpha_eq

theorem wins_of_steady
    (ordered : ∀ (position : Nat) (base row : Row), measurements.before[position]? = some base →
      measurements.after[position]? = some row → base.visible → base.n ≤ row.n)
    (passes : PassesShown minSpeedup (counted world measurements))
    (steady : Steady world minSpeedup measurements) :
    Wins minSpeedup measurements (judge world minSpeedup measurements) where
  sizesDiffer := by
    have enough := passes.enough
    rw [← @length_counting world measurements] at enough
    obtain ⟨left, hleft, right, hright, differ⟩ := steady.sizes enough
    obtain ⟨first, hfirst, rfl⟩ := of_mem_counting hleft
    obtain ⟨second, hsecond, rfl⟩ := of_mem_counting hright
    rw [← (counted_reads hfirst).1, ← (counted_reads hsecond).1] at differ
    rw [perSize_eq]
    exact ⟨_, List.mem_map_of_mem hfirst, _, List.mem_map_of_mem hsecond, differ⟩
  candidateNotSmaller := by
    rw [perSize_eq]
    rintro row member
    obtain ⟨survivor, hsurvivor, rfl⟩ := List.mem_map.mp member
    obtain ⟨base, candidate, hbase, hcandidate, size, visible, -, -⟩ := survivor_spec hsurvivor
    exact ⟨base, candidate, hbase, hcandidate, size,
      ordered survivor.position base candidate hbase hcandidate visible⟩
  demanding := passes.demanding
  medianClears := by
    have shown := passes.median
    rw [← ratios_counting] at shown
    rw [exactRatios_perSize]
    by_contra below
    exact steady.median ⟨not_le.mp below, shown⟩
  rejectingClear := by
    rw [perSize_eq]
    intro row member rejects
    obtain ⟨survivor, hsurvivor, rfl⟩ := List.mem_map.mp member
    obtain ⟨-, ratio, -, test⟩ := counted_reads hsurvivor
    rw [effectiveAlpha_judge] at rejects
    simp only [InferenceRow.rejects, Bool.and_eq_true, decide_eq_true_eq, Survivor.shownRatio,
      ratio, test] at rejects
    by_contra below
    exact steady.ratios survivor.position (mem_counting hsurvivor) rejects.1
      ⟨not_le.mp below, rejects.2⟩
  unanimous := by
    rw [length_perSize]
    intro few
    have quorum := passes.quorum
    simp only [if_pos few, testLevel] at quorum
    rw [← countP_perSize, ← @length_perSize world minSpeedup measurements] at quorum
    exact List.countP_eq_length.mp quorum
  majority := by
    rw [length_perSize]
    intro many
    have quorum := passes.quorum
    simp only [if_neg (not_le.mpr many), testLevel] at quorum
    rwa [countP_perSize]

theorem steady_of_wins
    (wins : Wins minSpeedup measurements (judge world minSpeedup measurements)) :
    Steady world minSpeedup measurements where
  sizes := by
    intro _
    obtain ⟨left, hleft, right, hright, differ⟩ := wins.sizesDiffer
    rw [perSize_eq] at hleft hright
    obtain ⟨first, hfirst, rfl⟩ := List.mem_map.mp hleft
    obtain ⟨second, hsecond, rfl⟩ := List.mem_map.mp hright
    dsimp only at differ
    rw [(counted_reads hfirst).1, (counted_reads hsecond).1] at differ
    exact ⟨_, mem_counting hfirst, _, mem_counting hsecond, differ⟩
  median := by
    rintro ⟨below, -⟩
    have clears := wins.medianClears
    rw [exactRatios_perSize] at clears
    exact absurd clears (not_le.mpr below)
  ratios := by
    rintro position member significant ⟨below, shown⟩
    obtain ⟨survivor, hsurvivor, rfl⟩ := of_mem_counting member
    obtain ⟨-, ratio, -, test⟩ := counted_reads hsurvivor
    rw [← ratio] at shown
    rw [← test] at significant
    have clears := wins.rejectingClear _
      (by rw [perSize_eq]; exact List.mem_map_of_mem hsurvivor)
      (by
        rw [effectiveAlpha_judge]
        simp only [InferenceRow.rejects, Bool.and_eq_true, decide_eq_true_eq]
        exact ⟨significant, shown⟩)
    exact absurd clears (not_le.mpr below)

theorem verifyOptimization_judged {sizes : List Int} {report : Report}
    (judged : verifyOptimization world sizes minSpeedup = .judged measurements report) :
    measurePhase world (if sizes = [] then defaultSizes else sizes) = some measurements ∧
      report = judge world minSpeedup measurements := by
  unfold verifyOptimization at judged
  split at judged
  · cases judged
  split at judged
  · cases judged
  · cases judged
    exact ⟨by assumption, rfl⟩

theorem supported_iff {sizes : List Int} {report : Report}
    (judged : verifyOptimization world sizes minSpeedup = .judged measurements report) :
    Supported minSpeedup measurements report ↔
      (report.accepted → Steady world minSpeedup measurements) := by
  obtain ⟨phase, rfl⟩ := verifyOptimization_judged judged
  constructor
  · intro supported accepted
    exact steady_of_wins (supported.wins accepted)
  · intro steady
    refine ⟨accounted, fun accepted => ?_⟩
    exact wins_of_steady (measurePhase_spec phase).2.2 (judge_accepted.mp accepted)
      (steady accepted)

end Verdict

section Uniform

/-- Runs of so many milliseconds and more in every call, with the same test of them. -/
def runsFrom (duration : Nat) : List Nat :=
  [duration, duration + 1, duration + 2, duration + 3, duration + 4]

def uniformWorld (slow fast : Nat) (pValue : ℚ) : World where
  equivalent := true
  late _ _ := false
  runs series _ _ _ :=
    match series with
    | .baseline => some (runsFrom slow)
    | .candidate => some (runsFrom fast)
    | .alignment => none
  mannWhitney _ _ := ⟨false, pValue⟩

def uniformRows (duration : Nat) (sizes : List Int) : List Row :=
  sizes.map fun n => ⟨n, some duration, runsFrom duration⟩

def uniformMeasurements (slow fast : Nat) (sizes : List Int) : Measurements :=
  ⟨uniformRows slow sizes, uniformRows fast sizes⟩

variable {slow fast : Nat} {pValue minSpeedup : ℚ} {sizes : List Int}

theorem measured_go_map {world : World} {series : Series} {call : Nat}
    {sizeFor : Nat → Row → Option Int} {again : Row → Row}
    (same : ∀ position row, freshRow world series call sizeFor position row = some (again row))
    (start : Nat) (rows : List Row) :
    measured.go world series call sizeFor start rows = some (rows.map again) := by
  induction rows generalizing start with
  | nil => rfl
  | cons row rest ih => simp [measured.go, same, ih]

theorem ofRuns_runsFrom (n : Int) (duration : Nat) :
    Row.ofRuns n (runsFrom duration) = ⟨n, some duration, runsFrom duration⟩ := by
  simp [Row.ofRuns, runsFrom, List.min?]

theorem rescale_visible {world : World} {series : Series} {rows : List Row}
    (visible : rows.all Row.visible = true) (rounds call : Nat) :
    rescale world series rounds call rows = some rows := by
  cases rounds with
  | zero => rfl
  | succ rounds => rw [rescale, if_pos visible]

theorem timed_uniform {world : World} {series : Series} {duration : Nat}
    (early : world.late series 0 = false)
    (runs : ∀ position n, world.runs series 0 position n = some (runsFrom duration))
    (visible : visibilityFloorMs ≤ duration) :
    timed world series sizes = some (uniformRows duration sizes) := by
  have fresh : ∀ (position : Nat) (row : Row),
      freshRow world series 0 (fun _ row => some row.n) position row =
        some ⟨row.n, some duration, runsFrom duration⟩ := by
    intro position row
    simp [freshRow, runs, ofRuns_runsFrom]
  have rows : uniformRows duration sizes = (sizes.map fun n => Row.ofRuns n []).map fun row =>
      ⟨row.n, some duration, runsFrom duration⟩ := by
    rw [uniformRows, List.map_map]
    rfl
  rw [timed, if_neg (by simp [early]), measured, measured_go_map fresh, Option.bind_some, ← rows]
  exact rescale_visible (by simp [uniformRows, Row.visible, visible]) _ _

theorem measurePhase_uniform (slowVisible : visibilityFloorMs ≤ slow)
    (fastVisible : visibilityFloorMs ≤ fast) :
    measurePhase (uniformWorld slow fast pValue) sizes =
      some (uniformMeasurements slow fast sizes) := by
  have before := @timed_uniform sizes (uniformWorld slow fast pValue) .baseline slow rfl
    (fun _ _ => rfl) slowVisible
  have after := @timed_uniform sizes (uniformWorld slow fast pValue) .candidate fast rfl
    (fun _ _ => rfl) fastVisible
  have aligned : (uniformRows slow sizes).map Row.n = (uniformRows fast sizes).map Row.n := by
    simp [uniformRows]
  simp [measurePhase, before, after, alignSizes, aligned, uniformMeasurements]

theorem minTestableN_alpha : minTestableN alpha = 4 := by
  decide +kernel

theorem counting_uniform (slowVisible : visibilityFloorMs ≤ slow) (positive : 0 < fast) :
    (uniformMeasurements slow fast sizes).counting (uniformWorld slow fast pValue) =
      List.range sizes.length := by
  have positions : (uniformMeasurements slow fast sizes).positions = sizes.length := by
    simp [Measurements.positions, uniformMeasurements, uniformRows]
  rw [Measurements.counting, positions, List.filter_eq_self]
  intro position inside
  have inside := List.mem_range.mp inside
  simp [Measurements.counts, Measurements.durations, Measurements.baselineRuns,
    Measurements.candidateRuns, Measurements.test, uniformMeasurements, uniformRows, uniformWorld,
    minTestableN_alpha, runsFrom, inside, slowVisible, positive]

theorem map_counting_uniform {α : Type} {ofPosition : Nat → α} {value : α}
    (slowVisible : visibilityFloorMs ≤ slow) (positive : 0 < fast)
    (same : ∀ position < sizes.length, ofPosition position = value) :
    ((uniformMeasurements slow fast sizes).counting (uniformWorld slow fast pValue)).map ofPosition =
      List.replicate sizes.length value := by
  rw [counting_uniform slowVisible positive]
  apply List.eq_replicate_iff.mpr
  simpa using same

theorem uniform_reads {position : Nat} (inside : position < sizes.length) :
    (uniformMeasurements slow fast sizes).exactRatio position = slow / fast ∧
      (uniformMeasurements slow fast sizes).ratio position = divideInts slow fast ∧
      (uniformMeasurements slow fast sizes).size position = sizes[position] := by
  simp [Measurements.exactRatio, Measurements.ratio, Measurements.durations, Measurements.size,
    uniformMeasurements, uniformRows, inside]

theorem steady_uniform (slowVisible : visibilityFloorMs ≤ slow) (positive : 0 < fast)
    (several : 1 < sizes.length) (significant : pValue < testLevel sizes.length) :
    Steady (uniformWorld slow fast pValue) minSpeedup (uniformMeasurements slow fast sizes) ↔
      (∃ left ∈ sizes, ∃ right ∈ sizes, left ≠ right) ∧
        ¬ Lifted minSpeedup (slow / fast) (roundTwo (divideInts slow fast)) := by
  have counting := @counting_uniform slow fast pValue sizes slowVisible positive
  have exacts := @map_counting_uniform slow fast pValue sizes ℚ _ _ slowVisible positive
    fun _ inside => (@uniform_reads slow fast sizes _ inside).1
  have ratios := @map_counting_uniform slow fast pValue sizes ℚ _ _ slowVisible positive
    fun _ inside => (@uniform_reads slow fast sizes _ inside).2.1
  have nonempty : 0 < sizes.length := by omega
  constructor
  · intro steady
    constructor
    · obtain ⟨left, hleft, right, hright, differ⟩ := steady.sizes (by simpa [counting] using several)
      rw [counting, List.mem_range] at hleft hright
      rw [(uniform_reads hleft).2.2, (uniform_reads hright).2.2] at differ
      exact ⟨_, List.getElem_mem hleft, _, List.getElem_mem hright, differ⟩
    · have first := steady.ratios 0 (by simpa [counting] using nonempty)
        (by rw [counting, List.length_range]; exact significant)
      rwa [(uniform_reads nonempty).1, (uniform_reads nonempty).2.1] at first
  · rintro ⟨⟨left, hleft, right, hright, differ⟩, unlifted⟩
    constructor
    · intro _
      obtain ⟨first, hfirst, rfl⟩ := List.mem_iff_getElem.mp hleft
      obtain ⟨second, hsecond, rfl⟩ := List.mem_iff_getElem.mp hright
      rw [counting]
      refine ⟨first, List.mem_range.mpr hfirst, second, List.mem_range.mpr hsecond, ?_⟩
      rwa [(uniform_reads hfirst).2.2, (uniform_reads hsecond).2.2]
    · rw [exacts, ratios, median_replicate nonempty, divideInts,
        medianDouble_replicate (by positivity) nonempty]
      exact unlifted
    · intro position member _
      rw [counting, List.mem_range] at member
      rwa [(uniform_reads member).1, (uniform_reads member).2.1]

theorem passesShown_uniform (slowVisible : visibilityFloorMs ≤ slow) (positive : 0 < fast)
    (several : 1 < sizes.length) (significant : pValue < testLevel sizes.length) :
    PassesShown minSpeedup
        (counted (uniformWorld slow fast pValue) (uniformMeasurements slow fast sizes)) ↔
      1 < minSpeedup ∧ minSpeedup ≤ roundTwo (divideInts slow fast) := by
  have ratios := @map_counting_uniform slow fast pValue sizes ℚ _ _ slowVisible positive
    fun _ inside => (@uniform_reads slow fast sizes _ inside).2.1
  have length : (counted (uniformWorld slow fast pValue)
      (uniformMeasurements slow fast sizes)).length = sizes.length := by
    rw [← length_counting, counting_uniform slowVisible positive, List.length_range]
  have shown : ∀ survivor ∈ counted (uniformWorld slow fast pValue) (uniformMeasurements slow fast sizes),
      survivor.shownRatio = roundTwo (divideInts slow fast) ∧
        survivor.significant (testLevel sizes.length) = true := by
    intro survivor member
    obtain ⟨-, ratio, -, test⟩ := counted_reads member
    have inside := mem_counting member
    rw [counting_uniform slowVisible positive, List.mem_range] at inside
    rw [(uniform_reads inside).2.1] at ratio
    refine ⟨by rw [Survivor.shownRatio, ratio], ?_⟩
    rw [Survivor.significant, test]
    exact decide_eq_true significant
  have median : roundTwo (medianDouble ((counted (uniformWorld slow fast pValue)
      (uniformMeasurements slow fast sizes)).map fun entry => entry.ratio)) =
        roundTwo (divideInts slow fast) := by
    rw [← ratios_counting, ratios, divideInts, medianDouble_replicate (by positivity) (by omega)]
  constructor
  · intro passes
    exact ⟨passes.demanding, median ▸ passes.median⟩
  · rintro ⟨demanding, clears⟩
    have rejecting : (counted (uniformWorld slow fast pValue)
        (uniformMeasurements slow fast sizes)).countP (fun survivor =>
          survivor.significant (testLevel sizes.length) && minSpeedup ≤ survivor.shownRatio) =
        sizes.length := by
      rw [← length, List.countP_eq_length]
      intro survivor member
      simp [(shown survivor member).1, (shown survivor member).2, clears, length]
    refine ⟨by omega, demanding, median.symm ▸ clears, ?_⟩
    simp only [length, rejecting]
    split_ifs
    omega

/-- With the same timings at every size the answer is supported unless it is the
rounding, or the one size, that carries it. -/
theorem supported_uniform_iff (slowVisible : visibilityFloorMs ≤ slow)
    (fastVisible : visibilityFloorMs ≤ fast) (several : 1 < sizes.length)
    (significant : pValue < testLevel sizes.length) (demanding : 1 < minSpeedup) :
    AnswersSupported (uniformWorld slow fast pValue) sizes minSpeedup ↔
      roundTwo (divideInts slow fast) < minSpeedup ∨
        minSpeedup ≤ slow / fast ∧ ∃ left ∈ sizes, ∃ right ∈ sizes, left ≠ right := by
  have positive : 0 < fast := lt_of_lt_of_le (by decide) fastVisible
  have given : sizes ≠ [] := by
    rintro rfl
    cases several
  have judged : verifyOptimization (uniformWorld slow fast pValue) sizes minSpeedup =
      .judged (uniformMeasurements slow fast sizes)
        (judge (uniformWorld slow fast pValue) minSpeedup (uniformMeasurements slow fast sizes)) := by
    have phase := @measurePhase_uniform slow fast pValue sizes slowVisible fastVisible
    rw [verifyOptimization, if_neg given, phase]
    rfl
  have passes := @passesShown_uniform slow fast pValue minSpeedup sizes slowVisible positive several
    significant
  rw [AnswersSupported, judged]
  dsimp only
  rw [supported_iff judged, judge_accepted, passes,
    steady_uniform slowVisible positive several significant, Lifted]
  constructor
  · intro steady
    by_cases clears : minSpeedup ≤ roundTwo (divideInts slow fast)
    · obtain ⟨differ, unlifted⟩ := steady ⟨demanding, clears⟩
      exact .inr ⟨not_lt.mp fun below => unlifted ⟨below, clears⟩, differ⟩
    · exact .inl (not_le.mp clears)
  · rintro (misses | ⟨clears, differ⟩) ⟨-, shown⟩
    · exact absurd shown (not_le.mpr misses)
    · exact ⟨differ, fun lifted => absurd clears (not_le.mpr lifted.1)⟩

end Uniform

section Main

/-- Rows that are steady give a supported answer; an accepted answer is supported only on
such rows; and for timings that are the same at every size it can be read off them. -/
theorem answersSupported_when (world : World) (sizes : List Int) (minSpeedup : ℚ) :
    ((∀ measurements,
        measurePhase world (if sizes = [] then defaultSizes else sizes) = some measurements →
        Steady world minSpeedup measurements) →
      AnswersSupported world sizes minSpeedup) ∧
    (∀ (measurements : Measurements) (report : Report),
      verifyOptimization world sizes minSpeedup = .judged measurements report →
      report.accepted = true →
      (Supported minSpeedup measurements report ↔ Steady world minSpeedup measurements)) ∧
    ∀ (slow fast : Nat) (pValue : ℚ),
      visibilityFloorMs ≤ slow → visibilityFloorMs ≤ fast → 1 < sizes.length →
      pValue < testLevel sizes.length → 1 < minSpeedup →
      (AnswersSupported (uniformWorld slow fast pValue) sizes minSpeedup ↔
        roundTwo (divideInts slow fast) < minSpeedup ∨
          minSpeedup ≤ slow / fast ∧ ∃ left ∈ sizes, ∃ right ∈ sizes, left ≠ right) := by
  refine ⟨?_, ?_, ?_⟩
  · intro steady
    unfold AnswersSupported
    split
    · next measurements report judged =>
      exact (supported_iff judged).mpr fun _ => steady measurements (verifyOptimization_judged judged).1
    · trivial
  · intro measurements report judged accepted
    rw [supported_iff judged, accepted]
    exact forall_prop_of_true rfl
  · intro slow fast pValue slowVisible fastVisible several significant demanding
    exact supported_uniform_iff slowVisible fastVisible several significant demanding

/-- Twice as fast at two sizes is accepted on steady rows. -/
theorem answersSupported_twice :
    (verifyOptimization (uniformWorld 2000 1000 (toDouble (1 / 252))) [2000, 5000]
        (toDouble (115 / 100)) matches .judged _ ⟨true, _, _, _⟩) = true ∧
      AnswersSupported (uniformWorld 2000 1000 (toDouble (1 / 252))) [2000, 5000]
        (toDouble (115 / 100)) := by
  refine ⟨by decide +kernel,
    ((answersSupported_when (uniformWorld 2000 1000 (toDouble (1 / 252))) _ _).2.2 2000 1000 _
      (by decide) (by decide) (by decide) (by decide +kernel) (by decide +kernel)).mpr
      (.inr ⟨by decide +kernel, ?_⟩)⟩
  exact ⟨2000, by simp, 5000, by simp, by decide⟩

/-- A median of 1.146 is accepted as a speedup of 1.15. -/
theorem rounding_carries : ¬ AnswersSupported (uniformWorld 1146 1000 (toDouble (1 / 252)))
    [2000, 5000] (toDouble (115 / 100)) := by
  rw [supported_uniform_iff (by decide) (by decide) (by decide) (by decide +kernel) (by decide +kernel)]
  rintro (misses | ⟨clears, -⟩)
  · exact absurd misses (by decide +kernel)
  · exact absurd clears (by decide +kernel)

end Main

end CodeCalc.Optimization
