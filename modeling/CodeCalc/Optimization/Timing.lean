import CodeCalc.Lib.Double

/-! The measurement phase of `verify_optimization`: each program is timed at its
own auto-scaled sizes, and the candidate is then brought up to the baseline's
size where the baseline became visible. -/
namespace CodeCalc.Optimization
open Lib

def visibilityFloorMs : Nat := 5

def maxRescaleRounds : Nat := 4

/-- The measurement of one size; the duration is the least of the runs. -/
structure Row where
  n : Int
  durationMs : Option Nat
  allRunsMs : List Nat
  deriving DecidableEq, Repr

namespace Row

def ofRuns (n : Int) (runs : List Nat) : Row := ⟨n, runs.min?, runs⟩

def visible (row : Row) : Bool := row.durationMs.any fun duration => visibilityFloorMs ≤ duration

end Row

/-- The three series of timing calls. -/
inductive Series where
  | baseline
  | candidate
  | alignment
  deriving DecidableEq, Repr

structure MannWhitney where
  /-- `method == "normal_approximation"`. -/
  approximate : Bool
  pValue : ℚ

/-- The outcome of everything that is run, and of the test on two samples. -/
structure World where
  /-- `verify_translation` passed. -/
  equivalent : Bool
  /-- The shared deadline is over before this call. -/
  late : Series → Nat → Bool
  /-- The runs of one position in one call, or a failure there. -/
  runs : Series → Nat → Nat → Int → Option (List Nat)
  mannWhitney : List Nat → List Nat → MannWhitney

variable (world : World)

/-- The row of a position after a call: measured again where a size is given. -/
def freshRow (series : Series) (call : Nat) (sizeFor : Nat → Row → Option Int) (position : Nat)
    (row : Row) : Option Row :=
  match sizeFor position row with
  | some n => (world.runs series call position n).map (Row.ofRuns n)
  | none => some row

/-- One call over the positions for which a size is given; it fails as a whole. -/
def measured (series : Series) (call : Nat) (sizeFor : Nat → Row → Option Int) (rows : List Row) :
    Option (List Row) :=
  go 0 rows
where
  go (position : Nat) : List Row → Option (List Row)
    | [] => some []
    | row :: rest => do
      let fresh ← freshRow world series call sizeFor position row
      let others ← go (position + 1) rest
      pure (fresh :: others)

/-- The rescaling rounds of `_timed` that are left. -/
def rescale (series : Series) : Nat → Nat → List Row → Option (List Row)
  | 0, _, rows => some rows
  | rounds + 1, call, rows =>
    if rows.all Row.visible then some rows
    else if world.late series call then none
    else
      match measured world series call
        (fun _ row => if row.visible then none else some (row.n * 10)) rows with
      | none => some rows
      | some rescaled => rescale series rounds (call + 1) rescaled

/-- `_timed`: `none` when it is not ok. -/
def timed (series : Series) (sizes : List Int) : Option (List Row) :=
  if world.late series 0 then none
  else
    (measured world series 0 (fun _ row => some row.n)
      (sizes.map fun n => Row.ofRuns n [])).bind
        (rescale world series maxRescaleRounds 1)

/-- The size the candidate is measured again at, if it is. -/
def fixFor (before : List Row) (position : Nat) (row : Row) : Option Int :=
  match before[position]? with
  | none => none
  | some base => if base.n ≠ row.n ∧ ¬ base.n < row.n ∧ base.visible then some base.n else none

/-- `_align_sizes`, for the candidate's side; the baseline's stays as it is. -/
def alignSizes (before after : List Row) : Option (List Row) :=
  if before.map Row.n = after.map Row.n then some after
  else if after.zipIdx.all fun (row, position) => (fixFor before position row).isNone then some after
  else if world.late .alignment 0 then none
  else measured world .alignment 0 (fixFor before) after

/-- Both programs as they are compared. -/
structure Measurements where
  before : List Row
  after : List Row

def measurePhase (sizes : List Int) : Option Measurements := do
  let before ← timed world .baseline sizes
  let after ← timed world .candidate sizes
  let aligned ← alignSizes world before after
  pure ⟨before, aligned⟩

variable {world} {series : Series} {call : Nat} {sizeFor : Nat → Row → Option Int}
  {rows : List Row}

theorem measured_go_spec {start : Nat} {remeasured : List Row}
    (h : measured.go world series call sizeFor start rows = some remeasured) :
    remeasured.length = rows.length ∧
    ∀ (position : Nat) (row fresh : Row), rows[position]? = some row →
      remeasured[position]? = some fresh →
      freshRow world series call sizeFor (start + position) row = some fresh := by
  induction rows generalizing start remeasured with
  | nil =>
    cases h
    exact ⟨rfl, by simp⟩
  | cons head rest ih =>
    simp only [measured.go, Option.bind_eq_bind, Option.bind_eq_some_iff, Option.pure_def,
      Option.some.injEq] at h
    obtain ⟨first, hfirst, others, hothers, rfl⟩ := h
    obtain ⟨lengths, later⟩ := ih hothers
    refine ⟨by simp [lengths], ?_⟩
    intro position row fresh hrow hfresh
    cases position with
    | zero =>
      cases hrow
      cases hfresh
      exact hfirst
    | succ position =>
      rw [show start + (position + 1) = start + 1 + position by omega]
      exact later position row fresh hrow hfresh

theorem measured_length {remeasured : List Row}
    (h : measured world series call sizeFor rows = some remeasured) :
    remeasured.length = rows.length :=
  (measured_go_spec h).1

theorem measured_spec {remeasured : List Row} {position : Nat} {row fresh : Row}
    (h : measured world series call sizeFor rows = some remeasured)
    (hrow : rows[position]? = some row) (hfresh : remeasured[position]? = some fresh) :
    sizeFor position row = none ∧ fresh = row ∨ sizeFor position row = some fresh.n := by
  have made := (measured_go_spec h).2 position row fresh hrow hfresh
  rw [Nat.zero_add] at made
  unfold freshRow at made
  cases wanted : sizeFor position row with
  | none =>
    rw [wanted] at made
    exact .inl ⟨rfl, (Option.some.inj made).symm⟩
  | some n =>
    rw [wanted] at made
    obtain ⟨runs, -, rfl⟩ := Option.map_eq_some_iff.mp made
    exact .inr rfl

theorem rescale_length {rounds : Nat} {scaled : List Row}
    (h : rescale world series rounds call rows = some scaled) : scaled.length = rows.length := by
  induction rounds generalizing call rows with
  | zero =>
    cases h
    rfl
  | succ rounds ih =>
    rw [rescale] at h
    split at h
    · cases h
      rfl
    split at h
    · cases h
    split at h
    · cases h
      rfl
    · next rescaled again =>
      rw [ih h]
      exact measured_length again

theorem timed_length {sizes : List Int} (h : timed world series sizes = some rows) :
    rows.length = sizes.length := by
  unfold timed at h
  split at h
  · cases h
  obtain ⟨first, measuredFirst, scaled⟩ := Option.bind_eq_some_iff.mp h
  rw [rescale_length scaled, measured_length measuredFirst, List.length_map]

theorem le_of_fixFor_none {before : List Row} {position : Nat} {base row : Row}
    (hbase : before[position]? = some base) (visible : base.visible)
    (unfixed : fixFor before position row = none) : base.n ≤ row.n := by
  simp only [fixFor, hbase, visible, and_true] at unfixed
  by_contra less
  rw [if_pos (by omega)] at unfixed
  cases unfixed

/-- Where the baseline is visible, the candidate is measured at its size or a
greater one. -/
theorem alignSizes_spec {before after aligned : List Row}
    (h : alignSizes world before after = some aligned) :
    aligned.length = after.length ∧
    ∀ (position : Nat) (base row : Row), before[position]? = some base → aligned[position]? = some row →
      base.visible → base.n ≤ row.n := by
  unfold alignSizes at h
  split at h
  · next same =>
    cases h
    refine ⟨rfl, ?_⟩
    intro position base row hbase hrow _
    have sizes : (before.map Row.n)[position]? = (after.map Row.n)[position]? := by rw [same]
    rw [List.getElem?_map, List.getElem?_map, hbase, hrow] at sizes
    exact (Option.some.inj sizes).le
  split at h
  · next quiet =>
    cases h
    refine ⟨rfl, ?_⟩
    intro position base row hbase hrow visible
    rw [List.all_eq_true] at quiet
    have unfixed := quiet (row, position) (by rwa [List.mem_zipIdx_iff_getElem?])
    exact le_of_fixFor_none hbase visible (by simpa using unfixed)
  split at h
  · cases h
  · refine ⟨measured_length h, ?_⟩
    intro position base row hbase hrow visible
    have inside := (List.getElem?_eq_some_iff.mp hrow).1
    rw [measured_length h] at inside
    have hrow' := List.getElem?_eq_getElem inside
    rcases measured_spec h hrow' hrow with ⟨unfixed, rfl⟩ | remeasured
    · exact le_of_fixFor_none hbase visible unfixed
    · simp only [fixFor, hbase] at remeasured
      split at remeasured
      · exact (Option.some.inj remeasured).le
      · cases remeasured

theorem measurePhase_spec {sizes : List Int} {measurements : Measurements}
    (h : measurePhase world sizes = some measurements) :
    measurements.before.length = sizes.length ∧ measurements.after.length = sizes.length ∧
    ∀ (position : Nat) (base row : Row), measurements.before[position]? = some base →
      measurements.after[position]? = some row → base.visible → base.n ≤ row.n := by
  unfold measurePhase at h
  simp only [Option.bind_eq_bind, Option.bind_eq_some_iff, Option.pure_def, Option.some.injEq] at h
  obtain ⟨before, hbefore, after, hafter, aligned, haligned, rfl⟩ := h
  obtain ⟨lengths, spec⟩ := alignSizes_spec haligned
  exact ⟨timed_length hbefore, lengths.trans (timed_length hafter), spec⟩

end CodeCalc.Optimization
