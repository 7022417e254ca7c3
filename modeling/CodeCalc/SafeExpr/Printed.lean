import CodeCalc.SafeExpr.Refinement

/-! `_log10_num_den` on trees whose exponents are literals: its two logarithms
bound the two sides of the fraction that is printed. -/
namespace CodeCalc.SafeExpr
open Lib

section Trees

/-- Literals under sums, products and powers with an integer literal on top. -/
inductive Plain : Node → Prop
  | integer (n : ℤ) : Plain (.integer n)
  | rational (q : ℚ) : Plain (.rational q)
  | add (args : List Node) (each : ∀ arg ∈ args, Plain arg) : Plain (.add args)
  | mul (args : List Node) (each : ∀ arg ∈ args, Plain arg) : Plain (.mul args)
  | pow (base : Node) (exp : ℤ) (inner : Plain base) : Plain (.pow base (.integer exp))

theorem exists_cast_list {args : List Node} (each : ∀ arg ∈ args, ∃ q : ℚ, number arg = q) :
    ∃ qs : List ℚ, args.map number = qs.map fun q : ℚ => (q : ℂ) := by
  induction args with
  | nil => exact ⟨[], rfl⟩
  | cons arg args ih =>
    obtain ⟨q, hq⟩ := each arg List.mem_cons_self
    obtain ⟨qs, hqs⟩ := ih fun other member => each other (List.mem_cons_of_mem _ member)
    exact ⟨q :: qs, by rw [List.map_cons, hq, hqs, List.map_cons]⟩

theorem number_eq {node : Node} {v : ℂ} (h : value node = some v) : number node = v := by
  simp [number, h]

theorem Plain.rational_value {node : Node} (plain : Plain node) :
    ∀ v, value node = some v → ∃ q : ℚ, v = q := by
  induction plain with
  | integer n =>
    intro v h
    simp only [value, Option.some.injEq] at h
    exact ⟨n, by rw [← h]; norm_cast⟩
  | rational q =>
    intro v h
    simp only [value, Option.some.injEq] at h
    exact ⟨q, h.symm⟩
  | add args each ih =>
    intro v h
    obtain ⟨defined, rfl⟩ := value_add h
    obtain ⟨qs, hqs⟩ := exists_cast_list fun arg member => ih arg member _ (defined arg member)
    exact ⟨qs.sum, by rw [hqs]; simp⟩
  | mul args each ih =>
    intro v h
    obtain ⟨defined, rfl⟩ := value_mul h
    obtain ⟨qs, hqs⟩ := exists_cast_list fun arg member => ih arg member _ (defined arg member)
    exact ⟨qs.prod, by rw [hqs]; simp⟩
  | pow base exp inner ih =>
    intro v h
    obtain ⟨b, w, hb, hw, hpow⟩ := value_pow h
    simp only [value, Option.some.injEq] at hw
    subst hw
    obtain ⟨q, rfl⟩ := ih b hb
    exact ⟨q ^ exp, by rw [(power_int hpow).1]; push_cast; rfl⟩

end Trees

section Sides

local instance atLeastTwo_ten : Nat.AtLeastTwo 10 := ⟨by decide⟩

/-- The account is complete, and bounds both sides of the number. -/
def Bounds10 (bound : NumDen) (v : ℂ) : Prop :=
  bound.resolved = true ∧ Ratio v (10 ^ bound.num) (10 ^ bound.den)

theorem rpow_sum (logs : List ℝ) : (10 : ℝ) ^ logs.sum = (logs.map fun log => 10 ^ log).prod := by
  induction logs with
  | nil => simp
  | cons log logs ih => rw [List.sum_cons, Real.rpow_add (by norm_num), ih, List.map_cons,
      List.prod_cons]

theorem ten_rpow_log10_natCast {n : ℕ} (positive : 0 < n) : (10 : ℝ) ^ log10 n = n :=
  Real.rpow_logb (by norm_num) (by norm_num) (by exact_mod_cast positive)

/-- A quotient of integers, taken apart. -/
theorem ratio_div (n : ℤ) {d : ℕ} (positive : 0 < d) :
    Ratio ((n : ℂ) / d) |(n : ℝ)| d := by
  have nonzero : ((d : ℤ) : ℂ) ≠ 0 := by exact_mod_cast positive.ne'
  have ratio := (Ratio.int n).mul ((Ratio.int d).inv nonzero)
  simpa [div_eq_mul_inv] using ratio

theorem literal_bounds (q : ℚ) : Bounds10 (literalNumDen q) q := by
  refine ⟨rfl, ?_⟩
  have value : (q : ℂ) = (q.num : ℂ) / q.den := by exact_mod_cast (Rat.num_div_den q).symm
  rw [value]
  refine (ratio_div q.num q.den_pos).mono ?_ ?_
  · simp only [literalNumDen]
    split
    case isTrue zero => simp [zero]
    case isFalse nonzero =>
      have positive : 0 < |(q.num : ℝ)| := abs_pos.mpr (by exact_mod_cast nonzero)
      exact (Real.rpow_logb (by norm_num) (by norm_num) positive).ge
  · simp only [literalNumDen]
    split
    case isTrue one => simp [one]
    case isFalse => exact (ten_rpow_log10_natCast q.den_pos).ge

theorem multisetLogNumDen_den {terms : Terms} (positive : terms.Positive) :
    (multisetLogNumDen terms).den = log10 (powerDenominator terms) := by
  have inverted : (multisetLogNumDen terms).den = (multisetLogNumDen (terms.scale (-1))).num := by
    simp [multisetLogNumDen, Terms.scale, List.filter_map, Function.comp_def]
  have sides : powerDenominator terms = powerNumerator (terms.scale (-1)) := by
    simp [powerDenominator, powerNumerator, Terms.scale, Function.comp_def]
  rw [inverted, sides, multisetLogNumDen_num (Terms.positive_scale positive (-1))]

theorem powerDenominator_pos {terms : Terms} (positive : terms.Positive) :
    0 < powerDenominator terms := by
  apply List.prod_pos
  intro factor member
  obtain ⟨entry, found, rfl⟩ := List.mem_map.mp member
  exact Nat.pow_pos (positive entry found)

theorem multiset_bounds {v : ℂ} {terms : Terms} {sign : ℤ} (exact : Decomposes v terms sign) :
    Bounds10 (multisetLogNumDen terms) v := by
  have top := powerNumerator_pos exact.keys
  have bottom := powerDenominator_pos exact.keys
  refine ⟨rfl, ?_⟩
  rw [multisetLogNumDen_num exact.keys, multisetLogNumDen_den exact.keys,
    ten_rpow_log10_natCast top, ten_rpow_log10_natCast bottom]
  have nonzero : (powerDenominator terms : ℂ) ≠ 0 := by exact_mod_cast bottom.ne'
  have quotient : v = ((sign * powerNumerator terms : ℤ) : ℂ) / powerDenominator terms := by
    have product : terms.value * powerDenominator terms = powerNumerator terms :=
      powerProduct_mul_denominator exact.keys
    rw [eq_div_iff nonzero, exact.value, mul_assoc, product]
    push_cast
    rfl
  rw [quotient]
  refine (ratio_div _ bottom).mono ?_ le_rfl
  push_cast
  rw [abs_mul, Nat.abs_cast]
  rcases exact.sign_cases with h | h | h <;> simp [h]

variable {isNonnegative : Node → Bool}

theorem exactOr_bounds {node : Node} {v : ℂ} (h : value node = some v) {otherwise : NumDen}
    (bounds : factorMultiset node = none → Bounds10 otherwise v) :
    Bounds10 (exactOr node otherwise) v := by
  unfold exactOr
  cases found : factorMultiset node with
  | none => exact bounds found
  | some exact =>
    obtain ⟨terms, sign⟩ := exact
    exact multiset_bounds (factorMultiset_spec node found v h)

end Sides

section Combining

variable {isNonnegative : Node → Bool}

theorem measure_node (node : Node) : (measure isNonnegative node).node = node := by
  cases node with
  | pow base exp => cases exp <;> rfl
  | integer | rational | add | mul => rfl

theorem measureAll_eq (args : List Node) :
    measureAll isNonnegative args = args.map (measure isNonnegative) := by
  induction args with
  | nil => rfl
  | cons arg args ih => rw [measureAll, ih, List.map_cons]

/-- What the parts of a sum or a product are known to be. -/
def Measured.Sound (part : Measured) : Prop := Bounds10 part.numDen (number part.node)

variable {parts : List Measured}

theorem mul_bounds (sound : ∀ part ∈ parts, part.Sound) :
    Bounds10 (mulNumDen parts) (parts.map fun part => number part.node).prod := by
  refine ⟨List.all_eq_true.mpr fun part member => (sound part member).1, ?_⟩
  have product := Ratio.prod parts (fun part => number part.node)
    (fun part => (10 : ℝ) ^ part.numDen.num) (fun part => (10 : ℝ) ^ part.numDen.den)
    fun part member => (sound part member).2
  simpa [mulNumDen, rpow_sum, Function.comp_def] using product

theorem le_foldl_max (values : List ℝ) (start : ℝ) :
    start ≤ values.foldl max start ∧ ∀ v ∈ values, v ≤ values.foldl max start := by
  induction values generalizing start with
  | nil => simp
  | cons first rest ih =>
    obtain ⟨above, each⟩ := ih (max start first)
    refine ⟨(le_max_left _ _).trans above, fun v member => ?_⟩
    rcases List.mem_cons.mp member with rfl | member
    · exact (le_max_right _ _).trans above
    · exact each v member

theorem le_maxOf {values : List ℝ} {v : ℝ} (member : v ∈ values) : v ≤ maxOf values := by
  cases values with
  | nil => cases member
  | cons first rest =>
    obtain ⟨above, each⟩ := le_foldl_max rest first
    rcases List.mem_cons.mp member with rfl | member
    · exact above
    · exact each v member

/-- The groups that cancel are left out, and the others are put over the product of
their denominators. -/
theorem add_bounds (sound : ∀ part ∈ parts, part.Sound)
    (exactly : ∀ part ∈ parts, ∀ terms sign, factorMultiset part.node = some (terms, sign) →
      Decomposes (number part.node) terms sign) :
    Bounds10 (addNumDen parts) (parts.map fun part => number part.node).sum := by
  obtain ⟨same, inside⟩ := cancel_spec exactly
  rw [← same]
  unfold addNumDen
  generalize cancelAdditiveInverses (fun part => factorMultiset part.node) parts = kept
    at same inside
  cases kept with
  | nil => exact ⟨rfl, by simpa using Ratio.zero (zero_le_one (α := ℝ)) le_rfl⟩
  | cons first rest =>
    have keeps := fun part member => sound part (inside part member)
    refine ⟨List.all_eq_true.mpr fun part member => (keeps part member).1, ?_⟩
    have each : ∀ part ∈ first :: rest, Ratio (number part.node)
        (10 ^ maxOf ((first :: rest).map (·.numDen.num))) (10 ^ part.numDen.den) := by
      intro part member
      refine (keeps part member).2.mono ?_ le_rfl
      exact Real.rpow_le_rpow_of_exponent_le (by norm_num)
        (le_maxOf (List.mem_map_of_mem member))
    have total := Ratio.sum (first :: rest) (fun part => number part.node) _
      (fun part => (10 : ℝ) ^ part.numDen.den) each
    have count := ten_rpow_log10_natCast (n := (first :: rest).length) (by simp)
    simp only [List.isEmpty_cons, Bool.false_eq_true, if_false]
    rw [Real.rpow_add (by norm_num), Real.rpow_add (by norm_num), count, rpow_sum, List.map_map]
    refine total.mono (le_of_eq ?_) le_rfl
    simp only [Function.comp_def]
    ring

theorem pow_bounds {b v : ℂ} {exp : ℤ} {base : NumDen} (inner : Bounds10 base b)
    (defined : power b exp = some v) : Bounds10 (powNumDen base exp) v := by
  obtain ⟨rfl, nonneg⟩ := power_int defined
  have scale (log : ℝ) (n : ℕ) : (10 : ℝ) ^ (safeLog10Pow log n) = (10 ^ log) ^ n := by
    rw [safeLog10Pow, Real.rpow_mul (by norm_num), Int.cast_natCast, Real.rpow_natCast]
  unfold powNumDen
  split
  case isTrue zero =>
    refine ⟨rfl, ?_⟩
    simpa [zero] using Ratio.int 1
  case isFalse nonzero =>
    rw [inner.1]
    simp only [Bool.not_true, Bool.false_and, Bool.false_eq_true, if_false]
    split
    case isTrue positive =>
      obtain ⟨n, rfl⟩ := Int.eq_ofNat_of_zero_le positive.le
      refine ⟨rfl, ?_⟩
      rw [scale, scale, zpow_natCast]
      exact inner.2.pow n
    case isFalse negative =>
      obtain ⟨n, hn⟩ := Int.eq_ofNat_of_zero_le (by omega : 0 ≤ -exp)
      have unit : b ≠ 0 := fun zero => by have := nonneg zero; omega
      refine ⟨rfl, ?_⟩
      rw [hn, scale, scale, show exp = -(n : ℤ) by omega, zpow_neg, zpow_natCast, ← inv_pow]
      exact (inner.2.inv unit).pow n

end Combining

section Result

variable (isNonnegative : Node → Bool)

theorem log10NumDen_integer (n : ℤ) : log10NumDen isNonnegative (.integer n) =
    exactOr (.integer n) ⟨0, 0, false⟩ := rfl

theorem log10NumDen_rational (q : ℚ) : log10NumDen isNonnegative (.rational q) =
    exactOr (.rational q) (literalNumDen q) := rfl

theorem log10NumDen_add (args : List Node) : log10NumDen isNonnegative (.add args) =
    exactOr (.add args) (addNumDen (args.map (measure isNonnegative))) := by
  rw [log10NumDen, measure, measureAll_eq]

theorem log10NumDen_mul (args : List Node) : log10NumDen isNonnegative (.mul args) =
    exactOr (.mul args) (mulNumDen (args.map (measure isNonnegative))) := by
  rw [log10NumDen, measure, measureAll_eq]

theorem log10NumDen_pow (base : Node) (exp : ℤ) :
    log10NumDen isNonnegative (.pow base (.integer exp)) =
      exactOr (.pow base (.integer exp)) (powNumDen (log10NumDen isNonnegative base) exp) := rfl

variable {isNonnegative}

/-- What the arguments of a sum or a product hand up. -/
theorem measured_sound {args : List Node} (defined : ∀ arg ∈ args, value arg = some (number arg))
    (each : ∀ arg ∈ args, ∀ v, value arg = some v → Bounds10 (log10NumDen isNonnegative arg) v) :
    ∀ part ∈ args.map (measure isNonnegative), part.Sound := by
  intro part member
  obtain ⟨arg, inside, rfl⟩ := List.mem_map.mp member
  rw [Measured.Sound, measure_node]
  exact each arg inside _ (defined arg inside)

theorem plain_bounds {node : Node} (plain : Plain node) :
    ∀ v, value node = some v → Bounds10 (log10NumDen isNonnegative node) v := by
  induction plain with
  | integer n =>
    intro v h
    rw [log10NumDen_integer]
    exact exactOr_bounds h fun missing => by simp [factorMultiset] at missing
  | rational q =>
    intro v h
    rw [log10NumDen_rational]
    refine exactOr_bounds h fun _ => ?_
    simp only [value, Option.some.injEq] at h
    exact h ▸ literal_bounds q
  | add args each ih =>
    intro v h
    obtain ⟨defined, rfl⟩ := value_add h
    rw [log10NumDen_add]
    refine exactOr_bounds h fun _ => ?_
    have bounds := add_bounds (measured_sound defined ih) ?_
    · simpa [Function.comp_def, measure_node] using bounds
    · intro part member terms sign found
      obtain ⟨arg, inside, rfl⟩ := List.mem_map.mp member
      rw [measure_node] at found ⊢
      exact factorMultiset_spec arg found _ (defined arg inside)
  | mul args each ih =>
    intro v h
    obtain ⟨defined, rfl⟩ := value_mul h
    rw [log10NumDen_mul]
    refine exactOr_bounds h fun _ => ?_
    have bounds := mul_bounds (measured_sound defined ih)
    simpa [Function.comp_def, measure_node] using bounds
  | pow base exp inner ih =>
    intro v h
    rw [log10NumDen_pow]
    refine exactOr_bounds h fun _ => ?_
    obtain ⟨b, w, hb, hw, hpow⟩ := value_pow h
    simp only [value, Option.some.injEq] at hw
    exact pow_bounds (ih b hb) (hw ▸ hpow)

/-- The account of a tree with literal exponents is complete and bounds both sides
of the fraction in lowest terms; the groups that cancel in a sum add up to
nothing; and a multiset multiplies out to the value of its tree. -/
theorem log10NumDen_bounds (isNonnegative : Node → Bool) :
    (∀ node, Plain node → ∀ v, value node = some v →
      (log10NumDen isNonnegative node).resolved = true ∧
      ∃ q : ℚ, v = q ∧
        |(q.num : ℝ)| ≤ 10 ^ (log10NumDen isNonnegative node).num ∧
        (q.den : ℝ) ≤ 10 ^ (log10NumDen isNonnegative node).den) ∧
    (∀ args vs, values args = some vs →
      ((cancelAdditiveInverses factorMultiset args).map number).sum = vs.sum) ∧
    ∀ node terms sign v, factorMultiset node = some (terms, sign) → value node = some v →
      v = sign * terms.value := by
  refine ⟨fun node plain v h => ?_, fun args vs h => ?_, fun node terms sign v found h =>
    (factorMultiset_spec node found v h).value⟩
  · obtain ⟨resolved, ratio⟩ := plain_bounds plain v h
    obtain ⟨q, rfl⟩ := plain.rational_value v h
    exact ⟨resolved, q, rfl, ratio.sides_le⟩
  · obtain ⟨defined, rfl⟩ := values_eq_some h
    exact (cancel_spec fun arg member terms sign found =>
      factorMultiset_spec arg found _ (defined arg member)).1

def cancellingTerms : List Node :=
  [.pow (.integer 2) (.integer 21), .mul [.integer (-1), .pow (.integer 2) (.integer 21)],
    .mul [.integer 4, .pow (.integer 6) (.integer (-1))]]

/-- `2 ** 21 + (-1) * 2 ** 21 + 4 * 6 ** -1`: the first two terms cancel, and 2/3 is left. -/
def cancelling : Node := .add cancellingTerms

theorem log10NumDen_bounds_cancelling :
    (cancelAdditiveInverses factorMultiset cancellingTerms).length = 1 ∧
    ∃ q : ℚ, (2 / 3 : ℂ) = q ∧
      |(q.num : ℝ)| ≤ 10 ^ (log10NumDen (fun _ => false) cancelling).num ∧
      (q.den : ℝ) ≤ 10 ^ (log10NumDen (fun _ => false) cancelling).den := by
  have plain : Plain cancelling := by
    refine .add _ fun arg member => ?_
    simp only [cancellingTerms, List.mem_cons, List.not_mem_nil, or_false] at member
    rcases member with rfl | rfl | rfl
    · exact .pow _ _ (.integer _)
    · refine .mul _ fun arg member => ?_
      simp only [List.mem_cons, List.not_mem_nil, or_false] at member
      rcases member with rfl | rfl
      · exact .integer _
      · exact .pow _ _ (.integer _)
    · refine .mul _ fun arg member => ?_
      simp only [List.mem_cons, List.not_mem_nil, or_false] at member
      rcases member with rfl | rfl
      · exact .integer _
      · exact .pow _ _ (.integer _)
  have number : value cancelling = some (2 / 3) := by
    simp only [cancelling, cancellingTerms, value, values, power]
    norm_num [Complex.cpow_neg_one]
  exact ⟨by decide +kernel, ((log10NumDen_bounds _).1 cancelling plain _ number).2⟩

end Result
end CodeCalc.SafeExpr
