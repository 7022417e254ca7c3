import CodeCalc.Lib.Double

/-! The doubles of binary64, with their gradual underflow and their overflow,
and the decimal a double is printed as: of the decimals that are read as the
double the one with the fewest digits, and of these the nearest. -/
namespace CodeCalc.Lib

section Rounding

variable {value other : ℚ}

theorem roundHalfEven_intCast (value : ℤ) : roundHalfEven value = value := by
  simp [roundHalfEven]

theorem le_roundHalfEven {bound : ℤ} (above : bound ≤ value) : bound ≤ roundHalfEven value := by
  have floor : bound ≤ ⌊value⌋ := Int.le_floor.mpr above
  rw [roundHalfEven]
  split_ifs <;> omega

theorem roundHalfEven_mono (le : value ≤ other) : roundHalfEven value ≤ roundHalfEven other := by
  have floors : ⌊value⌋ ≤ ⌊other⌋ := Int.floor_mono le
  by_cases same : ⌊value⌋ = ⌊other⌋
  · unfold roundHalfEven
    rw [same]
    dsimp only
    split_ifs <;> first | omega | linarith
  · have high : roundHalfEven value ≤ ⌊value⌋ + 1 := by
      apply roundHalfEven_le
      push_cast
      exact (Int.lt_floor_add_one value).le
    have low : ⌊other⌋ ≤ roundHalfEven other := le_roundHalfEven (Int.floor_le other)
    omega

theorem lt_twoPow_leadingExponent (positive : 0 < value) :
    value < twoPow (leadingExponent value + 1) := by
  have numerator : (value.num.natAbs : ℚ) < 2 ^ (Nat.log2 value.num.natAbs + 1) := by
    exact_mod_cast Nat.lt_log2_self
  have denominator : (2 : ℚ) ^ Nat.log2 value.den ≤ value.den := by
    exact_mod_cast Nat.log2_self_le value.den_nz
  have split : value = value.num.natAbs / value.den := by
    conv_lhs => rw [← Rat.num_div_den value]
    rw [Nat.cast_natAbs, abs_of_pos (Rat.num_pos.mpr positive)]
  have guess : value < twoPow ((Nat.log2 value.num.natAbs : ℤ) - Nat.log2 value.den + 1) := by
    rw [twoPow_eq_zpow]
    calc value = value.num.natAbs / value.den := split
      _ < 2 ^ (Nat.log2 value.num.natAbs + 1) / 2 ^ Nat.log2 value.den := by gcongr
      _ = _ := by
          rw [← zpow_natCast, ← zpow_natCast, ← zpow_sub₀ (by norm_num)]
          congr 1
          push_cast
          ring
  unfold leadingExponent
  dsimp only
  split_ifs with fits
  · exact guess
  · rw [abs_of_pos positive, not_le] at fits
    rwa [sub_add_cancel]

theorem leadingExponent_lt_iff (positive : 0 < value) (exponent : ℤ) :
    leadingExponent value < exponent ↔ value < twoPow exponent := by
  have low := twoPow_leadingExponent_le positive.ne'
  have high := lt_twoPow_leadingExponent positive
  rw [abs_of_pos positive] at low
  rw [twoPow_eq_zpow] at low high ⊢
  constructor
  · intro less
    exact high.trans_le (zpow_le_zpow_right₀ (by norm_num) less)
  · intro less
    exact (zpow_lt_zpow_iff_right₀ (by norm_num)).mp (low.trans_lt less)

theorem leadingExponent_mono (positive : 0 < value) (le : value ≤ other) :
    leadingExponent value ≤ leadingExponent other := by
  have high := lt_twoPow_leadingExponent (positive.trans_le le)
  have := (leadingExponent_lt_iff positive _).mpr (le.trans_lt high)
  omega

def lastPlace (value : ℚ) : ℤ := max (leadingExponent value - 52) (-1074)

/-- A value that is not negative, to the places of a double; a tie goes to the
even one. -/
def rounded (value : ℚ) : ℚ :=
  roundHalfEven (value / twoPow (lastPlace value)) * twoPow (lastPlace value)

/-- The double nearest to a value that is not negative; none for infinity. -/
def nearestDouble (value : ℚ) : Option ℚ :=
  if rounded value < 2 ^ 1024 then some (rounded value) else none

theorem nearestDouble_eq_some {double : ℚ} :
    nearestDouble value = some double ↔ rounded value = double ∧ double < 2 ^ 1024 := by
  unfold nearestDouble
  split_ifs with finite
  · rw [Option.some_inj]
    constructor
    · rintro rfl
      exact ⟨rfl, finite⟩
    · exact And.left
  · simp only [false_iff]
    rintro ⟨rfl, small⟩
    exact finite small

theorem rounded_zero : rounded 0 = 0 := by
  rw [rounded, zero_div, ← Nat.cast_zero, roundHalfEven_natCast]
  simp

theorem twoPow_div (left right : ℤ) : twoPow left / twoPow right = twoPow (left - right) := by
  simp only [twoPow_eq_zpow]
  rw [zpow_sub₀ (by norm_num)]

theorem twoPow_integer {exponent : ℤ} (nonnegative : 0 ≤ exponent) :
    twoPow exponent = ((2 ^ exponent.toNat : ℤ) : ℚ) := by
  rw [twoPow, if_pos nonnegative]
  push_cast
  rfl

/-- A whole number of 53 bits, at any exponent, is its own nearest double. -/
theorem toDouble_scaled {count : ℤ} (fits : |count| ≤ 2 ^ 53) (exponent : ℤ) :
    toDouble (count * twoPow exponent) = count * twoPow exponent := by
  by_cases zero : (count : ℚ) * twoPow exponent = 0
  · rw [zero, toDouble, if_pos rfl]
  have unit := twoPow_pos exponent
  have size : |(count : ℚ) * twoPow exponent| ≤ twoPow (exponent + 53) := by
    rw [abs_mul, abs_of_pos unit, twoPow_eq_zpow, twoPow_eq_zpow, zpow_add₀ (by norm_num), mul_comm]
    gcongr
    exact_mod_cast fits
  have low := twoPow_leadingExponent_le zero
  rw [toDouble, if_neg zero]
  dsimp only
  generalize leadingExponent (count * twoPow exponent) = lead at low ⊢
  have leading : lead ≤ exponent + 53 := by
    have within := low.trans size
    rw [twoPow_eq_zpow, twoPow_eq_zpow] at within
    exact (zpow_le_zpow_iff_right₀ (by norm_num)).mp within
  obtain ⟨place, hplace⟩ : ∃ place : ℤ, place = lead - 52 := ⟨lead - 52, rfl⟩
  have whole : ∃ multiple : ℤ, (count : ℚ) * twoPow exponent = multiple * twoPow place := by
    by_cases finer : place ≤ exponent
    · refine ⟨count * 2 ^ (exponent - place).toNat, ?_⟩
      have step := twoPow_integer (show 0 ≤ exponent - place by omega)
      rw [← twoPow_div, div_eq_iff (twoPow_pos place).ne'] at step
      rw [step]
      push_cast
      ring
    · have top : place = exponent + 1 := by omega
      rw [show lead = exponent + 53 by omega] at low
      have full : |count| = 2 ^ 53 := by
        have same := le_antisymm size low
        rw [abs_mul, abs_of_pos unit, twoPow_eq_zpow, twoPow_eq_zpow, zpow_add₀ (by norm_num),
          mul_comm, mul_right_inj' (by positivity)] at same
        exact_mod_cast same
      have step : twoPow (exponent + 1) = 2 * twoPow exponent := by
        rw [twoPow_eq_zpow, twoPow_eq_zpow, zpow_add₀ (by norm_num)]
        ring
      rw [top, step]
      rcases (abs_eq (by norm_num)).mp full with plus | minus
      · exact ⟨2 ^ 52, by rw [plus]; push_cast; ring⟩
      · exact ⟨-2 ^ 52, by rw [minus]; push_cast; ring⟩
  obtain ⟨multiple, multiplied⟩ := whole
  have divided : (count : ℚ) * twoPow exponent / twoPow place = multiple := by
    rw [multiplied, mul_div_cancel_right₀ _ (twoPow_pos place).ne']
  rw [← hplace, divided, roundHalfEven_intCast, multiplied]

theorem toDouble_eq_scaled (nonnegative : 0 ≤ value) :
    ∃ (count : ℤ) (exponent : ℤ), |count| ≤ 2 ^ 53 ∧ toDouble value = count * twoPow exponent := by
  rcases nonnegative.eq_or_lt with rfl | positive
  · exact ⟨0, 0, by norm_num, by simp [toDouble]⟩
  · refine ⟨roundHalfEven (value / twoPow (leadingExponent value - 52)), leadingExponent value - 52,
      ?_, by rw [toDouble, if_neg positive.ne']⟩
    have unit := twoPow_pos (leadingExponent value - 52)
    have high : value / twoPow (leadingExponent value - 52) ≤ ((2 ^ 53 : ℤ) : ℚ) := by
      rw [div_le_iff₀ unit]
      refine (lt_twoPow_leadingExponent positive).le.trans_eq ?_
      rw [twoPow_eq_zpow, twoPow_eq_zpow,
        show leadingExponent value + 1 = 53 + (leadingExponent value - 52) by ring,
        zpow_add₀ (by norm_num)]
      norm_num
    have low : ((0 : ℤ) : ℚ) ≤ value / twoPow (leadingExponent value - 52) := by
      push_cast
      positivity
    rw [abs_of_nonneg (le_roundHalfEven low)]
    exact roundHalfEven_le high

theorem toDouble_add_self (nonnegative : 0 ≤ value) :
    toDouble (toDouble value + toDouble value) = toDouble value + toDouble value := by
  obtain ⟨count, exponent, fits, scaled⟩ := toDouble_eq_scaled nonnegative
  have twice : toDouble value + toDouble value = count * twoPow (exponent + 1) := by
    rw [scaled, twoPow_eq_zpow, twoPow_eq_zpow, zpow_add₀ (by norm_num)]
    ring
  rw [twice, toDouble_scaled fits]

theorem medianWith_replicate {mean : ℚ → ℚ → ℚ} {count : ℕ} (same : mean value value = value)
    (some : 0 < count) : medianWith mean (List.replicate count value) = value := by
  have sorted : (List.replicate count value).insertionSort (· ≤ ·) = List.replicate count value :=
    List.Pairwise.insertionSort_eq (List.pairwise_replicate.mpr (.inr le_rfl))
  have middle : (List.replicate count value).getD (count / 2) 0 = value := by
    rw [List.getD_eq_getElem?_getD, List.getElem?_replicate, if_pos (by omega)]
    rfl
  have before : (List.replicate count value).getD (count / 2 - 1) 0 = value := by
    rw [List.getD_eq_getElem?_getD, List.getElem?_replicate, if_pos (by omega)]
    rfl
  unfold medianWith
  simp only [sorted, List.length_replicate, middle, before, same, ite_self]

theorem median_replicate {count : ℕ} (some : 0 < count) :
    median (List.replicate count value) = value :=
  medianWith_replicate (add_self_div_two value) some

theorem medianDouble_replicate (nonnegative : 0 ≤ value) {count : ℕ} (some : 0 < count) :
    medianDouble (List.replicate count (toDouble value)) = toDouble value := by
  apply medianWith_replicate _ some
  rw [toDouble_add_self nonnegative, add_self_div_two]

theorem rounded_multiple (count : ℤ) (multiple : value = count * twoPow (lastPlace value)) :
    rounded value = value := by
  have whole : value / twoPow (lastPlace value) = count := by
    rw [div_eq_iff (twoPow_pos _).ne']
    exact multiple
  rw [rounded, whole, roundHalfEven_intCast]
  exact multiple.symm

theorem rounded_le_twoPow {exponent : ℤ} (place : lastPlace value ≤ exponent)
    (below : value ≤ twoPow exponent) : rounded value ≤ twoPow exponent := by
  have unit := twoPow_pos (lastPlace value)
  have bound : roundHalfEven (value / twoPow (lastPlace value)) ≤
      2 ^ (exponent - lastPlace value).toNat := by
    apply roundHalfEven_le
    rw [← twoPow_integer (by omega), ← twoPow_div]
    gcongr
  calc rounded value ≤ ((2 ^ (exponent - lastPlace value).toNat : ℤ) : ℚ) *
        twoPow (lastPlace value) := by
        unfold rounded
        gcongr
    _ = twoPow exponent := by
        rw [← twoPow_integer (by omega), ← twoPow_div]
        field_simp

theorem twoPow_le_rounded {exponent : ℤ} (place : lastPlace value ≤ exponent)
    (above : twoPow exponent ≤ value) : twoPow exponent ≤ rounded value := by
  have unit := twoPow_pos (lastPlace value)
  have bound : 2 ^ (exponent - lastPlace value).toNat ≤
      roundHalfEven (value / twoPow (lastPlace value)) := by
    apply le_roundHalfEven
    rw [← twoPow_integer (by omega), ← twoPow_div]
    gcongr
  calc twoPow exponent = ((2 ^ (exponent - lastPlace value).toNat : ℤ) : ℚ) *
        twoPow (lastPlace value) := by
        rw [← twoPow_integer (by omega), ← twoPow_div]
        field_simp
    _ ≤ rounded value := by
        unfold rounded
        gcongr

theorem rounded_nonneg (nonnegative : 0 ≤ value) : 0 ≤ rounded value := by
  have unit := twoPow_pos (lastPlace value)
  have bound : 0 ≤ roundHalfEven (value / twoPow (lastPlace value)) := by
    apply le_roundHalfEven
    push_cast
    positivity
  unfold rounded
  positivity

/-- Where two values have different last places a power of two lies between
them. -/
theorem rounded_mono (nonnegative : 0 ≤ value) (le : value ≤ other) :
    rounded value ≤ rounded other := by
  rcases nonnegative.eq_or_lt with rfl | positive
  · rw [rounded_zero]
    exact rounded_nonneg le
  · have leading := leadingExponent_mono positive le
    by_cases same : lastPlace value = lastPlace other
    · have unit := twoPow_pos (lastPlace other)
      have bound : roundHalfEven (value / twoPow (lastPlace other)) ≤
          roundHalfEven (other / twoPow (lastPlace other)) := by
        apply roundHalfEven_mono
        gcongr
      rw [rounded, rounded, same]
      gcongr
    · have between : leadingExponent value < leadingExponent other ∧
          lastPlace value ≤ leadingExponent other ∧ lastPlace other ≤ leadingExponent other := by
        unfold lastPlace at same ⊢
        omega
      have below := (leadingExponent_lt_iff positive _).mp between.1
      have above := twoPow_leadingExponent_le (positive.trans_le le).ne'
      rw [abs_of_pos (positive.trans_le le)] at above
      exact (rounded_le_twoPow between.2.1 below.le).trans (twoPow_le_rounded between.2.2 above)

/-- What lies between two values that are read as one double is read so too. -/
theorem nearestDouble_between {low high double : ℚ} (nonnegative : 0 ≤ low) (above : low ≤ value)
    (below : value ≤ high) (reads : nearestDouble low = some double)
    (reads' : nearestDouble high = some double) : nearestDouble value = some double := by
  rw [nearestDouble_eq_some] at reads reads' ⊢
  have lower := rounded_mono nonnegative above
  have upper := rounded_mono (nonnegative.trans above) below
  rw [reads.1] at lower
  rw [reads'.1] at upper
  exact ⟨le_antisymm upper lower, reads.2⟩

theorem lastPlace_rounded (nonnegative : 0 ≤ value) (nonzero : rounded value ≠ 0) :
    lastPlace (rounded value) ≤ lastPlace value ∨
      lastPlace (rounded value) = lastPlace value + 1 ∧
        rounded value = twoPow (lastPlace value + 53) := by
  have positive : 0 < rounded value := (rounded_nonneg nonnegative).lt_of_ne' nonzero
  have valuePositive : 0 < value := by
    rcases nonnegative.eq_or_lt with rfl | positive'
    · exact absurd rounded_zero nonzero
    · exact positive'
  have leading : leadingExponent value + 1 ≤ lastPlace value + 53 := by
    unfold lastPlace
    omega
  have below : value ≤ twoPow (lastPlace value + 53) :=
    ((leadingExponent_lt_iff valuePositive _).mp (by omega)).le
  have bound := rounded_le_twoPow (by omega) below
  by_cases top : rounded value = twoPow (lastPlace value + 53)
  · have exponent : leadingExponent (rounded value) = lastPlace value + 53 := by
      have low := twoPow_leadingExponent_le nonzero
      have low' := (leadingExponent_lt_iff positive (lastPlace value + 53)).not.mpr (by rw [top]; simp)
      have high := (leadingExponent_lt_iff positive (lastPlace value + 54)).mpr (by
        rw [top, twoPow_eq_zpow, twoPow_eq_zpow]
        exact zpow_lt_zpow_right₀ (by norm_num) (by omega))
      omega
    right
    refine ⟨?_, top⟩
    have floor : -1074 ≤ lastPlace value := le_max_right _ _
    rw [lastPlace, exponent]
    omega
  · have exponent := (leadingExponent_lt_iff positive _).mpr (lt_of_le_of_ne bound top)
    have floor : -1074 ≤ lastPlace value := le_max_right _ _
    left
    rw [lastPlace]
    omega

theorem rounded_rounded (nonnegative : 0 ≤ value) : rounded (rounded value) = rounded value := by
  by_cases zero : rounded value = 0
  · rw [zero, rounded_zero]
  · rcases lastPlace_rounded nonnegative zero with finer | ⟨place, top⟩
    · obtain ⟨count, whole⟩ : ∃ count : ℤ, rounded value = count * twoPow (lastPlace value) := ⟨_, rfl⟩
      have step : twoPow (lastPlace value) =
          ((2 ^ (lastPlace value - lastPlace (rounded value)).toNat : ℤ) : ℚ) *
            twoPow (lastPlace (rounded value)) := by
        rw [← twoPow_integer (by omega), ← twoPow_div]
        field_simp [(twoPow_pos (lastPlace (rounded value))).ne']
      apply rounded_multiple (count * 2 ^ (lastPlace value - lastPlace (rounded value)).toNat)
      calc rounded value = count * twoPow (lastPlace value) := whole
        _ = _ := by
            rw [step]
            push_cast
            ring
    · apply rounded_multiple (2 ^ 52)
      have split : lastPlace value + 53 = 52 + (lastPlace value + 1) := by ring
      rw [place, top, twoPow_eq_zpow, twoPow_eq_zpow, split, zpow_add₀ (by norm_num)]
      norm_num

theorem nearestDouble_self {double : ℚ} (nonnegative : 0 ≤ value)
    (reads : nearestDouble value = some double) : nearestDouble double = some double := by
  rw [nearestDouble_eq_some] at reads ⊢
  rw [← reads.1, rounded_rounded nonnegative]
  exact ⟨rfl, reads.1 ▸ reads.2⟩

theorem rounded_grid (value : ℚ) : ∃ count : ℤ, rounded value = count * twoPow (-1074) := by
  have floor : -1074 ≤ lastPlace value := le_max_right _ _
  refine ⟨roundHalfEven (value / twoPow (lastPlace value)) * 2 ^ (lastPlace value + 1074).toNat, ?_⟩
  have step : twoPow (lastPlace value) =
      ((2 ^ (lastPlace value + 1074).toNat : ℤ) : ℚ) * twoPow (-1074) := by
    rw [← twoPow_integer (by omega), ← sub_neg_eq_add, ← twoPow_div]
    field_simp [(twoPow_pos (-1074)).ne']
  rw [rounded, step]
  push_cast
  ring

end Rounding

section Shortest

variable (double : ℚ)

/-- The multiple of `10 ** place` at a double or the last one below it. -/
def multipleBelow (place : ℤ) : ℕ := ⌊double / 10 ^ place⌋.toNat

def readsAs (coefficient : ℕ) (place : ℤ) : Bool :=
  decide (nearestDouble (coefficient * 10 ^ place) = some double)

/-- Whether a multiple of `10 ** place` is read as the double: if one is, so is
one of the two around it. -/
def reaches (place : ℤ) : Bool :=
  readsAs double (multipleBelow double place) place ||
    readsAs double (multipleBelow double place + 1) place

def firstPlace : ℕ → ℤ → ℤ
  | 0, place => place
  | steps + 1, place => if reaches double place then place else firstPlace steps (place - 1)

/-- The place of the last digit: no double reaches `10 ** 309`, and every double
is a multiple of `10 ** -1074`. -/
def shortestPlace : ℤ := firstPlace double 1383 309

/-- Of the two multiples around the double the one that is read as it, or the
nearer one of both. -/
def coefficientAt (place : ℤ) : ℕ :=
  let digits := multipleBelow double place
  if readsAs double digits place && readsAs double (digits + 1) place then
    (roundHalfEven (double / 10 ^ place)).toNat
  else if readsAs double digits place then digits
  else digits + 1

def shortestCoefficient : ℕ := coefficientAt double (shortestPlace double)

/-- `coefficient * 10 ** place` is a decimal read as the double, none with fewer
digits is, and of those with as many it is the nearest, with an even last digit
when it is one of two. -/
structure Shortest (coefficient : ℕ) (place : ℤ) : Prop where
  reads : nearestDouble (coefficient * 10 ^ place) = some double
  fewest : ∀ other : ℕ, nearestDouble (other * 10 ^ (place + 1)) ≠ some double
  nearest : ∀ other : ℕ, nearestDouble (other * 10 ^ place) = some double → other ≠ coefficient →
    |coefficient * 10 ^ place - double| < |other * 10 ^ place - double| ∨
      |coefficient * 10 ^ place - double| = |other * 10 ^ place - double| ∧ coefficient % 2 = 0

variable {double}

theorem readsAs_iff {coefficient : ℕ} {place : ℤ} :
    readsAs double coefficient place = true ↔
      nearestDouble (coefficient * 10 ^ place) = some double := decide_eq_true_iff

theorem multipleBelow_le (nonnegative : 0 ≤ double) (place : ℤ) :
    multipleBelow double place * 10 ^ place ≤ double := by
  have unit : (0 : ℚ) < 10 ^ place := by positivity
  have floor : 0 ≤ ⌊double / 10 ^ place⌋ := Int.floor_nonneg.mpr (by positivity)
  have cast : (multipleBelow double place : ℚ) = ⌊double / 10 ^ place⌋ := by
    exact_mod_cast Int.toNat_of_nonneg floor
  rw [cast, ← le_div_iff₀ unit]
  exact Int.floor_le _

theorem lt_multipleAbove (place : ℤ) :
    double < ((multipleBelow double place + 1 : ℕ) : ℚ) * 10 ^ place := by
  have unit : (0 : ℚ) < 10 ^ place := by positivity
  have cast : (⌊double / 10 ^ place⌋ : ℚ) ≤ multipleBelow double place := by
    exact_mod_cast Int.self_le_toNat _
  rw [← div_lt_iff₀ unit]
  push_cast
  linarith [Int.lt_floor_add_one (double / 10 ^ place)]

section Reading

variable (nonnegative : 0 ≤ double) (own : nearestDouble double = some double)
include nonnegative own

theorem readsAs_below {coefficient : ℕ} {place : ℤ}
    (reads : nearestDouble (coefficient * 10 ^ place) = some double)
    (low : coefficient ≤ multipleBelow double place) :
    readsAs double (multipleBelow double place) place = true := by
  rw [readsAs_iff]
  apply nearestDouble_between (by positivity) _ (multipleBelow_le nonnegative place) reads own
  gcongr

theorem readsAs_above {coefficient : ℕ} {place : ℤ}
    (reads : nearestDouble (coefficient * 10 ^ place) = some double)
    (high : multipleBelow double place < coefficient) :
    readsAs double (multipleBelow double place + 1) place = true := by
  rw [readsAs_iff]
  apply nearestDouble_between nonnegative (lt_multipleAbove place).le _ own reads
  gcongr
  exact high

theorem reaches_iff (place : ℤ) : reaches double place = true ↔
    ∃ coefficient : ℕ, nearestDouble (coefficient * 10 ^ place) = some double := by
  rw [reaches, Bool.or_eq_true]
  constructor
  · rintro (reads | reads)
    · exact ⟨_, readsAs_iff.mp reads⟩
    · exact ⟨_, readsAs_iff.mp reads⟩
  · rintro ⟨coefficient, reads⟩
    rcases Nat.lt_or_ge (multipleBelow double place) coefficient with high | low
    · exact .inr (readsAs_above nonnegative own reads high)
    · exact .inl (readsAs_below nonnegative own reads low)

theorem reaches_last : reaches double (-1074) = true := by
  rw [reaches_iff nonnegative own]
  obtain ⟨count, whole⟩ := rounded_grid double
  rw [(nearestDouble_eq_some.mp own).1] at whole
  have unit := twoPow_pos (-1074)
  have natural : 0 ≤ count := by
    by_contra negative
    have below : (count : ℚ) < 0 := by exact_mod_cast not_le.mp negative
    nlinarith
  refine ⟨count.toNat * 5 ^ 1074, ?_⟩
  have cast : ((count.toNat : ℕ) : ℚ) = count := by exact_mod_cast Int.toNat_of_nonneg natural
  have same : ((count.toNat * 5 ^ 1074 : ℕ) : ℚ) * 10 ^ (-1074 : ℤ) = double := by
    have ten : (10 : ℚ) ^ (-1074 : ℤ) = (5 ^ 1074)⁻¹ * 2 ^ (-1074 : ℤ) := by
      rw [show (10 : ℚ) = 5 * 2 by norm_num, mul_zpow]
      congr 1
    rw [Nat.cast_mul, cast, ten, Nat.cast_pow, Nat.cast_ofNat, mul_assoc, ← mul_assoc (5 ^ 1074 : ℚ),
      mul_inv_cancel₀ (by positivity), one_mul, whole, twoPow_eq_zpow]
  rw [same]
  exact own

end Reading

theorem coefficientAt_cases {place : ℤ} (nonnegative : 0 ≤ double) (reached : reaches double place = true) :
    readsAs double (coefficientAt double place) place = true ∧
      ((coefficientAt double place : ℤ) = roundHalfEven (double / 10 ^ place) ∨
        coefficientAt double place = multipleBelow double place ∧
          readsAs double (multipleBelow double place + 1) place = false ∨
        coefficientAt double place = multipleBelow double place + 1 ∧
          readsAs double (multipleBelow double place) place = false) := by
  have low : (multipleBelow double place : ℚ) ≤ double / 10 ^ place := by
    rw [le_div_iff₀ (by positivity)]
    exact multipleBelow_le nonnegative _
  have high : double / 10 ^ place < ((multipleBelow double place + 1 : ℕ) : ℚ) := by
    rw [div_lt_iff₀ (by positivity)]
    exact lt_multipleAbove _
  have above : (multipleBelow double place : ℤ) ≤ roundHalfEven (double / 10 ^ place) :=
    le_roundHalfEven (by exact_mod_cast low)
  have below : roundHalfEven (double / 10 ^ place) ≤ (multipleBelow double place + 1 : ℕ) :=
    roundHalfEven_le (by exact_mod_cast high.le)
  rw [reaches, Bool.or_eq_true] at reached
  unfold coefficientAt
  dsimp only
  split_ifs with both single
  · rw [Bool.and_eq_true] at both
    refine ⟨?_, .inl (Int.toNat_of_nonneg (by omega))⟩
    obtain same | same : (roundHalfEven (double / 10 ^ place)).toNat = multipleBelow double place ∨
        (roundHalfEven (double / 10 ^ place)).toNat = multipleBelow double place + 1 := by omega
    · rw [same]
      exact both.1
    · rw [same]
      exact both.2
  · rw [single, Bool.true_and, Bool.not_eq_true] at both
    exact ⟨single, .inr (.inl ⟨rfl, both⟩)⟩
  · exact ⟨reached.resolve_left single, .inr (.inr ⟨rfl, Bool.eq_false_iff.mpr single⟩)⟩


theorem roundHalfEven_tie {value : ℚ} (tie : |(roundHalfEven value : ℚ) - value| = 1 / 2) :
    roundHalfEven value % 2 = 0 := by
  have low : (⌊value⌋ : ℚ) ≤ value := Int.floor_le value
  have high : value < ⌊value⌋ + 1 := Int.lt_floor_add_one value
  unfold roundHalfEven at tie ⊢
  dsimp only at tie ⊢
  split_ifs at tie ⊢ with small large even
  · rw [abs_sub_comm, abs_of_nonneg (by linarith)] at tie
    linarith
  · push_cast at tie
    rw [abs_of_nonneg (by linarith)] at tie
    linarith
  · exact even
  · omega

theorem abs_multiple_sub (value : ℚ) (coefficient : ℕ) (place : ℤ) :
    |coefficient * 10 ^ place - value| = |(coefficient : ℚ) - value / 10 ^ place| * 10 ^ place := by
  have unit : (0 : ℚ) < 10 ^ place := by positivity
  rw [← abs_of_pos unit, ← abs_mul, abs_of_pos unit, sub_mul, div_mul_cancel₀ _ unit.ne']

theorem rounded_large {value : ℚ} (large : 2 ^ 1024 ≤ value) : nearestDouble value = none := by
  have power : twoPow 1024 = 2 ^ 1024 := rfl
  have exponent : leadingExponent (twoPow 1024) < 1025 := by
    rw [leadingExponent_lt_iff (twoPow_pos _), twoPow_eq_zpow, twoPow_eq_zpow]
    exact zpow_lt_zpow_right₀ (by norm_num) (by norm_num)
  have place : lastPlace (twoPow 1024) ≤ 1024 := by
    unfold lastPlace
    omega
  have top := twoPow_le_rounded place le_rfl
  have mono := rounded_mono (twoPow_pos 1024).le (power.trans_le large)
  rw [nearestDouble, if_neg]
  rw [not_lt, ← power]
  exact top.trans mono

section Overflow

variable {value : ℚ}

theorem roundHalfEven_lt {bound : ℤ} (below : value < bound + 1 / 2) : roundHalfEven value ≤ bound := by
  have near := (abs_le.mp (abs_roundHalfEven_sub_le value)).2
  have next : (roundHalfEven value : ℚ) < bound + 1 := by linarith
  exact Int.lt_add_one_iff.mp (by exact_mod_cast next)

theorem even_le_roundHalfEven {bound : ℤ} (even : bound % 2 = 0) (above : bound - 1 / 2 ≤ value) :
    bound ≤ roundHalfEven value := by
  by_cases reached : (bound : ℚ) ≤ value
  · exact le_roundHalfEven reached
  · have low : bound - 1 ≤ ⌊value⌋ := by
      apply Int.le_floor.mpr
      push_cast
      linarith
    have high : ⌊value⌋ < bound := Int.floor_lt.mpr (not_le.mp reached)
    have floor : ⌊value⌋ = bound - 1 := by omega
    rw [roundHalfEven, floor, if_neg (by push_cast; linarith)]
    split_ifs <;> omega

/-- From the middle between the largest double and the next power of two on, a
value is rounded to infinity. -/
@[irreducible] def overflowThreshold : ℚ := 2 ^ 1024 - 2 ^ 970

theorem overflowThreshold_eq : overflowThreshold = (2 ^ 53 - 1 / 2) * twoPow 971 := by
  have top : (2 : ℚ) ^ 1024 = 2 ^ 53 * 2 ^ 971 := by rw [← pow_add]
  have half : (2 : ℚ) ^ 971 = 2 * 2 ^ 970 := by rw [← pow_succ']
  have unit : twoPow 971 = 2 ^ 971 := by rw [twoPow_eq_zpow, zpow_ofNat]
  rw [overflowThreshold, unit, sub_mul, top, half]
  generalize (2 : ℚ) ^ 970 = last
  ring

theorem top_eq : (2 : ℚ) ^ 1024 = 2 ^ 53 * twoPow 971 := by
  rw [twoPow_eq_zpow, zpow_ofNat, ← pow_add]

theorem nearestDouble_eq_none_iff (nonnegative : 0 ≤ value) :
    nearestDouble value = none ↔ overflowThreshold ≤ value := by
  have unit := twoPow_pos 971
  have power : twoPow 1024 = 2 ^ 1024 := by rw [twoPow_eq_zpow, zpow_ofNat]
  rw [nearestDouble, ite_eq_right_iff, overflowThreshold_eq]
  simp only [reduceCtorEq, imp_false, not_lt]
  by_cases large : 2 ^ 1024 ≤ value
  · have beyond := rounded_large large
    rw [nearestDouble, ite_eq_right_iff] at beyond
    simp only [reduceCtorEq, imp_false, not_lt] at beyond
    constructor
    · intro _
      refine le_trans ?_ large
      rw [top_eq]
      gcongr
      norm_num
    · intro _
      exact beyond
  rcases nonnegative.eq_or_lt with rfl | positive
  · rw [rounded_zero]
    constructor
    · intro top
      exact absurd top (not_le.mpr (by positivity))
    · intro bound
      exact absurd bound (not_le.mpr (mul_pos (by norm_num) unit))
  have leading : leadingExponent value < 1024 := by
    rw [leadingExponent_lt_iff positive, power]
    exact not_le.mp large
  by_cases lower : leadingExponent value < 1023
  · -- below the last power of two nothing reaches the end
    have below := (leadingExponent_lt_iff positive _).mp lower
    have bound := @rounded_le_twoPow value 1023 (by unfold lastPlace; omega) below.le
    have half : twoPow 1023 = 2 ^ 52 * twoPow 971 := by
      rw [twoPow_eq_zpow, twoPow_eq_zpow, zpow_ofNat, zpow_ofNat, ← pow_add]
    constructor
    · intro top
      rw [top_eq] at top
      have := top.trans bound
      rw [half] at this
      nlinarith
    · intro top
      rw [half] at below
      nlinarith
  · have place : lastPlace value = 971 := by
      unfold lastPlace
      omega
    rw [rounded, place, top_eq, mul_le_mul_iff_left₀ unit, ← le_div_iff₀ unit]
    constructor
    · intro top
      by_contra below
      have last := @roundHalfEven_lt (value / twoPow 971) (2 ^ 53 - 1) (by push_cast; linarith)
      have last : (roundHalfEven (value / twoPow 971) : ℚ) ≤ 2 ^ 53 - 1 := by exact_mod_cast last
      linarith
    · intro above
      have reached := @even_le_roundHalfEven (value / twoPow 971) (2 ^ 53) (by norm_num)
        (by push_cast; exact above)
      exact_mod_cast reached

end Overflow

theorem not_reaches_first (positive : 0 < double) (coefficient : ℕ) :
    nearestDouble (coefficient * 10 ^ (310 : ℤ)) ≠ some double := by
  intro reads
  rcases Nat.eq_zero_or_pos coefficient with rfl | some
  · rw [Nat.cast_zero, zero_mul, nearestDouble_eq_some, rounded_zero] at reads
    exact positive.ne reads.1
  · have one : (1 : ℚ) ≤ coefficient := by exact_mod_cast some
    have large : (2 : ℚ) ^ 1024 ≤ coefficient * 10 ^ (310 : ℤ) :=
      calc (2 : ℚ) ^ 1024 = 2 * (2 ^ 93) ^ 11 := by rw [← pow_mul, ← pow_succ']
        _ ≤ 10 ^ 2 * (10 ^ 28) ^ 11 := by gcongr <;> norm_num
        _ = 1 * 10 ^ (310 : ℤ) := by
            rw [show (310 : ℤ) = (310 : ℕ) from rfl, zpow_natCast, one_mul, ← pow_mul, ← pow_add]
        _ ≤ coefficient * 10 ^ (310 : ℤ) := by gcongr
    rw [rounded_large large] at reads
    cases reads

theorem firstPlace_spec {steps : ℕ} {place : ℤ} (last : reaches double (place - steps) = true) :
    reaches double (firstPlace double steps place) = true ∧
      (firstPlace double steps place = place ∨
        reaches double (firstPlace double steps place + 1) = false) := by
  induction steps generalizing place with
  | zero =>
    rw [Nat.cast_zero, sub_zero] at last
    exact ⟨last, .inl rfl⟩
  | succ steps ih =>
    rw [firstPlace]
    cases here : reaches double place with
    | true =>
      rw [if_pos rfl]
      exact ⟨here, .inl rfl⟩
    | false =>
      rw [if_neg Bool.false_ne_true]
      obtain ⟨found, higher⟩ := @ih (place - 1) (by rwa [Nat.cast_succ, add_comm, ← sub_sub] at last)
      refine ⟨found, .inr ?_⟩
      rcases higher with top | none
      · rw [top, sub_add_cancel]
        exact here
      · exact none

theorem le_firstPlace (steps : ℕ) (place : ℤ) : place - steps ≤ firstPlace double steps place := by
  induction steps generalizing place with
  | zero => exact Int.sub_le_self place (by omega)
  | succ steps ih =>
    rw [firstPlace]
    split_ifs
    · omega
    · have := ih (place - 1)
      push_cast
      omega

theorem le_shortestPlace (double : ℚ) : -1074 ≤ shortestPlace double :=
  le_firstPlace 1383 309

section Search

variable (positive : 0 < double) (own : nearestDouble double = some double)
include positive own

theorem shortestPlace_spec : reaches double (shortestPlace double) = true ∧
    ∀ other : ℕ, nearestDouble (other * 10 ^ (shortestPlace double + 1)) ≠ some double := by
  obtain ⟨found, higher⟩ :=
    @firstPlace_spec double 1383 309 (reaches_last positive.le own)
  refine ⟨found, fun other reads => ?_⟩
  rcases higher with top | none
  · rw [shortestPlace, top] at reads
    exact not_reaches_first positive other reads
  · have reached := (reaches_iff positive.le own _).mpr ⟨other, reads⟩
    rw [shortestPlace, none] at reached
    cases reached

theorem shortest_nearest {place : ℤ} (reached : reaches double place = true) {other : ℕ}
    (reads : nearestDouble (other * 10 ^ place) = some double)
    (different : other ≠ coefficientAt double place) :
    |coefficientAt double place * 10 ^ place - double| < |other * 10 ^ place - double| ∨
      |coefficientAt double place * 10 ^ place - double| = |other * 10 ^ place - double| ∧
        coefficientAt double place % 2 = 0 := by
  have unit : (0 : ℚ) < 10 ^ place := by positivity
  have low : (multipleBelow double place : ℚ) ≤ double / 10 ^ place := by
    rw [le_div_iff₀ unit]
    exact multipleBelow_le positive.le _
  have high : double / 10 ^ place < (multipleBelow double place : ℚ) + 1 := by
    rw [div_lt_iff₀ unit]
    exact_mod_cast lt_multipleAbove place
  rw [abs_multiple_sub, abs_multiple_sub, mul_lt_mul_iff_left₀ unit, mul_left_inj' unit.ne']
  obtain ⟨-, nearer | ⟨same, none⟩ | ⟨same, none⟩⟩ := coefficientAt_cases positive.le reached
  · have cast : (coefficientAt double place : ℚ) = roundHalfEven (double / 10 ^ place) := by
      exact_mod_cast nearer
    have half := abs_roundHalfEven_sub_le (double / 10 ^ place)
    have apart : (1 : ℚ) ≤ |(other : ℚ) - coefficientAt double place| := by
      have distinct : (other : ℤ) - coefficientAt double place ≠ 0 := by omega
      exact_mod_cast Int.one_le_abs distinct
    have triangle := abs_sub_le (other : ℚ) (double / 10 ^ place) (coefficientAt double place)
    rw [abs_sub_comm (double / 10 ^ place)] at triangle
    rw [← cast] at half
    rcases lt_or_eq_of_le (show |(coefficientAt double place : ℚ) - double / 10 ^ place| ≤
        |(other : ℚ) - double / 10 ^ place| by linarith) with less | tie
    · exact .inl less
    · have even := roundHalfEven_tie (show |(roundHalfEven (double / 10 ^ place) : ℚ) -
          double / 10 ^ place| = 1 / 2 by rw [← cast]; linarith)
      exact .inr ⟨tie, by omega⟩
  · have below : other < multipleBelow double place := by
      by_contra above
      have reads' := readsAs_above positive.le own reads (by omega)
      rw [none] at reads'
      cases reads'
    have less : (other : ℚ) < multipleBelow double place := by exact_mod_cast below
    left
    rw [same, abs_of_nonpos (by linarith), abs_of_nonpos (by linarith)]
    linarith
  · have above : multipleBelow double place + 1 < other := by
      by_contra below
      have reads' := readsAs_below positive.le own reads (by omega)
      rw [none] at reads'
      cases reads'
    have more : (multipleBelow double place : ℚ) + 1 < other := by exact_mod_cast above
    left
    rw [same, Nat.cast_succ, abs_of_nonneg (by linarith), abs_of_nonneg (by linarith)]
    linarith

theorem shortest_spec : Shortest double (shortestCoefficient double) (shortestPlace double) where
  reads := readsAs_iff.mp (coefficientAt_cases positive.le (shortestPlace_spec positive own).1).1
  fewest := (shortestPlace_spec positive own).2
  nearest := fun _ => shortest_nearest positive own (shortestPlace_spec positive own).1

end Search

end Shortest

end CodeCalc.Lib
