import CodeCalc.Exact.Evaluator
import CodeCalc.Exact.Radix
import CodeCalc.Lib.Decimal
import CodeCalc.Lib.FixedWidth
import CodeCalc.Lib.JsonFloat

/-! `float_repr`: what a binary64 pattern stores.  The value is decoded exactly
and then shown through a decimal of so many significant digits, as the context of
the thread has them, and of 40 places. -/
namespace CodeCalc.FloatRepr
open Lib Lib.Radix Lib.FixedWidth Lib.JsonCodec RadixConvert
open Exact (strInt strFraction intMaxStrDigits)

section Program

variable (bits : BitVec 64)

def sign : ℕ := (bits >>> 63).toNat

def exponent : ℕ := ((bits >>> 52) &&& 0x7FF#64).toNat

def fraction : ℕ := (bits &&& 0xFFFFFFFFFFFFF#64).toNat

def exactValue : ℚ :=
  let value : ℚ :=
    if exponent bits = 0 then (fraction bits / 2 ^ 52) * (1 / 2 ^ 1022)
    else
      let mant : ℚ := ((2 ^ 52 + fraction bits : ℕ) : ℚ) / 2 ^ 52
      let e : ℤ := exponent bits - 1023
      mant * if 0 ≤ e then 2 ^ e.toNat else 1 / 2 ^ (-e).toNat
  if sign bits ≠ 0 then -value else value

/-- The digits and the place of `repr(x)`. -/
def literalDigits : ℕ × ℤ := printedDecimal |exactValue bits|

/-- `repr(x)`. -/
def literal : Text :=
  (if sign bits ≠ 0 then [minus] else []) ++ reprDecimal (literalDigits bits).1 (literalDigits bits).2

/-- `Fraction(str(x))`, and `Decimal(str(x))` as a number. -/
def literalValue : ℚ :=
  let magnitude : ℚ := (literalDigits bits).1 * 10 ^ (literalDigits bits).2
  if sign bits ≠ 0 then -magnitude else magnitude

/-- `f"{value:.{places}f}"` of a decimal. -/
def fixedText (places : ℕ) (value : ℚ) : Text :=
  let count := (Decimal.fixed places value).natAbs
  (if value < 0 then [minus] else []) ++ decimal (count / 10 ^ places) ++
    point :: (padded 10 places (count % 10 ^ places)).map CodePoint.ofChar

/-- `text.rstrip("0").rstrip(".")`. -/
def rstrip (text : Text) : Text :=
  (text.rdropWhile (· = CodePoint.ofChar '0')).rdropWhile (· = point)

/-- `Decimal(value.numerator) / Decimal(value.denominator)`.  The precision is 50
in the thread that has imported the module, and 28 in any other. -/
def quotient (precision : ℕ) : ℚ := Decimal.significant precision (exactValue bits)

/-- The answer for a finite pattern, less the fields that are floats. -/
structure Report where
  literal : Text
  stored : Text
  bitsHex : String
  sign : ℕ
  exponent : ℕ
  fractionHex : String
  exact : Bool
  error : String
  note : Option String

/-- `float_repr`; an infinity and a NaN have their spelling for an answer. -/
def floatRepr (precision : ℕ) : Except Exc (String ⊕ Report) :=
  if exponent bits = 0x7FF then
    .ok (.inl (if fraction bits ≠ 0 then "nan" else if sign bits = 0 then "inf" else "-inf"))
  else do
    let error ← strFraction (exactValue bits - literalValue bits)
    .ok (.inr {
      literal := literal bits
      stored := rstrip (fixedText 40 (quotient bits precision))
      bitsHex := "0x" ++ String.ofList (padded 16 16 bits.toNat)
      sign := sign bits
      exponent := exponent bits
      fractionHex := "0x" ++ String.ofList (padded 16 13 (fraction bits))
      exact := decide (literalValue bits = quotient bits precision)
      error
      note := if 2 ^ 53 < |exactValue bits| then
        some ">2^53: consecutive integers no longer distinguishable" else none })

end Program

section Specification

variable (bits : BitVec 64)

/-- The number that a finite pattern stands for. -/
def ieeeValue : ℚ :=
  (-1) ^ sign bits * ((fraction bits + if exponent bits = 0 then 0 else 2 ^ 52) *
    2 ^ ((max (exponent bits) 1 : ℤ) - 1075))

/-- What a report is to say of its pattern. -/
structure Faithful (report : Report) : Prop where
  decoded : exactValue bits = ieeeValue bits
  shortest : ieeeValue bits ≠ 0 → ∃ coefficient place,
    Shortest |ieeeValue bits| coefficient place ∧ |literalValue bits| = coefficient * 10 ^ place
  stored : readRadix 10 report.stored = some (ieeeValue bits)
  exact : report.exact = true ↔ ieeeValue bits = literalValue bits
  error : strFraction (ieeeValue bits - literalValue bits) = .ok report.error

end Specification

section Digits

theorem ofChar_digitChar : ∀ digit < 10, CodePoint.ofChar (Nat.digitChar digit) = digitChar digit := by
  decide

theorem map_digitChar {digits : List ℕ} (small : ∀ digit ∈ digits, digit < 10) :
    (digits.map Nat.digitChar).map CodePoint.ofChar = digits.map digitChar := by
  rw [List.map_map]
  apply List.map_congr_left
  intro digit member
  exact ofChar_digitChar digit (small digit member)

theorem decimal_row (value : ℕ) : ∃ digits : List ℕ, decimal value = digits.map digitChar ∧
    (∀ digit ∈ digits, digit < 10) ∧ numeral 10 digits = value ∧ digits ≠ [] := by
  obtain ⟨digits, small, worth, row⟩ := @toDigits_numeral 10 (by decide) value
  refine ⟨digits, ?_, small, worth, ?_⟩
  · rw [decimal, row, map_digitChar small]
  · rintro rfl
    exact Nat.toDigits_ne_nil row

theorem digitChar_eq_zero {digit : ℕ} (small : digit < 10) :
    digitChar digit = CodePoint.ofChar '0' ↔ digit = 0 := by
  have all : ∀ digit < 10, digitChar digit = CodePoint.ofChar '0' ↔ digit = 0 := by decide
  exact all digit small

variable {whole row : List ℕ} {lead : Text}

theorem rdropWhile_zeros (small : ∀ digit ∈ row, digit < 10) :
    (lead ++ point :: row.map digitChar).rdropWhile (· = CodePoint.ofChar '0') =
      lead ++ point :: (row.rdropWhile (· = 0)).map digitChar := by
  induction row using List.reverseRecOn with
  | nil =>
    rw [List.map_nil, List.rdropWhile_nil, List.map_nil]
    exact List.rdropWhile_concat_neg _ _ _ (by decide)
  | append_singleton row digit ih =>
    have last : digit < 10 := small digit (by simp)
    rw [List.map_append, List.map_singleton, ← List.cons_append, ← List.append_assoc,
      List.rdropWhile_concat, List.rdropWhile_concat]
    simp only [decide_eq_true_eq, digitChar_eq_zero last]
    split_ifs with zero
    · exact ih fun other member => small other (List.mem_append_left _ member)
    · simp

/-- The zeros at the end are worth nothing. -/
theorem numeral_rdropWhile (row : List ℕ) :
    (numeral 10 (row.rdropWhile (· = 0)) : ℚ) / 10 ^ (row.rdropWhile (· = 0)).length =
      numeral 10 row / 10 ^ row.length := by
  induction row using List.reverseRecOn with
  | nil => rfl
  | append_singleton row digit ih =>
    rw [List.rdropWhile_concat]
    simp only [decide_eq_true_eq]
    split_ifs with zero
    · rw [ih, zero, numeral_concat, List.length_append, List.length_singleton, pow_succ]
      push_cast
      rw [add_zero, mul_div_mul_right _ _ (by norm_num)]
    · rfl

end Digits

section Stored

variable {places : ℕ} {value : ℚ}

theorem fixedText_eq (positive : 0 < places) : ∃ whole row : List ℕ,
    fixedText places value = (if value < 0 then [minus] else []) ++ whole.map digitChar ++
      point :: row.map digitChar ∧
    (∀ digit ∈ whole, digit < 10) ∧ (∀ digit ∈ row, digit < 10) ∧ whole ≠ [] ∧
    (numeral 10 whole : ℚ) + numeral 10 row / 10 ^ row.length =
      (Decimal.fixed places value).natAbs / 10 ^ places := by
  obtain ⟨whole, shown, wholeSmall, wholeWorth, some⟩ :=
    decimal_row ((Decimal.fixed places value).natAbs / 10 ^ places)
  obtain ⟨row, long, rowSmall, rowWorth, rowShown⟩ := @padded_row 10 _ _ (by decide) positive
    (Nat.mod_lt (Decimal.fixed places value).natAbs (Nat.pow_pos (by decide)))
  refine ⟨whole, row, ?_, wholeSmall, rowSmall, some, ?_⟩
  · rw [fixedText, shown, rowShown, map_digitChar rowSmall]
  · have unit : (10 : ℚ) ^ places ≠ 0 := by positivity
    have split : (((Decimal.fixed places value).natAbs / 10 ^ places : ℕ) : ℚ) * 10 ^ places +
        ((Decimal.fixed places value).natAbs % 10 ^ places : ℕ) =
          (Decimal.fixed places value).natAbs := by
      exact_mod_cast Nat.div_add_mod' _ _
    rw [wholeWorth, rowWorth, long]
    field_simp
    exact split

theorem signed_fixed : signed (decide (value < 0)) ((Decimal.fixed places value).natAbs / 10 ^ places) =
    (Decimal.fixed places value : ℚ) / 10 ^ places := by
  have unit : (0 : ℚ) < 10 ^ places := by positivity
  rw [signed]
  by_cases negative : value < 0
  · have low : Decimal.fixed places value ≤ 0 := by
      apply roundHalfEven_le
      push_cast
      nlinarith
    have count : ((Decimal.fixed places value).natAbs : ℚ) = -Decimal.fixed places value := by
      rw [Nat.cast_natAbs, abs_of_nonpos low]
      push_cast
      rfl
    rw [if_pos (decide_eq_true negative), count]
    ring
  · have high : 0 ≤ Decimal.fixed places value := by
      apply le_roundHalfEven
      push_cast
      have := not_lt.mp negative
      positivity
    have count : ((Decimal.fixed places value).natAbs : ℚ) = Decimal.fixed places value := by
      rw [Nat.cast_natAbs, abs_of_nonneg high]
    rw [if_neg (by simpa using negative), count]

theorem rdropWhile_point {lead : Text} {digits : List ℕ} (small : ∀ digit ∈ digits, digit < 10)
    (some : digits ≠ []) :
    (lead ++ digits.map digitChar).rdropWhile (· = point) = lead ++ digits.map digitChar := by
  obtain ⟨init, last, rfl⟩ := (List.eq_nil_or_concat' digits).resolve_left some
  rw [List.map_append, List.map_singleton, ← List.append_assoc]
  apply List.rdropWhile_concat_neg
  have small := small last (by simp)
  simpa using (digitChar_ne (show last < 36 by omega)).2

/-- Without the zeros, and without a point that they leave behind, the text is
worth the same. -/
theorem readRadix_rstrip (positive : 0 < places) :
    readRadix 10 (rstrip (fixedText places value)) =
      some ((Decimal.fixed places value : ℚ) / 10 ^ places) := by
  obtain ⟨whole, row, shown, wholeSmall, rowSmall, some, worth⟩ := @fixedText_eq _ value positive
  have strippedSmall : ∀ digit ∈ row.rdropWhile (· = 0), digit < 10 :=
    fun digit member => rowSmall digit ((List.rdropWhile_prefix _ _).subset member)
  rw [← signed_fixed, ← worth, ← numeral_rdropWhile row, rstrip, shown, rdropWhile_zeros rowSmall]
  have sign : (if value < 0 then [minus] else []) =
      if decide (value < 0) = true then [minus] else [] := by simp
  rw [sign]
  by_cases bare : row.rdropWhile (· = 0) = []
  · rw [bare, List.map_nil, List.rdropWhile_concat, if_pos (by simp), rdropWhile_point wholeSmall some]
    have unsigned := @unsigned_digits 10 _ (by decide) wholeSmall some []
    rw [List.append_nil] at unsigned
    rw [readRadix_signed unsigned (readMagnitude_whole (by decide) wholeSmall)]
    simp [numeral]
  · rw [List.append_cons, rdropWhile_point strippedSmall bare, ← List.append_cons, List.append_assoc]
    have unsigned := @unsigned_digits 10 _ (by decide) wholeSmall some
      (point :: (row.rdropWhile (· = 0)).map digitChar)
    rw [readRadix_signed unsigned (readMagnitude_point (by decide) wholeSmall strippedSmall)]
    rfl

end Stored

section Decoding

variable (bits : BitVec 64)

theorem sign_cases : sign bits = 0 ∨ sign bits = 1 := by
  have small : sign bits < 2 := by
    rw [sign, BitVec.toNat_ushiftRight, Nat.shiftRight_eq_div_pow]
    exact Nat.div_lt_of_lt_mul bits.isLt
  omega

theorem fraction_lt : fraction bits < 2 ^ 52 := by
  rw [fraction, BitVec.toNat_and]
  exact (Nat.and_le_right).trans_lt (by decide)

theorem exponent_le : exponent bits ≤ 0x7FF := by
  rw [exponent, BitVec.toNat_and]
  exact Nat.and_le_right

/-- The number without its sign. -/
def ieeeMagnitude : ℚ :=
  (fraction bits + if exponent bits = 0 then 0 else 2 ^ 52) * 2 ^ ((max (exponent bits) 1 : ℤ) - 1075)

theorem decoded_subnormal (subnormal : exponent bits = 0) :
    (fraction bits / 2 ^ 52 : ℚ) * (1 / 2 ^ 1022) = ieeeMagnitude bits := by
  rw [ieeeMagnitude, if_pos subnormal, subnormal, add_zero]
  have place : ((max ((0 : ℕ) : ℤ) 1 : ℤ) - 1075) = -(52 + 1022 : ℕ) := by norm_num
  rw [place, zpow_neg, zpow_natCast, pow_add, mul_inv]
  generalize (2 : ℚ) ^ 1022 = unit
  ring

theorem decoded_normal (normal : exponent bits ≠ 0) :
    ((2 ^ 52 + fraction bits : ℕ) : ℚ) / 2 ^ 52 * twoPow (exponent bits - 1023) =
      ieeeMagnitude bits := by
  rw [ieeeMagnitude, if_neg normal, twoPow_eq_zpow]
  have place : (max (exponent bits) 1 : ℤ) - 1075 = exponent bits - 1023 - (52 : ℕ) := by omega
  rw [place]
  generalize (exponent bits : ℤ) - 1023 = e
  rw [zpow_sub₀ (by norm_num), zpow_natCast]
  push_cast
  ring

/-- The two ways to decode a pattern agree. -/
theorem exactValue_eq : exactValue bits = ieeeValue bits := by
  have magnitude : exactValue bits = if sign bits ≠ 0 then -ieeeMagnitude bits
      else ieeeMagnitude bits := by
    rw [exactValue]
    dsimp only
    by_cases subnormal : exponent bits = 0
    · rw [if_pos subnormal, decoded_subnormal bits subnormal]
    · rw [if_neg subnormal, ← decoded_normal bits subnormal]
      rfl
  change _ = (-1) ^ sign bits * ieeeMagnitude bits
  rw [magnitude]
  rcases sign_cases bits with positive | negative
  · simp [positive]
  · simp [negative]

theorem ieeeMagnitude_nonneg : 0 ≤ ieeeMagnitude bits := by
  rw [ieeeMagnitude]
  positivity

theorem abs_ieeeValue : |ieeeValue bits| = ieeeMagnitude bits := by
  change |(-1) ^ sign bits * ieeeMagnitude bits| = _
  rw [abs_mul, abs_pow, abs_neg, abs_one, one_pow, one_mul, abs_of_nonneg (ieeeMagnitude_nonneg bits)]

/-- A finite pattern stands for a multiple of its place, of 53 bits at most. -/
theorem ieeeMagnitude_eq : ∃ count place : ℕ, count < 2 ^ 53 ∧ 1 ≤ place ∧ place ≤ max (exponent bits) 1 ∧
    ieeeMagnitude bits = count * twoPow ((place : ℤ) - 1075) := by
  have small := fraction_lt bits
  refine ⟨fraction bits + if exponent bits = 0 then 0 else 2 ^ 52, max (exponent bits) 1, ?_,
    le_max_right _ _, le_rfl, ?_⟩
  · split_ifs <;> omega
  · rw [ieeeMagnitude, twoPow_eq_zpow]
    push_cast
    rfl

theorem nearestDouble_ieeeMagnitude (finite : exponent bits ≠ 0x7FF) :
    nearestDouble (ieeeMagnitude bits) = some (ieeeMagnitude bits) := by
  obtain ⟨count, place, few, low, high, same⟩ := ieeeMagnitude_eq bits
  have top : place ≤ 2046 := by
    have := exponent_le bits
    omega
  have unit := twoPow_pos ((place : ℤ) - 1075)
  have below : ieeeMagnitude bits < twoPow (place - 1022) := by
    have few : (count : ℚ) < 2 ^ 53 := by exact_mod_cast few
    have split : twoPow ((place : ℤ) - 1022) = 2 ^ 53 * twoPow ((place : ℤ) - 1075) := by
      rw [twoPow_eq_zpow, twoPow_eq_zpow, ← zpow_natCast, ← zpow_add₀ (by norm_num)]
      congr 1
      push_cast
      ring
    rw [same, split]
    gcongr
  rw [nearestDouble_eq_some]
  constructor
  · rcases (ieeeMagnitude_nonneg bits).eq_or_lt with zero | positive
    · rw [← zero, rounded_zero]
    have finer : lastPlace (ieeeMagnitude bits) ≤ (place : ℤ) - 1075 := by
      have := (leadingExponent_lt_iff positive _).mpr below
      rw [lastPlace]
      omega
    apply rounded_multiple (count * 2 ^ ((place : ℤ) - 1075 - lastPlace (ieeeMagnitude bits)).toNat)
    have whole := twoPow_integer (sub_nonneg.mpr finer)
    rw [← twoPow_div] at whole
    rw [Int.cast_mul, ← whole, Int.cast_natCast, mul_assoc,
      div_mul_cancel₀ _ (twoPow_pos (lastPlace (ieeeMagnitude bits))).ne', ← same]
  · refine below.trans_le ?_
    rw [twoPow_eq_zpow, ← zpow_natCast]
    exact zpow_le_zpow_right₀ (by norm_num) (by omega)

end Decoding

section Literal

variable {bits : BitVec 64}

theorem literalDigits_eq : literalDigits bits = printedDecimal (ieeeMagnitude bits) := by
  rw [literalDigits, exactValue_eq, abs_ieeeValue]

theorem abs_literalValue :
    |literalValue bits| = (literalDigits bits).1 * 10 ^ (literalDigits bits).2 := by
  have nonnegative : (0 : ℚ) ≤ (literalDigits bits).1 * 10 ^ (literalDigits bits).2 := by positivity
  rw [literalValue]
  split_ifs
  · rw [abs_neg, abs_of_nonneg nonnegative]
  · rw [abs_of_nonneg nonnegative]

/-- The literal is the shortest decimal that is read as the double. -/
theorem literal_shortest (finite : exponent bits ≠ 0x7FF) (nonzero : ieeeValue bits ≠ 0) :
    Shortest |ieeeValue bits| (literalDigits bits).1 (literalDigits bits).2 := by
  have positive : 0 < ieeeMagnitude bits := by
    rw [← abs_ieeeValue]
    exact abs_pos.mpr nonzero
  rw [literalDigits_eq, printedDecimal, if_neg positive.ne', abs_ieeeValue]
  exact shortest_spec positive (nearestDouble_ieeeMagnitude bits finite)

theorem nearestDouble_literal (finite : exponent bits ≠ 0x7FF) :
    nearestDouble |literalValue bits| = some (ieeeMagnitude bits) := by
  rw [abs_literalValue]
  by_cases zero : ieeeValue bits = 0
  · have bare : ieeeMagnitude bits = 0 := by rw [← abs_ieeeValue, zero, abs_zero]
    have own := nearestDouble_ieeeMagnitude bits finite
    rw [literalDigits_eq, printedDecimal, if_pos bare]
    simpa [bare] using own
  · rw [(literal_shortest finite zero).reads, abs_ieeeValue]

theorem lt_of_nearestDouble {value double : ℚ} (reads : nearestDouble value = some double) :
    value < 2 ^ 1024 := by
  by_contra large
  rw [rounded_large (not_lt.mp large)] at reads
  cases reads

theorem whole_of_abs {value : ℚ} {unit : ℕ} (whole : ∃ count : ℤ, |value| * unit = count) :
    ∃ count : ℤ, value * unit = count := by
  obtain ⟨count, same⟩ := whole
  rcases abs_choice value with positive | negative
  · exact ⟨count, by rw [← same, positive]⟩
  · refine ⟨-count, ?_⟩
    rw [Int.cast_neg, ← same, negative, neg_mul, neg_neg]

theorem ieeeMagnitude_whole : ∃ count : ℤ, ieeeMagnitude bits * (10 ^ 1074 : ℕ) = count := by
  obtain ⟨count, place, _, low, _, same⟩ := ieeeMagnitude_eq bits
  refine ⟨count * 2 ^ (place - 1) * 5 ^ 1074, ?_⟩
  have split : ((10 ^ 1074 : ℕ) : ℚ) = 2 ^ 1074 * 5 ^ 1074 := by
    rw [Nat.cast_pow, ← mul_pow]
    norm_num
  have power : twoPow ((place : ℤ) - 1075) * 2 ^ 1074 = 2 ^ (place - 1) := by
    rw [twoPow_eq_zpow, ← zpow_natCast, ← zpow_add₀ (by norm_num), ← zpow_natCast]
    congr 1
    omega
  rw [same, split, ← mul_assoc, mul_assoc _ _ (2 ^ 1074 : ℚ), power, Int.cast_mul, Int.cast_mul,
    Int.cast_natCast, Int.cast_pow, Int.cast_pow, Int.cast_ofNat, Int.cast_ofNat]

theorem literal_whole : ∃ count : ℤ, |literalValue bits| * (10 ^ 1074 : ℕ) = count := by
  have place : -1074 ≤ (literalDigits bits).2 := by
    rw [literalDigits_eq, printedDecimal]
    split_ifs
    · decide
    · exact le_shortestPlace _
  refine ⟨(literalDigits bits).1 * 10 ^ ((literalDigits bits).2 + 1074).toNat, ?_⟩
  rw [abs_literalValue, Int.cast_mul, ← Decimal.zpow_integer (by omega), zpow_add₀ (by norm_num),
    Int.cast_natCast, mul_assoc, zpow_ofNat, Nat.cast_pow, Nat.cast_ofNat]

/-- A number of so few places, and not too large, can be written. -/
theorem printable_of_places {value : ℚ} {places scale : ℕ}
    (whole : ∃ count : ℤ, value * (10 ^ places : ℕ) = count) (small : |value| ≤ 10 ^ scale)
    (short : scale + places < intMaxStrDigits) : Exact.Printable value := by
  obtain ⟨count, same⟩ := whole
  have positive : 0 < 10 ^ places := Nat.pow_pos (by decide)
  have nonzero : ((10 ^ places : ℕ) : ℚ) ≠ 0 := by exact_mod_cast positive.ne'
  have shape : value = (count : ℚ) / (((10 ^ places : ℕ) : ℤ) : ℚ) := by
    rw [Int.cast_natCast, eq_div_iff nonzero, same]
  have divides : value.den ∣ 10 ^ places := by
    have := Rat.den_dvd count ((10 ^ places : ℕ) : ℤ)
    rw [Rat.divInt_eq_div, ← shape] at this
    exact_mod_cast this
  have le := Nat.le_of_dvd positive divides
  have numerator : value.num.natAbs ≤ 10 ^ (scale + places) := by
    have bound : (value.num.natAbs : ℚ) ≤ 10 ^ scale * (10 ^ places : ℕ) :=
      calc (value.num.natAbs : ℚ) = |value| * value.den := by
            rw [Nat.cast_natAbs, Int.cast_abs, ← Rat.mul_den_eq_num value, abs_mul, Nat.abs_cast]
        _ ≤ 10 ^ scale * (10 ^ places : ℕ) :=
            mul_le_mul small (Nat.cast_le.mpr le) (Nat.cast_nonneg _) (by positivity)
    rw [pow_add]
    exact_mod_cast bound
  exact ⟨numerator.trans_lt (Nat.pow_lt_pow_right (by decide) short),
    le.trans_lt (Nat.pow_lt_pow_right (by decide) (by omega))⟩

theorem two_doubles : (2 : ℚ) ^ 1024 + 2 ^ 1024 ≤ 10 ^ 310 :=
  calc (2 : ℚ) ^ 1024 + 2 ^ 1024 = 2 * (2 * (2 ^ 93) ^ 11) := by
        rw [← two_mul, ← pow_mul, ← pow_succ', ← pow_succ', ← pow_succ']
    _ ≤ 10 ^ 1 * (10 ^ 1 * (10 ^ 28) ^ 11) := by gcongr <;> norm_num
    _ = 10 ^ 310 := by rw [← pow_mul, ← pow_add, ← pow_add]

/-- The difference can be written: it has at most 1074 places. -/
theorem error_printable (finite : exponent bits ≠ 0x7FF) :
    Exact.Printable (ieeeValue bits - literalValue bits) := by
  have stored : |ieeeValue bits| < 2 ^ 1024 := by
    rw [abs_ieeeValue]
    exact lt_of_nearestDouble (nearestDouble_ieeeMagnitude bits finite)
  have read : |literalValue bits| < 2 ^ 1024 := lt_of_nearestDouble (nearestDouble_literal finite)
  have whole : ∃ count : ℤ, (ieeeValue bits - literalValue bits) * (10 ^ 1074 : ℕ) = count := by
    obtain ⟨left, leftSame⟩ := @whole_of_abs (ieeeValue bits) _
      (by rw [abs_ieeeValue]; exact ieeeMagnitude_whole)
    obtain ⟨right, rightSame⟩ := whole_of_abs (@literal_whole bits)
    refine ⟨left - right, ?_⟩
    rw [sub_mul, leftSame, rightSame, Int.cast_sub]
  have small : |ieeeValue bits - literalValue bits| ≤ 10 ^ 310 :=
    calc |ieeeValue bits - literalValue bits| ≤ |ieeeValue bits| + |literalValue bits| := abs_sub _ _
      _ ≤ 2 ^ 1024 + 2 ^ 1024 := add_le_add stored.le read.le
      _ ≤ 10 ^ 310 := two_doubles
  exact printable_of_places whole small (by decide)

end Literal

section Answers

variable {bits : BitVec 64}

theorem floatRepr_eq (precision : ℕ) (finite : exponent bits ≠ 0x7FF) : ∃ report,
    floatRepr bits precision = .ok (.inr report) ∧
      strFraction (ieeeValue bits - literalValue bits) = .ok report.error ∧
      report.stored = rstrip (fixedText 40 (Decimal.significant precision (ieeeValue bits))) ∧
      report.exact = decide (literalValue bits = Decimal.significant precision (ieeeValue bits)) := by
  obtain ⟨text, shown⟩ := Exact.strFraction_of_printable (error_printable finite)
  rw [floatRepr, if_neg finite, quotient, exactValue_eq, shown]
  exact ⟨_, rfl, rfl, rfl, rfl⟩

/-- The report of a finite pattern is faithful exactly when the number has no more
significant digits than the context and at most 40 places. -/
theorem floatRepr_faithful_iff (bits : BitVec 64) {precision : ℕ} (some_digit : 0 < precision)
    (finite : exponent bits ≠ 0x7FF) :
    (∃ report, floatRepr bits precision = .ok (.inr report) ∧ Faithful bits report) ↔
      Decimal.Short precision 40 (ieeeValue bits) := by
  obtain ⟨report, ran, error, stored, exact⟩ := floatRepr_eq precision finite
  have unit : (10 : ℚ) ^ 40 ≠ 0 := by positivity
  rw [← Decimal.fixed_significant_iff some_digit, ← div_eq_iff unit]
  constructor
  · rintro ⟨other, ran', faithful⟩
    cases ran.symm.trans ran'
    have shown := faithful.stored
    rw [stored, readRadix_rstrip (by decide)] at shown
    exact Option.some.inj shown
  · intro kept
    have short := (Decimal.fixed_significant_iff some_digit).mp ((div_eq_iff unit).mp kept)
    refine ⟨report, ran, ?_⟩
    exact {
      decoded := exactValue_eq bits
      shortest := fun nonzero => ⟨_, _, literal_shortest finite nonzero, abs_literalValue⟩
      stored := by rw [stored, readRadix_rstrip (by decide), kept]
      exact := by rw [exact, short.significant_eq, decide_eq_true_eq, eq_comm]
      error := error }

theorem ieeeValue_half : ieeeValue 0x3FE0000000000000#64 = 5 * 10 ^ (-1 : ℤ) := by
  rw [ieeeValue, show sign 0x3FE0000000000000#64 = 0 by decide,
    show exponent 0x3FE0000000000000#64 = 1022 by decide, show fraction 0x3FE0000000000000#64 = 0 by decide]
  norm_num

theorem short_half {precision : ℕ} (some_digit : 0 < precision) :
    Decimal.Short precision 40 (ieeeValue 0x3FE0000000000000#64) := by
  refine ⟨5, -1, ?_, by decide, ieeeValue_half⟩
  calc |(5 : ℤ)| < 10 ^ 1 := by decide
    _ ≤ 10 ^ precision := pow_le_pow_right₀ (by decide) some_digit

/-- The report of 0.5 is faithful, at either precision. -/
theorem floatRepr_faithful_iff_half :
    (∃ report, floatRepr 0x3FE0000000000000#64 28 = .ok (.inr report) ∧
      Faithful 0x3FE0000000000000#64 report) ∧
    ∃ report, floatRepr 0x3FE0000000000000#64 50 = .ok (.inr report) ∧
      Faithful 0x3FE0000000000000#64 report :=
  ⟨(floatRepr_faithful_iff 0x3FE0000000000000#64 (by decide) (by decide)).mpr (short_half (by decide)),
    (floatRepr_faithful_iff 0x3FE0000000000000#64 (by decide) (by decide)).mpr (short_half (by decide))⟩

/-- The smallest double has more than 40 places: it is stored as "0". -/
theorem not_short_smallest (precision : ℕ) : ¬Decimal.Short precision 40 (ieeeValue 1#64) := by
  intro short
  obtain ⟨count, whole⟩ := short.multiple
  have value : ieeeValue 1#64 = 2 ^ (-1074 : ℤ) := by
    rw [ieeeValue, show sign 1#64 = 0 by decide, show exponent 1#64 = 0 by decide,
      show fraction 1#64 = 1 by decide]
    norm_num
  have small : (2 : ℚ) ^ (-1074 : ℤ) * 10 ^ 40 < 1 :=
    calc (2 : ℚ) ^ (-1074 : ℤ) * 10 ^ 40 < 2 ^ (-1074 : ℤ) * 2 ^ 1074 := by
          gcongr
          calc (10 : ℚ) ^ 40 < 2 ^ 160 := by norm_num
            _ < 2 ^ 1074 := pow_lt_pow_right₀ (by norm_num) (by norm_num)
      _ = 1 := by
          rw [← zpow_natCast, ← zpow_add₀ (by norm_num), Nat.cast_ofNat, neg_add_cancel, zpow_zero]
  rw [value] at whole
  have positive : (0 : ℚ) < 2 ^ (-1074 : ℤ) * 10 ^ 40 := by positivity
  rw [whole] at small positive
  have low : 0 < count := by exact_mod_cast positive
  have high : count < 1 := by exact_mod_cast small
  omega

theorem floatRepr_lossy :
    (¬∃ report, floatRepr 1#64 28 = .ok (.inr report) ∧ Faithful 1#64 report) ∧
      ¬∃ report, floatRepr 1#64 50 = .ok (.inr report) ∧ Faithful 1#64 report := by
  rw [floatRepr_faithful_iff 1#64 (by decide) (by decide), floatRepr_faithful_iff 1#64 (by decide) (by decide)]
  exact ⟨not_short_smallest 28, not_short_smallest 50⟩

end Answers

end CodeCalc.FloatRepr
