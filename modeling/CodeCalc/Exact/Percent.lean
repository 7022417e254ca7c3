import CodeCalc.Exact.Evaluator
import CodeCalc.Lib.Decimal
import CodeCalc.Lib.NumberText

/-! `percentage` and `percent_change`: two numbers as text, and how one stands to
the other.  A change is screened first, by the digits a number would need. -/
namespace CodeCalc.Percent
open Lib Lib.NumberText Lib.Radix Errors
open Exact (strInt strFraction intMaxStrDigits refusal Printable)

section Floats

/-- A float that is not a NaN. -/
inductive Double where
  | finite (value : ℚ)
  | infinite (negative : Bool)
  deriving DecidableEq

/-- `float(value)` of a decimal. -/
def Double.ofDecimal (value : ℚ) : Double :=
  match nearestDouble |value| with
  | some magnitude => .finite (if value < 0 then -magnitude else magnitude)
  | none => .infinite (decide (value < 0))

def Double.isFinite : Double → Bool
  | .finite _ => true
  | .infinite _ => false

/-- `value * factor` for a positive integer. -/
def Double.times (factor : ℕ) : Double → Double
  | .finite value => .ofDecimal (value * factor)
  | .infinite negative => .infinite negative

/-- `round(value, ROUND_DIGITS)`. -/
def Double.round : Double → Double
  | .finite value => .ofDecimal (Decimal.fixed 6 value / 10 ^ 6)
  | .infinite negative => .infinite negative

def Double.json : Double → Json
  | .finite value => .float value
  | .infinite negative => .nonfinite (if negative then "-Infinity" else "Infinity")

def maxDecimalExponent : ℤ := 999999

/-- `Decimal(value.numerator) / Decimal(value.denominator)`, at the precision of
the thread's context. -/
def decimalQuotient (precision : ℕ) (value : ℚ) : Except Exc ℚ :=
  let quotient := Decimal.significant precision value
  if maxDecimalExponent < Int.log 10 |quotient| then
    .error ⟨"Overflow", [.arithmeticError, .exception], some "[<class 'decimal.Overflow'>]", none, none⟩
  else .ok quotient

end Floats

section Program

variable (precision : ℕ) (numerals : Numerals)

/-- `Fraction(text)`; the first two faults are `ValueError`s. -/
def fraction (text : Text) : Except Fault ℚ := fractionOf intMaxStrDigits numerals text

/-- `Fraction(first), Fraction(second)`. -/
def fractions (first second : Text) : Except Fault (ℚ × ℚ) := do
  let first ← fraction numerals first
  let second ← fraction numerals second
  .ok (first, second)

def percentage (part total : Text) : Except Exc Fields :=
  match fractions numerals part total with
  | .error _ => .ok (refusal "part and total must be numbers")
  | .ok (p, t) =>
      if t = 0 then .ok (refusal "total is zero")
      else do
        let share := p / t
        let d ← decimalQuotient precision share
        let partText ← strFraction p
        let totalText ← strFraction t
        let numerator ← strInt share.num
        let denominator ← strInt share.den
        .ok [("ok", .bool true), ("part", .str partText), ("total", .str totalText),
          ("share", .str (numerator ++ "/" ++ denominator)),
          ("percent", ((Double.ofDecimal d).times 100).round.json),
          ("rounding", .obj [("percent", .int 6)])]

def maxNumericDigits : ℕ := 4000

def maxNumericLiteralLen : ℕ := maxNumericDigits + 32

/-- `\d*` and what follows. -/
def plainRun : Text → List ℕ × Text
  | [] => ([], [])
  | code :: rest =>
      match numerals.decimal code with
      | some digit => (digit :: (plainRun rest).1, (plainRun rest).2)
      | none => ([], code :: rest)

/-- `([+-]?\d+)\s*$`. -/
def exponentAtEnd (text : Text) : Option (Bool × List ℕ) :=
  let run := plainRun numerals (signOf text).2
  if run.1 ≠ [] ∧ run.2.all isSpace = true then some ((signOf text).1, run.1) else none

/-- `_SCI_EXP_RE.search(s)`: what stands before the match, and the exponent. -/
def searchExponent : Text → Option (Text × Bool × List ℕ)
  | [] => none
  | code :: rest =>
      match if isExponentMark code = true then exponentAtEnd numerals rest else none with
      | some exponent => some ([], exponent)
      | none => (searchExponent rest).map fun found => (code :: found.1, found.2)

/-- `int(digits)`, uncaught. -/
def exponentValue (negative : Bool) (digits : List ℕ) : Except Exc ℤ :=
  match intOf intMaxStrDigits digits with
  | .ok value => .ok (signed negative value)
  | .error _ => .error (.valueError ("Exceeds the limit (4300 digits) for integer string " ++
      "conversion: value has " ++ toString digits.length ++ " digits; use " ++
      "sys.set_int_max_str_digits() to increase the limit"))

def mantissaAndExponent (s : Text) : Except Exc (Text × ℤ) :=
  match searchExponent numerals s with
  | some (mantissa, negative, digits) =>
      (exponentValue negative digits).map fun exponent => (mantissa, exponent)
  | none => .ok (s, 0)

def oversizedNumericLiteral (s : Text) : Except Exc (Option String) :=
  if underscore ∈ s then
    .ok (some "must not contain '_' as a digit separator (write '1000000', not '1_000_000')")
  else if maxNumericLiteralLen < s.length then .ok (some "too long (max 4032 chars)")
  else do
    let (mantissa, exponent) ← mantissaAndExponent numerals s
    let digitCount := mantissa.countP numerals.isDigit + exponent.natAbs
    if maxNumericDigits < digitCount then do
      let count ← strInt digitCount
      .ok (some ("would need about " ++ count ++ " digits, over the limit of 4000"))
    else .ok none

/-- The refusal of the first text that is too large. -/
def screen : List (String × Text) → Except Exc (Option Fields)
  | [] => .ok none
  | (label, s) :: rest => do
      match ← oversizedNumericLiteral numerals s with
      | some problem => .ok (some (errorResult .resourceExhausted (label ++ " " ++ problem)
          [("remedy", .str "use fewer digits or a more moderate exponent")]))
      | none => screen rest

/-- What the second `try` block computes. -/
structure Change where
  change : ℚ
  percent : ℚ
  dPercent : ℚ
  percentExact : String
  absoluteChange : String
  multiplier : String

def compute (a b : ℚ) : Except Exc Change := do
  let change := b - a
  let percent := change / |a| * 100
  let dPercent ← decimalQuotient precision percent
  let percentExact ← strFraction percent
  let absoluteChange ← strFraction change
  let multiplier ← strFraction (b / a)
  .ok ⟨change, percent, dPercent, percentExact, absoluteChange, multiplier⟩

def direction (change : ℚ) : String :=
  if 0 < change then "increase" else if change < 0 then "decrease" else "unchanged"

def overflowNote : String :=
  "percent_decimal has no finite float representation (the exact " ++
    "value's magnitude overflows binary64's range) and is reported " ++
    "as null; percent_exact still carries the exact rational value"

def negativeNote : String :=
  "from_value is negative: percent_exact/percent_decimal are relative " ++
    "to abs(from_value) (the conventional (to - from) / |from| " ++
    "definition), and `direction` follows the algebraic sign of " ++
    "(to_value - from_value), not the change in |value| — e.g. " ++
    "-100 -> -50 reports direction=\"increase\" (-50 > -100) even " ++
    "though the magnitude fell from 100 to 50"

def report (a : ℚ) (fromText toText : String) (computed : Change) : Fields :=
  let percentDecimal := (Double.ofDecimal computed.dPercent).round
  let notes := (if percentDecimal.isFinite then [] else [overflowNote]) ++
    if a < 0 then [negativeNote] else []
  [("ok", .bool true), ("from_value", .str fromText), ("to_value", .str toText),
    ("absolute_change", .str computed.absoluteChange), ("percent_exact", .str computed.percentExact),
    ("percent_decimal", if percentDecimal.isFinite then percentDecimal.json else .null),
    ("direction", .str (direction computed.change)), ("multiplier", .str computed.multiplier),
    ("rounding", .obj [("percent_decimal", .int 6)])] ++
    if notes = [] then [] else [("note", .str (" ".intercalate notes))]

/-- The answer to a computation that raised: a `ValueError` is reported. -/
def tooLarge (exc : Exc) : Except Exc Fields :=
  if exc.isInstance .valueError then
    match exc.message with
    | some text => .ok (errorResult .resourceExhausted
        ("the computed result is too large to represent: " ++ text)
        [("remedy", .str "use inputs with fewer digits or closer in magnitude")])
    | none => .error exc.unprintable
  else .error exc

def percentChange (fromValue toValue : Text) : Except Exc Fields := do
  match ← screen numerals [("from_value", fromValue), ("to_value", toValue)] with
  | some refused => .ok refused
  | none =>
      match fractions numerals fromValue toValue with
      | .error _ => .ok (refusal "from_value and to_value must be numbers")
      | .ok (a, b) =>
          if a = 0 then
            .ok (errorResult .validation "from_value is zero; percent change is undefined"
              [("remedy", .str "report the absolute change instead")])
          else
            match compute precision a b with
            | .error exc => tooLarge exc
            | .ok computed => do
                let fromText ← strFraction a
                let toText ← strFraction b
                .ok (report a fromText toText computed)

end Program

section Specification

variable (numerals : Numerals)

/-- A text that is read as the number. -/
def Denotes (text : String) (value : ℚ) : Prop := fraction numerals (Text.ofString text) = .ok value

/-- What an answer that is ok has to say about the change from `a` to `b`. -/
structure Exactly (a b : ℚ) (fields : Fields) : Prop where
  percent : ∃ text, fields.lookup "percent_exact" = some (.str text) ∧
    Denotes numerals text (100 * (b - a) / |a|)
  change : ∃ text, fields.lookup "absolute_change" = some (.str text) ∧ Denotes numerals text (b - a)
  multiplier : ∃ text, fields.lookup "multiplier" = some (.str text) ∧ Denotes numerals text (b / a)
  increase : fields.lookup "direction" = some (.str "increase") ↔ a < b
  decrease : fields.lookup "direction" = some (.str "decrease") ↔ b < a
  unchanged : fields.lookup "direction" = some (.str "unchanged") ↔ a = b

end Specification

section Texts

variable {numerals : Numerals} {value : ℤ} {fraction' : ℚ} {text : String}

theorem ofString_append (left right : String) :
    Text.ofString (left ++ right) = Text.ofString left ++ Text.ofString right := by
  simp [Text.ofString]

theorem ofString_toString (value : ℤ) : Text.ofString (toString value) = integer value := by
  have natural (value : ℕ) : Text.ofString (toString value) = decimal value := by
    rw [Nat.toString_eq_repr, Nat.repr, Text.ofString, String.toList_ofList, decimal]
  cases value with
  | ofNat value => exact natural value
  | negSucc value =>
    change Text.ofString ("-" ++ toString (value + 1)) = _
    rw [ofString_append, natural]
    rfl

/-- What `str` writes is read as what it was. -/
theorem denotes_strFraction (shown : strFraction fraction' = .ok text) : Denotes numerals text fraction' := by
  have printable := Exact.printable_of_strFraction shown
  have above := (Exact.short_iff _).mpr printable.1
  have below := (Exact.short_iff _).mpr printable.2
  have den : (fraction'.den : ℤ).natAbs < 10 ^ intMaxStrDigits := printable.2
  rw [strFraction, Exact.strInt_of_lt printable.1, Exact.strInt_of_lt den] at shown
  rw [Denotes, fraction]
  split at shown
  · rename_i whole
    cases shown
    rw [ofString_toString, fractionOf_integer above, Rat.coe_int_num_of_den_eq_one whole]
  · cases shown
    rw [ofString_append, ofString_append, ofString_toString, ofString_toString, List.append_assoc]
    have slashed : Text.ofString "/" ++ integer (fraction'.den : ℤ) = solidus :: decimal fraction'.den :=
      rfl
    rw [slashed, fractionOf_ratio fraction'.den_nz above below, Rat.num_div_den]

end Texts

section Screen

variable {numerals : Numerals} {text : Text} {digits : List ℕ}

theorem plainRun_eq (read : plainRun numerals text = (digits, rest)) : ∃ front : Text,
    text = front ++ rest ∧ front.length = digits.length ∧ ∀ digit ∈ digits, digit < 10 := by
  induction text generalizing digits with
  | nil =>
    cases read
    exact ⟨[], rfl, rfl, by simp⟩
  | cons code after ih =>
    rw [plainRun] at read
    split at read
    · rename_i digit value
      obtain ⟨rfl, rfl⟩ := Prod.mk.inj read
      obtain ⟨front, same, long, small⟩ := ih rfl
      refine ⟨code :: front, congrArg (code :: ·) same, by simp [long], ?_⟩
      intro other member
      rcases List.mem_cons.mp member with rfl | later
      · exact numerals.decimal_lt value
      · exact small other later
    · obtain ⟨rfl, rfl⟩ := Prod.mk.inj read
      exact ⟨[], rfl, rfl, by simp⟩

theorem digitRun_eq_plainRun (plain : underscore ∉ text) :
    digitRun numerals text = plainRun numerals text := by
  have more (text : Text) (plain : underscore ∉ text) :
      moreDigits numerals text = plainRun numerals text := by
    induction text with
    | nil => rfl
    | cons code rest ih =>
      rw [List.mem_cons, not_or] at plain
      obtain ⟨first, later⟩ := plain
      rewrite [moreDigits, plainRun, ih later, if_neg (by simp [Ne.symm first])]
      rfl
  rw [digitRun]
  split
  · exact more text plain
  · rename_i starts
    cases text with
    | nil => rfl
    | cons code rest =>
      have none : numerals.decimal code = .none := by simpa [startsDigit] using starts
      rw [plainRun, none]

theorem searchExponent_append {mantissa : Text} (behind : Text)
    (plain : ∀ code ∈ mantissa, isExponentMark code = false) :
    searchExponent numerals (mantissa ++ behind) =
      (searchExponent numerals behind).map fun found => (mantissa ++ found.1, found.2) := by
  induction mantissa with
  | nil => simp
  | cons code rest ih =>
    have first : isExponentMark code = false := plain code (by simp)
    rw [List.cons_append, searchExponent, if_neg (by simp [first]),
      ih fun other member => plain other (List.mem_cons_of_mem _ member), Option.map_map]
    rfl

theorem searchExponent_eq {mantissa : Text} {negative : Bool}
    (found : searchExponent numerals text = some (mantissa, negative, digits)) :
    mantissa.length + digits.length ≤ text.length ∧ ∀ digit ∈ digits, digit < 10 := by
  induction text generalizing mantissa with
  | nil => cases found
  | cons code rest ih =>
    rw [searchExponent] at found
    split at found
    · rename_i exponent read
      obtain ⟨rfl, rfl⟩ := Prod.mk.inj (Option.some.inj found)
      split at read
      · rw [exponentAtEnd] at read
        split at read
        · rcases run : plainRun numerals (signOf rest).2 with ⟨digits', after⟩
          rw [run] at read
          cases read
          obtain ⟨front, same, long, small⟩ := plainRun_eq run
          obtain ⟨sign, same', _⟩ := signOf_eq rest
          refine ⟨?_, small⟩
          rw [same, ← List.append_assoc] at same'
          rw [same']
          simp
          omega
        · cases read
      · cases read
    · obtain ⟨⟨before, later⟩, inner, same⟩ := Option.map_eq_some_iff.mp found
      cases same
      obtain ⟨short, small⟩ := ih inner
      refine ⟨?_, small⟩
      simp
      omega

theorem exponentValue_ok {negative : Bool} (short : digits.length ≤ intMaxStrDigits) :
    exponentValue negative digits = .ok (signed negative (numeral 10 digits)) := by
  rw [exponentValue, intOf, if_pos short]

theorem mantissaAndExponent_matched {found : Groups} {mantissa behind : Text}
    (plain : underscore ∉ text) (short : text.length ≤ maxNumericLiteralLen)
    (same : text = mantissa ++ behind) (matched : Matched numerals found mantissa behind) :
    ∃ seen exponent, mantissaAndExponent numerals text = .ok (seen, exponent) ∧
      mantissa.countP numerals.isDigit ≤ seen.countP numerals.isDigit ∧
      exponent.natAbs = found.exponents.1 + found.exponents.2 := by
  have exponent := matched.exponent
  rcases shown : found.exponent with _ | ⟨negative, digits⟩
  · rw [shown] at exponent
    have blank : ∀ code ∈ text, isExponentMark code = false := by
      rw [same]
      intro code member
      rcases List.mem_append.mp member with early | late
      · exact matched.plain code early
      · exact not_mark_of_isSpace (List.all_eq_true.mp exponent code late)
    have none : searchExponent numerals text = .none := by
      have := @searchExponent_append numerals _ [] blank
      rwa [List.append_nil] at this
    refine ⟨text, 0, by rw [mantissaAndExponent, none], ?_, by rw [Groups.exponents, shown]; rfl⟩
    rw [same, List.countP_append]
    exact Nat.le_add_right _ _
  · rw [shown] at exponent
    obtain ⟨mark, rest, blank, behindSame, marked, sign, run, some, blanks⟩ := exponent
    have plainRest : underscore ∉ (signOf rest).2 := by
      obtain ⟨front, split, _⟩ := signOf_eq rest
      intro member
      apply plain
      rw [same, behindSame]
      apply List.mem_append_right
      apply List.mem_cons_of_mem
      rw [split]
      exact List.mem_append_right _ member
    rw [digitRun_eq_plainRun plainRest] at run
    have search : searchExponent numerals text = .some (mantissa, negative, digits) := by
      rw [same, searchExponent_append behind matched.plain, behindSame, searchExponent, if_pos marked,
        exponentAtEnd, run, if_pos ⟨some, blanks⟩, sign]
      simp
    have few := (searchExponent_eq search).1
    have long : digits.length ≤ intMaxStrDigits := by
      have limits : maxNumericLiteralLen ≤ intMaxStrDigits := by decide
      omega
    refine ⟨mantissa, signed negative (numeral 10 digits), ?_, le_rfl, ?_⟩
    · rw [mantissaAndExponent, search]
      dsimp only
      rw [exponentValue_ok long]
      rfl
    · rw [natAbs_signed, Groups.exponents, shown]
      cases negative <;> simp

theorem add_pow_le {small large : ℕ} (less : small < large) : small + 10 ^ small ≤ 10 ^ large :=
  calc small + 10 ^ small ≤ 10 ^ small + 10 ^ small :=
        Nat.add_le_add_right (Nat.lt_pow_self (by decide)).le _
    _ ≤ 10 ^ (small + 1) := by
        rw [Nat.pow_succ]
        omega
    _ ≤ 10 ^ large := Nat.pow_le_pow_right (by decide) less

/-- The estimate of the screen is not below the digits of the number. -/
theorem oversized_none {value : ℚ} (accepted : oversizedNumericLiteral numerals text = .ok none)
    (read : fraction numerals text = .ok value) :
    value.num.natAbs < 10 ^ maxNumericDigits ∧ value.den ≤ 10 ^ maxNumericDigits := by
  obtain ⟨found, mantissa, behind, same, matched, above, below⟩ := fractionOf_lt read
  rw [oversizedNumericLiteral] at accepted
  split at accepted
  · cases accepted
  · rename_i plain
    split at accepted
    · cases accepted
    · rename_i short
      obtain ⟨seen, exponent, shown, more, size⟩ :=
        mantissaAndExponent_matched plain (Nat.le_of_not_lt short) same matched
      rw [shown, except_ok_bind] at accepted
      dsimp only at accepted
      split at accepted
      · obtain ⟨count, _, accepted⟩ := except_bind_ok accepted
        cases accepted
      · rename_i fits
        have covered := matched.covered
        constructor
        · exact above.trans_le (Nat.pow_le_pow_right (by decide) (by omega))
        · exact below.trans (Nat.pow_le_pow_right (by decide) (by omega))

/-- The screen answers: what it counts is short enough to be shown. -/
theorem oversized_ok (text : Text) : ∃ answer, oversizedNumericLiteral numerals text = .ok answer := by
  rw [oversizedNumericLiteral]
  split
  · exact ⟨_, rfl⟩
  · split
    · exact ⟨_, rfl⟩
    · rename_i short
      have short : text.length ≤ maxNumericLiteralLen := Nat.le_of_not_lt short
      obtain ⟨seen, exponent, shown, few, small⟩ : ∃ seen exponent,
          mantissaAndExponent numerals text = .ok (seen, exponent) ∧ seen.length ≤ maxNumericLiteralLen ∧
            exponent.natAbs < 10 ^ maxNumericLiteralLen := by
        rw [mantissaAndExponent]
        rcases search : searchExponent numerals text with _ | ⟨mantissa, negative, digits⟩
        · exact ⟨text, 0, rfl, short, Nat.pow_pos (by decide)⟩
        · obtain ⟨long, small⟩ := searchExponent_eq search
          have limits : maxNumericLiteralLen ≤ intMaxStrDigits := by decide
          dsimp only
          rw [exponentValue_ok (by omega)]
          refine ⟨mantissa, _, rfl, by omega, ?_⟩
          rw [natAbs_signed]
          exact (numeral_lt small).trans_le (Nat.pow_le_pow_right (by decide) (by omega))
      rw [shown, except_ok_bind]
      dsimp only
      split
      · have counted := List.countP_le_length (p := numerals.isDigit) (l := seen)
        have room : maxNumericLiteralLen + 10 ^ maxNumericLiteralLen ≤ 10 ^ intMaxStrDigits :=
          add_pow_le (by decide)
        have below : ((seen.countP numerals.isDigit + exponent.natAbs : ℕ) : ℤ).natAbs <
            10 ^ intMaxStrDigits := by
          rw [Int.natAbs_natCast]
          omega
        rw [Exact.strInt_of_lt below]
        exact ⟨_, rfl⟩
      · exact ⟨_, rfl⟩

end Screen

section Sizes

variable {value : ℚ}

theorem decimalQuotient_ok (precision : ℕ) {digits : ℕ} (small : |value| < 10 ^ digits)
    (few : digits < 999999) :
    decimalQuotient precision value = .ok (Decimal.significant precision value) := by
  rw [decimalQuotient, if_neg]
  rw [not_lt, maxDecimalExponent]
  have bound := Decimal.abs_significant_le precision value
  by_cases zero : value = 0
  · simp [zero, Decimal.significant, roundHalfEven]
  have logs : Int.log 10 |value| < digits := by
    apply (Int.lt_zpow_iff_log_lt (by decide) (abs_pos.mpr zero)).mp
    rw [zpow_natCast]
    exact small
  by_cases lost : Decimal.significant precision value = 0
  · rw [lost, abs_zero, Int.log_zero_right]
    decide
  · have mono := Int.log_mono_right (b := 10) (abs_pos.mpr lost) bound
    have top := @Int.log_zpow ℚ _ _ _ _ 10 (by decide) (Int.log 10 |value| + 1)
    push_cast at top
    rw [top] at mono
    omega

theorem abs_le_num (value : ℚ) : |value| ≤ value.num.natAbs := by
  have positive : (1 : ℚ) ≤ value.den := by exact_mod_cast value.den_pos
  have split : |value| = value.num.natAbs / value.den := by
    conv_lhs => rw [← Rat.num_div_den value, abs_div, Nat.abs_cast]
    rw [Nat.cast_natAbs, Int.cast_abs]
  rw [split]
  exact div_le_self (Nat.cast_nonneg _) positive

theorem abs_bounds {digits : ℕ} (above : value.num.natAbs < 10 ^ digits) (below : value.den ≤ 10 ^ digits)
    (nonzero : value ≠ 0) : |value| < 10 ^ digits ∧ |value|⁻¹ ≤ 10 ^ digits := by
  constructor
  · exact (abs_le_num value).trans_lt (by exact_mod_cast above)
  · have inverse := abs_le_num value⁻¹
    rw [abs_inv, Rat.num_inv, Int.natAbs_mul, Int.natAbs_sign_of_ne_zero (Rat.num_ne_zero.mpr nonzero),
      Nat.one_mul] at inverse
    exact inverse.trans (by exact_mod_cast below)

/-- The percentage of two accepted numbers is far from the largest decimal. -/
theorem abs_percent_lt {a b : ℚ} {digits : ℕ} (small : |b| < 10 ^ digits) (inverse : |a|⁻¹ ≤ 10 ^ digits)
    (nonzero : a ≠ 0) : |(b - a) / |a| * 100| < 10 ^ (digits + digits + 3) := by
  have positive : 0 < |a| := abs_pos.mpr nonzero
  have large : (1 : ℚ) ≤ 10 ^ (digits + digits) := one_le_pow₀ (by norm_num)
  calc |(b - a) / |a| * 100| = |b - a| * |a|⁻¹ * 100 := by
        rw [abs_mul, abs_div, abs_abs, div_eq_mul_inv, abs_of_pos (by norm_num : (0 : ℚ) < 100)]
    _ ≤ (|b| + |a|) * |a|⁻¹ * 100 := by
        gcongr
        exact abs_sub _ _
    _ = (|b| * |a|⁻¹ + 1) * 100 := by
        rw [add_mul, mul_inv_cancel₀ positive.ne']
    _ ≤ (10 ^ digits * 10 ^ digits + 10 ^ (digits + digits)) * 100 := by gcongr
    _ < 10 ^ (digits + digits + 3) := by
        rw [← pow_add, pow_succ, pow_succ, pow_succ]
        linarith

theorem strInt_error {value : ℤ} {exc : Exc} (raised : strInt value = .error exc) :
    ∃ message, exc = .valueError message := by
  rw [strInt] at raised
  split at raised
  · cases raised
  · cases raised
    exact ⟨_, rfl⟩

theorem strFraction_error {exc : Exc} (raised : strFraction value = .error exc) :
    ∃ message, exc = .valueError message := by
  rw [strFraction] at raised
  split at raised
  · exact strInt_error raised
  · rcases numerator : strInt value.num with other | above
    · rw [numerator] at raised
      cases raised
      exact strInt_error numerator
    · rcases denominator : strInt value.den with other | below
      · rw [numerator, denominator] at raised
        cases raised
        exact strInt_error denominator
      · rw [numerator, denominator] at raised
        cases raised

end Sizes

section Answers

variable {precision : ℕ} {numerals : Numerals} {a b : ℚ}

/-- What the second `try` block raises is reported. -/
theorem compute_error {exc : Exc} (quotient : ∃ d, decimalQuotient precision ((b - a) / |a| * 100) = .ok d)
    (raised : compute precision a b = .error exc) : ∃ message, exc = .valueError message := by
  obtain ⟨d, quotient⟩ := quotient
  rw [compute, quotient, except_ok_bind] at raised
  rcases percent : strFraction ((b - a) / |a| * 100) with other | percentExact
  · rw [percent] at raised
    cases raised
    exact strFraction_error percent
  rcases change : strFraction (b - a) with other | absoluteChange
  · rw [percent, change] at raised
    cases raised
    exact strFraction_error change
  rcases ratio : strFraction (b / a) with other | multiplier
  · rw [percent, change, ratio] at raised
    cases raised
    exact strFraction_error ratio
  · rw [percent, change, ratio] at raised
    cases raised

theorem compute_ok {computed : Change} (ran : compute precision a b = .ok computed) :
    computed.change = b - a ∧
      strFraction ((b - a) / |a| * 100) = .ok computed.percentExact ∧
      strFraction (b - a) = .ok computed.absoluteChange ∧
      strFraction (b / a) = .ok computed.multiplier := by
  rw [compute] at ran
  obtain ⟨d, _, ran⟩ := except_bind_ok ran
  obtain ⟨percentExact, percent, ran⟩ := except_bind_ok ran
  obtain ⟨absoluteChange, change, ran⟩ := except_bind_ok ran
  obtain ⟨multiplier, ratio, ran⟩ := except_bind_ok ran
  cases ran
  exact ⟨rfl, percent, change, ratio⟩

theorem direction_eq (change : ℚ) : (direction change = "increase" ↔ 0 < change) ∧
    (direction change = "decrease" ↔ change < 0) ∧ (direction change = "unchanged" ↔ change = 0) := by
  rw [direction]
  rcases lt_trichotomy change 0 with negative | zero | positive
  · rw [if_neg negative.not_gt, if_pos negative]
    simp [negative, negative.not_gt, negative.ne]
  · rw [zero, if_neg (lt_irrefl 0), if_neg (lt_irrefl 0)]
    simp
  · rw [if_pos positive]
    simp [positive, positive.not_gt, positive.ne']

theorem report_exactly {fromText toText : String} {computed : Change}
    (ran : compute precision a b = .ok computed) : Exactly numerals a b (report a fromText toText computed) := by
  obtain ⟨change, percent, absolute, multiplier⟩ := compute_ok ran
  have scaled : (b - a) / |a| * 100 = 100 * (b - a) / |a| := by ring
  rw [scaled] at percent
  have shown : (report a fromText toText computed).lookup "direction" =
      some (.str (direction (b - a))) := by
    rw [← change]
    rfl
  exact {
    percent := ⟨_, rfl, denotes_strFraction percent⟩
    change := ⟨_, rfl, denotes_strFraction absolute⟩
    multiplier := ⟨_, rfl, denotes_strFraction multiplier⟩
    increase := by
      rw [shown]
      simp only [Option.some.injEq, Json.str.injEq, (direction_eq _).1, sub_pos]
    decrease := by
      rw [shown]
      simp only [Option.some.injEq, Json.str.injEq, (direction_eq _).2.1, sub_neg]
    unchanged := by
      rw [shown]
      simp only [Option.some.injEq, Json.str.injEq, (direction_eq _).2.2, sub_eq_zero]
      exact eq_comm }

theorem screen_ok (texts : List (String × Text)) : ∃ answer, screen numerals texts = .ok answer ∧
    (∀ refused, answer = some refused → refused.lookup "ok" = some (.bool false)) ∧
    (answer = none → ∀ entry ∈ texts, oversizedNumericLiteral numerals entry.2 = .ok none) := by
  induction texts with
  | nil => exact ⟨none, rfl, nofun, by simp⟩
  | cons entry rest ih =>
    obtain ⟨label, s⟩ := entry
    obtain ⟨answer, shown⟩ := @oversized_ok numerals s
    rw [screen, shown, except_ok_bind]
    cases answer with
    | some problem =>
      refine ⟨_, rfl, ?_, nofun⟩
      rintro refused same
      cases same
      rfl
    | none =>
      obtain ⟨answer, later, refused, accepted⟩ := ih
      refine ⟨answer, later, refused, ?_⟩
      intro none entry member
      rcases List.mem_cons.mp member with rfl | after
      · exact shown
      · exact accepted none entry after

theorem fractions_ok {first second : Text} (read : fractions numerals first second = .ok (a, b)) :
    fraction numerals first = .ok a ∧ fraction numerals second = .ok b := by
  rw [fractions] at read
  obtain ⟨left, leftRead, read⟩ := except_bind_ok read
  obtain ⟨right, rightRead, read⟩ := except_bind_ok read
  cases read
  exact ⟨leftRead, rightRead⟩

theorem refusal_not_ok (message : String) : (refusal message).lookup "ok" ≠ some (.bool true) := by
  simp [refusal]

theorem errorResult_not_ok (code : Code) (message remedy : String) :
    (errorResult code message [("remedy", .str remedy)]).lookup "ok" ≠ some (.bool true) := by
  simp [errorResult, mergeFields, lookup_setEntry]

/-- Two texts that the screen lets by, and the numbers they are read as. -/
structure Compares (numerals : Numerals) (fromValue toValue : Text) (a b : ℚ) : Prop where
  fromShort : oversizedNumericLiteral numerals fromValue = .ok none
  toShort : oversizedNumericLiteral numerals toValue = .ok none
  left : fraction numerals fromValue = .ok a
  right : fraction numerals toValue = .ok b
  nonzero : a ≠ 0

variable {fromValue toValue : Text}

theorem Compares.quotient (compares : Compares numerals fromValue toValue a b) (precision : ℕ) :
    ∃ d, decimalQuotient precision ((b - a) / |a| * 100) = .ok d := by
  obtain ⟨leftAbove, leftBelow⟩ := oversized_none compares.fromShort compares.left
  obtain ⟨rightAbove, _⟩ := oversized_none compares.toShort compares.right
  have inverse := (abs_bounds leftAbove leftBelow compares.nonzero).2
  have small : |b| < 10 ^ maxNumericDigits := (abs_le_num b).trans_lt (by exact_mod_cast rightAbove)
  exact ⟨_, decimalQuotient_ok precision (abs_percent_lt small inverse compares.nonzero) (by decide)⟩

theorem percentChange_refused (precision : ℕ) (numerals : Numerals) (fromValue toValue : Text) :
    (∃ a b, Compares numerals fromValue toValue a b) ∨
      ∃ fields, percentChange precision numerals fromValue toValue = .ok fields ∧
        fields.lookup "ok" ≠ some (.bool true) := by
  obtain ⟨answer, screened, refused, accepted⟩ :=
    @screen_ok numerals [("from_value", fromValue), ("to_value", toValue)]
  rw [percentChange, screened, except_ok_bind]
  cases answer with
  | some fields =>
    refine .inr ⟨fields, rfl, ?_⟩
    rw [refused fields rfl]
    nofun
  | none =>
    dsimp only
    rcases read : fractions numerals fromValue toValue with fault | ⟨a, b⟩
    · exact .inr ⟨_, rfl, refusal_not_ok _⟩
    · dsimp only
      obtain ⟨left, right⟩ := fractions_ok read
      by_cases zero : a = 0
      · rw [if_pos zero]
        exact .inr ⟨_, rfl, errorResult_not_ok _ _ _⟩
      · have accepted := accepted rfl
        exact .inl ⟨a, b, accepted ("from_value", fromValue) (by simp),
          accepted ("to_value", toValue) (by simp), left, right, zero⟩

theorem percentChange_of_compares (compares : Compares numerals fromValue toValue a b) :
    (∃ computed fromText toText, compute precision a b = .ok computed ∧
      percentChange precision numerals fromValue toValue = .ok (report a fromText toText computed)) ∨
    (∀ computed, compute precision a b ≠ .ok computed) ∧
      ∃ fields, percentChange precision numerals fromValue toValue = .ok fields ∧
        fields.lookup "ok" ≠ some (.bool true) := by
  have read : fractions numerals fromValue toValue = .ok (a, b) := by
    rw [fractions, compares.left, except_ok_bind, compares.right, except_ok_bind]
  rw [percentChange, screen, compares.fromShort, except_ok_bind]
  dsimp only
  rw [screen, compares.toShort, except_ok_bind]
  dsimp only
  rw [screen, except_ok_bind]
  dsimp only
  rw [read]
  dsimp only
  rw [if_neg compares.nonzero]
  obtain ⟨leftAbove, leftBelow⟩ := oversized_none compares.fromShort compares.left
  obtain ⟨rightAbove, rightBelow⟩ := oversized_none compares.toShort compares.right
  rcases ran : compute precision a b with exc | computed
  · obtain ⟨message, rfl⟩ := compute_error (compares.quotient precision) ran
    exact .inr ⟨nofun, _, rfl, errorResult_not_ok _ _ _⟩
  · have wide : 10 ^ maxNumericDigits < 10 ^ intMaxStrDigits :=
      Nat.pow_lt_pow_right (by decide) (by decide)
    obtain ⟨fromText, fromShown⟩ := @Exact.strFraction_of_printable a
      ⟨leftAbove.trans wide, leftBelow.trans_lt wide⟩
    obtain ⟨toText, toShown⟩ := @Exact.strFraction_of_printable b
      ⟨rightAbove.trans wide, rightBelow.trans_lt wide⟩
    dsimp only
    rw [fromShown, toShown]
    exact .inl ⟨computed, fromText, toText, rfl, rfl⟩

/-- An accepted number has at most one digit more than the limit, and so every
pair of texts has an answer, an exact one when it is ok. -/
theorem percentChange_exact (precision : ℕ) (numerals : Numerals) :
    (∀ (s : Text) (value : ℚ), oversizedNumericLiteral numerals s = .ok none →
      fraction numerals s = .ok value →
        (Nat.toDigits 10 value.num.natAbs).length ≤ maxNumericDigits + 1 ∧
          (Nat.toDigits 10 value.den).length ≤ maxNumericDigits + 1) ∧
    ∀ fromValue toValue : Text, ∃ fields, percentChange precision numerals fromValue toValue = .ok fields ∧
      (fields.lookup "ok" = some (.bool true) → ∃ a b, fraction numerals fromValue = .ok a ∧
        fraction numerals toValue = .ok b ∧ a ≠ 0 ∧ Exactly numerals a b fields) := by
  constructor
  · intro s value accepted read
    obtain ⟨above, below⟩ := oversized_none accepted read
    have more : 10 ^ maxNumericDigits < 10 ^ (maxNumericDigits + 1) :=
      Nat.pow_lt_pow_right (by decide) (Nat.lt_succ_self _)
    constructor
    · exact (Nat.length_toDigits_le_iff (by decide) (by decide)).mpr (above.trans more)
    · exact (Nat.length_toDigits_le_iff (by decide) (by decide)).mpr (below.trans_lt more)
  · intro fromValue toValue
    rcases percentChange_refused precision numerals fromValue toValue with ⟨a, b, compares⟩ |
      ⟨fields, ran, refused⟩
    · rcases @percentChange_of_compares precision _ _ _ _ _ compares with
        ⟨computed, fromText, toText, computes, ran⟩ | ⟨_, fields, ran, refused⟩
      · exact ⟨_, ran, fun _ => ⟨a, b, compares.left, compares.right, compares.nonzero,
          report_exactly computes⟩⟩
      · exact ⟨fields, ran, fun ok => absurd ok refused⟩
    · exact ⟨fields, ran, fun ok => absurd ok refused⟩

/-- The answer is ok exactly when the texts are compared and the three results are
short enough to be written. -/
theorem percentChange_ok_iff (precision : ℕ) (numerals : Numerals) (fromValue toValue : Text) :
    (∃ fields, percentChange precision numerals fromValue toValue = .ok fields ∧
      fields.lookup "ok" = some (.bool true)) ↔
    ∃ a b, Compares numerals fromValue toValue a b ∧ Exact.Printable ((b - a) / |a| * 100) ∧
      Exact.Printable (b - a) ∧ Exact.Printable (b / a) := by
  constructor
  · rintro ⟨fields, ran, ok⟩
    rcases percentChange_refused precision numerals fromValue toValue with ⟨a, b, compares⟩ |
      ⟨other, ran', refused⟩
    · rcases @percentChange_of_compares precision _ _ _ _ _ compares with
        ⟨computed, _, _, computes, _⟩ | ⟨_, other, ran', refused⟩
      · obtain ⟨_, percent, change, ratio⟩ := compute_ok computes
        exact ⟨a, b, compares, Exact.printable_of_strFraction percent,
          Exact.printable_of_strFraction change, Exact.printable_of_strFraction ratio⟩
      · cases ran.symm.trans ran'
        exact absurd ok refused
    · cases ran.symm.trans ran'
      exact absurd ok refused
  · rintro ⟨a, b, compares, percent, change, ratio⟩
    obtain ⟨d, quotient⟩ := compares.quotient precision
    obtain ⟨percentExact, percentShown⟩ := Exact.strFraction_of_printable percent
    obtain ⟨absoluteChange, changeShown⟩ := Exact.strFraction_of_printable change
    obtain ⟨multiplier, ratioShown⟩ := Exact.strFraction_of_printable ratio
    have computes : compute precision a b = .ok
        ⟨b - a, (b - a) / |a| * 100, d, percentExact, absoluteChange, multiplier⟩ := by
      rw [compute, quotient, except_ok_bind, percentShown, except_ok_bind, changeShown, except_ok_bind,
        ratioShown, except_ok_bind]
    rcases @percentChange_of_compares precision _ _ _ _ _ compares with ⟨computed, _, _, _, ran⟩ | ⟨fails, _⟩
    · exact ⟨_, ran, rfl⟩
    · exact absurd computes (fails _)

/-- From 80 to 100. -/
example : (match percentChange 50 asciiNumerals (.ofString "80") (.ofString "100") with
    | .ok fields => (match fields.lookup "percent_exact" with
      | some (.str text) => some text
      | _ => none)
    | .error _ => none) = some "25" := by
  decide +kernel

end Answers

end CodeCalc.Percent
