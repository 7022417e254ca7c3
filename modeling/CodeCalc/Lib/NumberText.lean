import CodeCalc.Lib.Effect
import CodeCalc.Lib.FixedWidth
import CodeCalc.Lib.Text

/-! Numbers as a user writes them: a sign, digits of any script with underscores
between them, and behind them a denominator or a point and an exponent.  A run
of digits longer than a limit is not converted. -/
namespace CodeCalc.Lib.NumberText
open Radix FixedWidth

/-- The characters numbers are written with, as a version of Unicode has them. -/
structure Numerals where
  /-- The value of a decimal digit, in any script. -/
  decimal : CodePoint → Option ℕ
  isDigit : CodePoint → Bool
  spacedSlash : Bool
  decimal_lt : ∀ {code value}, decimal code = some value → value < 10
  isDigit_of_decimal : ∀ {code value}, decimal code = some value → isDigit code = true
  ascii : ∀ code : CodePoint, code.val < 128 →
    decimal code = if 48 ≤ code.val ∧ code.val ≤ 57 then some (code.val - 48) else none
  apart : ∀ {code}, isSpace code = true → decimal code = none

def asciiNumerals : Numerals where
  decimal code := if 48 ≤ code.val ∧ code.val ≤ 57 then some (code.val - 48) else none
  isDigit code := decide (48 ≤ code.val ∧ code.val ≤ 57)
  spacedSlash := false
  decimal_lt := by
    intro code value read
    split at read
    · cases read
      omega
    · cases read
  isDigit_of_decimal := by
    intro code value read
    split at read
    · rename_i digit
      exact decide_eq_true digit
    · cases read
  ascii _ _ := rfl
  apart := by
    intro code space
    rw [isSpace, decide_eq_true_eq] at space
    rw [if_neg]
    omega

section Grammar

variable (numerals : Numerals)

abbrev minus : CodePoint := CodePoint.ofChar '-'

abbrev plus : CodePoint := CodePoint.ofChar '+'

abbrev point : CodePoint := CodePoint.ofChar '.'

abbrev solidus : CodePoint := CodePoint.ofChar '/'

abbrev underscore : CodePoint := CodePoint.ofChar '_'

def isExponentMark (code : CodePoint) : Bool :=
  decide (code = CodePoint.ofChar 'e' ∨ code = CodePoint.ofChar 'E')

def startsDigit (text : Text) : Bool := (text.head?.bind numerals.decimal).isSome

/-- `[-+]?`. -/
def signOf : Text → Bool × Text
  | [] => (false, [])
  | code :: rest =>
      if code = minus then (true, rest)
      else if code = plus then (false, rest)
      else (false, code :: rest)

/-- `\d*(_\d+)*` and what follows. -/
def moreDigits : Text → List ℕ × Text
  | [] => ([], [])
  | code :: rest =>
      match numerals.decimal code with
      | some digit => (digit :: (moreDigits rest).1, (moreDigits rest).2)
      | none =>
          if code = underscore ∧ startsDigit numerals rest = true then moreDigits rest
          else ([], code :: rest)

/-- `(\d+(_\d+)*)?` and what follows. -/
def digitRun (text : Text) : List ℕ × Text :=
  if startsDigit numerals text = true then moreDigits numerals text else ([], text)

def slash (text : Text) : Option Text :=
  let skip := fun text : Text => if numerals.spacedSlash then text.dropWhile isSpace else text
  match skip text with
  | [] => none
  | code :: rest => if code = solidus then some (skip rest) else none

def decimalGroup : Text → List ℕ × Text
  | [] => ([], [])
  | code :: rest => if code = point then digitRun numerals rest else ([], code :: rest)

def exponentGroup : Text → Option (Bool × List ℕ) × Text
  | [] => (none, [])
  | code :: rest =>
      let digits := digitRun numerals (signOf rest).2
      if isExponentMark code = true ∧ digits.1 ≠ [] then
        (some ((signOf rest).1, digits.1), digits.2)
      else (none, code :: rest)

/-- The groups of a number that was matched. -/
structure Groups where
  negative : Bool
  num : List ℕ
  denom : Option (List ℕ)
  decimal : List ℕ
  exponent : Option (Bool × List ℕ)
  deriving DecidableEq

/-- The grammar of `Fraction(text)`, matched against the whole text. -/
def groups (text : Text) : Option Groups :=
  let (negative, body) := signOf (text.dropWhile isSpace)
  if startsDigit numerals body = true ∨
      (body.head? = some point ∧ startsDigit numerals body.tail = true) then
    let (num, rest) := digitRun numerals body
    match slash numerals rest with
    | some below =>
        let (denom, rest) := digitRun numerals below
        if denom ≠ [] ∧ rest.all isSpace = true then some ⟨negative, num, some denom, [], none⟩
        else none
    | none =>
        let (decimal, rest) := decimalGroup numerals rest
        let (exponent, rest) := exponentGroup numerals rest
        if rest.all isSpace = true then some ⟨negative, num, none, decimal, exponent⟩ else none
  else none

end Grammar

section Values

inductive Fault where
  | invalid
  /-- More digits than are converted. -/
  | tooManyDigits (count : ℕ)
  | zeroDenominator (numerator : ℤ)
  deriving DecidableEq

variable (limit : ℕ) (numerals : Numerals)

/-- `int(digits)`; leading zeros count. -/
def intOf (digits : List ℕ) : Except Fault ℕ :=
  if digits.length ≤ limit then .ok (numeral 10 digits) else .error (.tooManyDigits digits.length)

def signed (negative : Bool) (value : ℤ) : ℤ := if negative then -value else value

def Groups.parts (groups : Groups) : Except Fault (ℕ × ℕ) := do
  let numerator ← intOf limit groups.num
  match groups.denom with
  | some denom => do
      let denominator ← intOf limit denom
      .ok (numerator, denominator)
  | none => do
      let decimal ← intOf limit groups.decimal
      let scale := 10 ^ groups.decimal.length
      let numerator := numerator * scale + decimal
      match groups.exponent with
      | none => .ok (numerator, scale)
      | some (negative, digits) => do
          let exponent ← intOf limit digits
          if negative then .ok (numerator, scale * 10 ^ exponent)
          else .ok (numerator * 10 ^ exponent, scale)

/-- `Fraction(text)`. -/
def fractionOf (text : Text) : Except Fault ℚ :=
  match groups numerals text with
  | none => .error .invalid
  | some groups => do
      let (numerator, denominator) ← groups.parts limit
      let numerator := signed groups.negative numerator
      if denominator = 0 then .error (.zeroDenominator numerator)
      else .ok (numerator / denominator)

/-- A space for `int(text)`: not one of the four separators of ASCII. -/
def isIntSpace (code : CodePoint) : Bool := isSpace code && !decide (28 ≤ code.val ∧ code.val ≤ 31)

/-- `int(text)`. -/
def integerOf (text : Text) : Except Fault ℤ :=
  let (negative, body) := signOf (text.dropWhile isIntSpace)
  let (digits, rest) := digitRun numerals body
  if digits ≠ [] ∧ rest.all isIntSpace = true then
    (intOf limit digits).map fun value => signed negative value
  else .error .invalid

end Values

section Shapes

variable {numerals : Numerals} {text rest : Text} {digits : List ℕ}

/-- What digits were read from: each of them from a character of its own. -/
structure Written (numerals : Numerals) (front : Text) (digits : List ℕ) : Prop where
  small : ∀ digit ∈ digits, digit < 10
  covered : digits.length ≤ front.countP numerals.isDigit
  ordinary : ∀ code ∈ front, code = underscore ∨ (numerals.decimal code).isSome = true

theorem written_nil : Written numerals [] [] :=
  ⟨by simp, by simp, by simp⟩

theorem moreDigits_eq (read : moreDigits numerals text = (digits, rest)) :
    ∃ front, text = front ++ rest ∧ Written numerals front digits := by
  induction text generalizing digits with
  | nil =>
    cases read
    exact ⟨[], rfl, written_nil⟩
  | cons code after ih =>
    rw [moreDigits] at read
    split at read
    · rename_i digit value
      obtain ⟨rfl, rfl⟩ := Prod.mk.inj read
      obtain ⟨front, same, written⟩ := ih rfl
      refine ⟨code :: front, congrArg (code :: ·) same, ?_, ?_, ?_⟩
      · intro other member
        rcases List.mem_cons.mp member with rfl | later
        · exact numerals.decimal_lt value
        · exact written.small other later
      · rw [List.countP_cons_of_pos (numerals.isDigit_of_decimal value), List.length_cons]
        exact Nat.succ_le_succ written.covered
      · intro other member
        rcases List.mem_cons.mp member with rfl | later
        · exact .inr (by rw [value]; rfl)
        · exact written.ordinary other later
    · split at read
      · rename_i continued
        obtain ⟨front, same, written⟩ := ih read
        refine ⟨code :: front, congrArg (code :: ·) same, written.small, ?_, ?_⟩
        · exact written.covered.trans (List.Sublist.countP_le (List.sublist_cons_self _ _))
        · intro other member
          rcases List.mem_cons.mp member with rfl | later
          · exact .inl continued.1
          · exact written.ordinary other later
      · obtain ⟨rfl, rfl⟩ := Prod.mk.inj read
        exact ⟨[], rfl, written_nil⟩

theorem digitRun_eq (read : digitRun numerals text = (digits, rest)) :
    ∃ front, text = front ++ rest ∧ Written numerals front digits := by
  rw [digitRun] at read
  split at read
  · exact moreDigits_eq read
  · obtain ⟨rfl, rfl⟩ := Prod.mk.inj read
    exact ⟨[], rfl, written_nil⟩

theorem not_mark_of_isSpace {code : CodePoint} (space : isSpace code = true) :
    isExponentMark code = false := by
  rw [isExponentMark, decide_eq_false_iff_not]
  rintro (rfl | rfl)
  · exact absurd space (by decide)
  · exact absurd space (by decide)

theorem decimal_of_mark {code : CodePoint} (mark : isExponentMark code = true) :
    numerals.decimal code = none := by
  rcases of_decide_eq_true mark with rfl | rfl
  · exact numerals.ascii _ (by decide)
  · exact numerals.ascii _ (by decide)

theorem Written.not_mark {front : Text} (written : Written numerals front digits) {code : CodePoint}
    (member : code ∈ front) : isExponentMark code = false := by
  by_contra mark
  rw [Bool.not_eq_false] at mark
  rcases written.ordinary code member with rfl | digit
  · exact absurd mark (by decide)
  · rw [decimal_of_mark mark] at digit
    cases digit

theorem signOf_eq (text : Text) : ∃ front, text = front ++ (signOf text).2 ∧
    ∀ code ∈ front, isExponentMark code = false := by
  cases text with
  | nil => exact ⟨[], rfl, by simp⟩
  | cons code rest =>
    rw [signOf]
    split
    · rename_i negative
      refine ⟨[code], rfl, ?_⟩
      intro other member
      rw [List.mem_singleton.mp member, negative]
      decide
    · split
      · rename_i positive
        refine ⟨[code], rfl, ?_⟩
        intro other member
        rw [List.mem_singleton.mp member, positive]
        decide
      · exact ⟨[], rfl, by simp⟩

theorem dropWhile_isSpace_eq (text : Text) : ∃ front, text = front ++ text.dropWhile isSpace ∧
    ∀ code ∈ front, isExponentMark code = false := by
  refine ⟨text.takeWhile isSpace, List.takeWhile_append_dropWhile.symm, ?_⟩
  intro code member
  exact not_mark_of_isSpace (List.mem_takeWhile_imp member)

theorem slash_eq {below : Text} (read : slash numerals text = some below) :
    ∃ front, text = front ++ below ∧ ∀ code ∈ front, isExponentMark code = false := by
  have skip (text : Text) : ∃ front,
      text = front ++ (if numerals.spacedSlash then text.dropWhile isSpace else text) ∧
        ∀ code ∈ front, isExponentMark code = false := by
    split
    · exact dropWhile_isSpace_eq text
    · exact ⟨[], rfl, by simp⟩
  rw [slash] at read
  dsimp only at read
  obtain ⟨before, same, plain⟩ := skip text
  split at read
  · cases read
  · rename_i code rest shown
    split at read
    · rename_i mark
      obtain ⟨behind, same', plain'⟩ := skip rest
      refine ⟨before ++ code :: behind, ?_, ?_⟩
      · rw [same, shown, List.append_assoc, List.cons_append]
        congr 2
        rw [← Option.some.inj read]
        exact same'
      · intro other member
        rcases List.mem_append.mp member with early | late
        · exact plain other early
        · rcases List.mem_cons.mp late with rfl | late
          · rw [mark]
            decide
          · exact plain' other late
    · cases read

theorem decimalGroup_eq (read : decimalGroup numerals text = (digits, rest)) :
    ∃ front, text = front ++ rest ∧ (∀ digit ∈ digits, digit < 10) ∧
      digits.length ≤ front.countP numerals.isDigit ∧
      ∀ code ∈ front, isExponentMark code = false := by
  cases text with
  | nil =>
    cases read
    exact ⟨[], rfl, by simp⟩
  | cons code after =>
    rw [decimalGroup] at read
    split at read
    · rename_i mark
      obtain ⟨front, same, written⟩ := digitRun_eq read
      refine ⟨code :: front, congrArg (code :: ·) same, written.small, ?_, ?_⟩
      · exact written.covered.trans (List.Sublist.countP_le (List.sublist_cons_self _ _))
      · intro other member
        rcases List.mem_cons.mp member with rfl | later
        · rw [mark]
          decide
        · exact written.not_mark later
    · obtain ⟨rfl, rfl⟩ := Prod.mk.inj read
      exact ⟨[], rfl, by simp⟩

def EndsWith (numerals : Numerals) (behind : Text) : Option (Bool × List ℕ) → Prop
  | none => behind.all isSpace = true
  | some (negative, digits) => ∃ mark rest blank, behind = mark :: rest ∧
      isExponentMark mark = true ∧ (signOf rest).1 = negative ∧
        digitRun numerals (signOf rest).2 = (digits, blank) ∧ digits ≠ [] ∧ blank.all isSpace = true

/-- What a number looks like: a mantissa that has a character for each digit, and
then an exponent or spaces. -/
structure Matched (numerals : Numerals) (groups : Groups) (mantissa behind : Text) : Prop where
  plain : ∀ code ∈ mantissa, isExponentMark code = false
  num : ∀ digit ∈ groups.num, digit < 10
  denom : ∀ digit ∈ groups.denom.getD [], digit < 10
  decimal : ∀ digit ∈ groups.decimal, digit < 10
  covered : groups.num.length + (groups.denom.getD []).length + groups.decimal.length ≤
    mantissa.countP numerals.isDigit
  single : groups.denom.isSome = true → groups.decimal = [] ∧ groups.exponent = none
  exponent : EndsWith numerals behind groups.exponent

theorem exponentGroup_eq {exponent : Option (Bool × List ℕ)} {blank : Text}
    (read : exponentGroup numerals text = (exponent, blank)) (blanks : blank.all isSpace = true) :
    EndsWith numerals text exponent := by
  cases text with
  | nil =>
    cases read
    exact blanks
  | cons code rest =>
    rw [exponentGroup] at read
    split at read
    · rename_i mark
      obtain ⟨rfl, rfl⟩ := Prod.mk.inj read
      exact ⟨code, rest, _, rfl, mark.1, rfl, rfl, mark.2, blanks⟩
    · obtain ⟨rfl, rfl⟩ := Prod.mk.inj read
      exact blanks

theorem groups_matched {found : Groups} (read : groups numerals text = some found) :
    ∃ mantissa behind, text = mantissa ++ behind ∧ Matched numerals found mantissa behind := by
  obtain ⟨blank, blankSame, blankPlain⟩ := dropWhile_isSpace_eq text
  obtain ⟨sign, signSame, signPlain⟩ := signOf_eq (text.dropWhile isSpace)
  rw [groups] at read
  rcases signRead : signOf (text.dropWhile isSpace) with ⟨negative, body⟩
  rw [signRead] at read signSame
  dsimp only at read signSame
  split at read
  · rcases numRead : digitRun numerals body with ⟨num, rest⟩
    rw [numRead] at read
    dsimp only at read
    obtain ⟨numFront, numSame, numWritten⟩ := digitRun_eq numRead
    have lead : text = blank ++ sign ++ numFront ++ rest := by
      rw [blankSame, signSame, numSame]
      simp
    have leadPlain : ∀ code ∈ blank ++ sign ++ numFront, isExponentMark code = false := by
      simp only [List.mem_append]
      rintro code ((member | member) | member)
      · exact blankPlain code member
      · exact signPlain code member
      · exact numWritten.not_mark member
    have leadCovered : num.length ≤ (blank ++ sign ++ numFront).countP numerals.isDigit := by
      rw [List.countP_append]
      exact numWritten.covered.trans (Nat.le_add_left _ _)
    split at read
    · rename_i below found
      obtain ⟨slashFront, slashSame, slashPlain⟩ := slash_eq found
      rcases denomRead : digitRun numerals below with ⟨denom, last⟩
      rw [denomRead] at read
      dsimp only at read
      split at read
      · rename_i complete
        cases read
        obtain ⟨denomFront, denomSame, denomWritten⟩ := digitRun_eq denomRead
        refine ⟨blank ++ sign ++ numFront ++ slashFront ++ denomFront, last, ?_, ?_⟩
        · rw [lead, slashSame, denomSame]
          simp
        · exact {
            plain := by
              simp only [List.mem_append] at leadPlain ⊢
              rintro code ((member | member) | member)
              · exact leadPlain code member
              · exact slashPlain code member
              · exact denomWritten.not_mark member
            num := numWritten.small
            denom := denomWritten.small
            decimal := by simp
            covered := by
              have := denomWritten.covered
              rw [List.countP_append, List.countP_append]
              simp only [Option.getD_some, List.length_nil]
              omega
            single := fun _ => ⟨rfl, rfl⟩
            exponent := complete.2 }
      · cases read
    · rcases decimalRead : decimalGroup numerals rest with ⟨decimal, behind⟩
      rw [decimalRead] at read
      dsimp only at read
      rcases exponentRead : exponentGroup numerals behind with ⟨exponent, last⟩
      rw [exponentRead] at read
      dsimp only at read
      split at read
      · rename_i complete
        cases read
        obtain ⟨front, same, small, covered, plain⟩ := decimalGroup_eq decimalRead
        refine ⟨blank ++ sign ++ numFront ++ front, behind, ?_, ?_⟩
        · rw [lead, same]
          simp
        · exact {
            plain := by
              simp only [List.mem_append] at leadPlain ⊢
              rintro code (member | member)
              · exact leadPlain code member
              · exact plain code member
            num := numWritten.small
            denom := by simp
            decimal := small
            covered := by
              rw [List.countP_append]
              simp only [Option.getD_none, List.length_nil]
              omega
            single := nofun
            exponent := exponentGroup_eq exponentRead complete }
      · cases read
  · cases read

end Shapes

section Sizes

variable {limit : ℕ} {found : Groups} {numerator denominator : ℕ}

/-- The exponent of the groups; a positive one counts for the numerator. -/
def Groups.exponents (groups : Groups) : ℕ × ℕ :=
  match groups.exponent with
  | none => (0, 0)
  | some (negative, digits) =>
      if negative then (0, numeral 10 digits) else (numeral 10 digits, 0)

theorem intOf_ok {digits : List ℕ} {value : ℕ} (read : intOf limit digits = .ok value) :
    value = numeral 10 digits := by
  rw [intOf] at read
  split at read
  · exact (Except.ok.inj read).symm
  · cases read

/-- The two parts have no more digits than were written and the exponent adds. -/
theorem parts_lt (num : ∀ digit ∈ found.num, digit < 10)
    (denom : ∀ digit ∈ found.denom.getD [], digit < 10) (decimal : ∀ digit ∈ found.decimal, digit < 10)
    (read : found.parts limit = .ok (numerator, denominator)) :
    numerator < 10 ^ (found.num.length + found.decimal.length + found.exponents.1) ∧
      denominator ≤ 10 ^ ((found.denom.getD []).length + found.decimal.length + found.exponents.2) := by
  rw [Groups.parts] at read
  obtain ⟨whole, wholeRead, read⟩ := except_bind_ok read
  obtain rfl := intOf_ok wholeRead
  split at read
  · rename_i denom' ratio
    obtain ⟨below, belowRead, read⟩ := except_bind_ok read
    obtain rfl := intOf_ok belowRead
    obtain ⟨rfl, rfl⟩ := Prod.mk.inj (Except.ok.inj read)
    rw [ratio] at denom ⊢
    constructor
    · exact (numeral_lt num).trans_le (Nat.pow_le_pow_right (by decide) (by omega))
    · exact (numeral_lt denom).le.trans (Nat.pow_le_pow_right (by decide) (by simp; omega))
  · rename_i absent
    obtain ⟨behind, behindRead, read⟩ := except_bind_ok read
    obtain rfl := intOf_ok behindRead
    have mantissa : numeral 10 found.num * 10 ^ found.decimal.length + numeral 10 found.decimal <
        10 ^ (found.num.length + found.decimal.length) := by
      have joined := @numeral_lt 10 (found.num ++ found.decimal) (by
        intro digit member
        rcases List.mem_append.mp member with left | right
        · exact num digit left
        · exact decimal digit right)
      rwa [numeral, List.foldl_append, ← numeral, foldl_numeral, List.length_append] at joined
    rw [absent, Option.getD_none, List.length_nil, Nat.zero_add]
    split at read
    · rename_i whole
      obtain ⟨rfl, rfl⟩ := Prod.mk.inj (Except.ok.inj read)
      rw [Groups.exponents, whole]
      exact ⟨mantissa, le_rfl⟩
    · rename_i negative digits shown
      obtain ⟨exponent, exponentRead, read⟩ := except_bind_ok read
      obtain rfl := intOf_ok exponentRead
      rw [Groups.exponents, shown]
      dsimp only
      split at read
      · rename_i below
        obtain ⟨rfl, rfl⟩ := Prod.mk.inj (Except.ok.inj read)
        rw [if_pos below, Nat.pow_add 10 found.decimal.length]
        exact ⟨mantissa, le_rfl⟩
      · rename_i above
        obtain ⟨rfl, rfl⟩ := Prod.mk.inj (Except.ok.inj read)
        rw [if_neg above, Nat.pow_add 10 (found.num.length + found.decimal.length)]
        exact ⟨Nat.mul_lt_mul_of_pos_right mantissa (Nat.pow_pos (by decide)), le_rfl⟩

@[simp] theorem natAbs_signed (negative : Bool) (value : ℕ) : (signed negative value).natAbs = value := by
  cases negative <;> simp [signed]

theorem fraction_le (value : ℤ) (positive : denominator ≠ 0) :
    ((value : ℚ) / denominator).num.natAbs ≤ value.natAbs ∧
      ((value : ℚ) / denominator).den ≤ denominator := by
  have nonzero : (denominator : ℤ) ≠ 0 := by exact_mod_cast positive
  have above := Rat.num_dvd value nonzero
  have below := Rat.den_dvd value denominator
  rw [Rat.divInt_eq_div, Int.cast_natCast] at above below
  constructor
  · by_cases zero : value = 0
    · simp [zero]
    · exact Nat.le_of_dvd (Int.natAbs_pos.mpr zero) (Int.natAbs_dvd_natAbs.mpr above)
  · exact Nat.le_of_dvd (Nat.pos_of_ne_zero positive) (Int.natCast_dvd_natCast.mp below)

theorem fractionOf_lt {numerals : Numerals} {text : Text} {value : ℚ}
    (read : fractionOf limit numerals text = .ok value) :
    ∃ found mantissa behind, text = mantissa ++ behind ∧ Matched numerals found mantissa behind ∧
      value.num.natAbs < 10 ^ (found.num.length + found.decimal.length + found.exponents.1) ∧
      value.den ≤ 10 ^ ((found.denom.getD []).length + found.decimal.length + found.exponents.2) := by
  rw [fractionOf] at read
  split at read
  · cases read
  · rename_i found matched
    obtain ⟨mantissa, behind, same, shape⟩ := groups_matched matched
    obtain ⟨⟨numerator, denominator⟩, parts, read⟩ := except_bind_ok read
    obtain ⟨above, below⟩ := parts_lt shape.num shape.denom shape.decimal parts
    dsimp only at read
    split at read
    · cases read
    · rename_i nonzero
      cases read
      obtain ⟨num, den⟩ := fraction_le (signed found.negative numerator) nonzero
      rw [natAbs_signed] at num
      exact ⟨found, mantissa, behind, same, shape, num.trans_lt above, den.trans below⟩

end Sizes

section Printed

variable {limit : ℕ} {numerals : Numerals} {rest : Text}

theorem decimal_digitChar {digit : ℕ} (small : digit < 10) :
    numerals.decimal (CodePoint.ofChar (Nat.digitChar digit)) = some digit := by
  have value : ∀ digit < 10, (CodePoint.ofChar (Nat.digitChar digit)).val = 48 + digit := by decide
  rw [numerals.ascii _ (by rw [value digit small]; omega), value digit small, if_pos (by omega)]
  congr 1
  omega

def StopsRun (numerals : Numerals) (rest : Text) : Prop :=
  ∀ code ∈ rest.head?, numerals.decimal code = none ∧ code ≠ underscore

theorem moreDigits_row {digits : List ℕ} (small : ∀ digit ∈ digits, digit < 10)
    (stops : StopsRun numerals rest) :
    moreDigits numerals ((digits.map Nat.digitChar).map CodePoint.ofChar ++ rest) = (digits, rest) := by
  induction digits with
  | nil =>
    cases rest with
    | nil => rfl
    | cons code rest =>
      obtain ⟨plain, apart⟩ := stops code rfl
      simp [moreDigits, plain, apart]
  | cons digit digits ih =>
    have first : digit < 10 := small digit (by simp)
    have later := ih fun other member => small other (List.mem_cons_of_mem _ member)
    rw [List.map_cons, List.map_cons, List.cons_append, moreDigits, decimal_digitChar first, later]

theorem digitRun_decimal (value : ℕ) (stops : StopsRun numerals rest) : ∃ digits : List ℕ,
    digitRun numerals (decimal value ++ rest) = (digits, rest) ∧ digits ≠ [] ∧
      numeral 10 digits = value ∧ digits.length = (Nat.toDigits 10 value).length ∧
      startsDigit numerals (decimal value ++ rest) = true := by
  obtain ⟨digits, small, worth, row⟩ := @toDigits_numeral 10 (by decide) value
  have some : digits ≠ [] := by
    rintro rfl
    exact Nat.toDigits_ne_nil row
  have starts : startsDigit numerals (decimal value ++ rest) = true := by
    obtain ⟨first, others, rfl⟩ := List.exists_cons_of_ne_nil some
    rw [decimal, row]
    simp [startsDigit, decimal_digitChar (small first (by simp))]
  refine ⟨digits, ?_, some, worth, by rw [row, List.length_map], starts⟩
  rw [digitRun, if_pos starts, decimal, row]
  exact moreDigits_row small stops

def signText (negative : Bool) : Text := if negative then [minus] else []

theorem integer_eq (value : ℤ) :
    integer value = signText (decide (value < 0)) ++ decimal value.natAbs := by
  cases value with
  | ofNat value => simp [integer, signText]
  | negSucc value => simp [integer, signText, Int.negSucc_lt_zero]

theorem not_isSpace_of_isDigit {code : CodePoint} (digit : isDigit code = true) :
    isSpace code = false := by
  have range : 48 ≤ code.val ∧ code.val ≤ 57 := of_decide_eq_true digit
  rw [isSpace, decide_eq_false_iff_not]
  omega

theorem signed_natAbs (value : ℤ) : signed (decide (value < 0)) value.natAbs = value := by
  rw [signed]
  split
  · rename_i negative
    have := of_decide_eq_true negative
    omega
  · rename_i positive
    have := of_decide_eq_false (eq_false_of_ne_true positive)
    omega

theorem signOf_printed (negative : Bool) (value : ℕ) :
    signOf ((signText negative ++ (decimal value ++ rest)).dropWhile isSpace) =
      (negative, decimal value ++ rest) := by
  obtain ⟨code, others, same⟩ := List.exists_cons_of_ne_nil (decimal_ne_nil value)
  have digit : isDigit code = true := isDigit_of_mem_decimal (by rw [same]; simp)
  have range : 48 ≤ code.val ∧ code.val ≤ 57 := of_decide_eq_true digit
  have visible : isSpace code = false := not_isSpace_of_isDigit digit
  have apart (char : Char) (outside : (CodePoint.ofChar char).val < 48) :
      code ≠ CodePoint.ofChar char := by
    rintro rfl
    omega
  have first : code ≠ minus := apart '-' (by decide)
  have second : code ≠ plus := apart '+' (by decide)
  cases negative with
  | true =>
    have bar : isSpace minus = false := by decide
    rw [signText, if_pos rfl, List.singleton_append, List.dropWhile_cons_of_neg (by simp [bar]), signOf,
      if_pos rfl]
  | false =>
    rw [signText, if_neg (by decide), List.nil_append, same, List.cons_append,
      List.dropWhile_cons_of_neg (by simp [visible]), signOf, if_neg first, if_neg second]

theorem stopsRun_nil : StopsRun numerals [] := by
  intro code member
  cases member

theorem stopsRun_solidus : StopsRun numerals (solidus :: rest) := by
  intro code member
  cases member
  exact ⟨numerals.ascii _ (by decide), by decide⟩

theorem fractionOf_integer {value : ℤ} (short : (Nat.toDigits 10 value.natAbs).length ≤ limit) :
    fractionOf limit numerals (integer value) = .ok value := by
  obtain ⟨digits, run, some, worth, long, starts⟩ := digitRun_decimal value.natAbs (@stopsRun_nil numerals)
  have matched : groups numerals (integer value) =
      .some ⟨decide (value < 0), digits, none, [], none⟩ := by
    rw [groups, integer_eq, ← List.append_nil (decimal value.natAbs), signOf_printed]
    dsimp only
    rw [if_pos (.inl starts), run]
    simp [slash, decimalGroup, exponentGroup]
  have parts : Groups.parts limit ⟨decide (value < 0), digits, none, [], none⟩ =
      .ok (value.natAbs, 1) := by
    simp [Groups.parts, intOf, long, short, worth, except_ok_bind]
  rw [fractionOf, matched]
  dsimp only
  rw [parts, except_ok_bind]
  dsimp only
  rw [if_neg one_ne_zero, signed_natAbs, Nat.cast_one, div_one]

theorem fractionOf_ratio {value : ℤ} {denominator : ℕ} (positive : denominator ≠ 0)
    (above : (Nat.toDigits 10 value.natAbs).length ≤ limit)
    (below : (Nat.toDigits 10 denominator).length ≤ limit) :
    fractionOf limit numerals (integer value ++ solidus :: decimal denominator) =
      .ok (value / denominator) := by
  obtain ⟨digits, run, some, worth, long, starts⟩ :=
    digitRun_decimal value.natAbs (@stopsRun_solidus numerals (decimal denominator))
  obtain ⟨digits', run', some', worth', long', _⟩ :=
    digitRun_decimal denominator (@stopsRun_nil numerals)
  rw [List.append_nil] at run'
  have solidusVisible : isSpace solidus = false := by decide
  have visible : (decimal denominator).dropWhile isSpace = decimal denominator := by
    obtain ⟨code, rest, same⟩ := List.exists_cons_of_ne_nil (decimal_ne_nil denominator)
    have digit : isDigit code = true := isDigit_of_mem_decimal (by rw [same]; simp)
    rw [same, List.dropWhile_cons_of_neg (by simp [not_isSpace_of_isDigit digit])]
  have bar : slash numerals (solidus :: decimal denominator) = .some (decimal denominator) := by
    simp [slash, solidusVisible, visible]
  have matched : groups numerals (integer value ++ solidus :: decimal denominator) =
      .some ⟨decide (value < 0), digits, .some digits', [], none⟩ := by
    rw [groups, integer_eq, List.append_assoc, signOf_printed]
    dsimp only
    rw [if_pos (.inl starts), run]
    dsimp only
    rw [bar]
    dsimp only
    rw [run']
    simp [some']
  have parts : Groups.parts limit ⟨decide (value < 0), digits, .some digits', [], none⟩ =
      .ok (value.natAbs, denominator) := by
    simp [Groups.parts, intOf, long, above, worth, long', below, worth', except_ok_bind]
  rw [fractionOf, matched]
  dsimp only
  rw [parts, except_ok_bind]
  dsimp only
  rw [if_neg positive, signed_natAbs]

end Printed

end CodeCalc.Lib.NumberText
