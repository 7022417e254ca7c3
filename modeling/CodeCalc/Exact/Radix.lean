import CodeCalc.Errors
import CodeCalc.Lib.Radix
import CodeCalc.Lib.Text

/-! `radix_convert`: a digit string read in one base and written in another, and
what the written text is worth.  A numeral is read the same way on both sides,
so the round trip is a statement about rational numbers. -/
namespace CodeCalc.RadixConvert
open Lib Lib.Radix Errors

section Program

/-- `code.lower()` of an ASCII character. -/
def asciiLower (code : CodePoint) : CodePoint :=
  if 65 ≤ code.val ∧ code.val ≤ 90 then code + 32 else code

/-- Python's `str.lower`, and `repr` of one character. -/
structure Casing where
  lower : Text → Text
  repr : CodePoint → String
  lower_ascii : ∀ text : Text, (∀ code ∈ text, code.val < 128) → lower text = text.map asciiLower

def radixDigits : Text := Text.ofString "0123456789abcdefghijklmnopqrstuvwxyz"

/-- `_RADIX_DIGITS[value]`; the loops index with remainders below the base. -/
def digitChar (value : ℕ) : CodePoint := radixDigits.getD value 0

abbrev minus : CodePoint := CodePoint.ofChar '-'

abbrev point : CodePoint := CodePoint.ofChar '.'

abbrev ellipsis : CodePoint := CodePoint.ofChar '…'

variable (casing : Casing) (base : ℕ)

def parseDigit (code : CodePoint) : Except String ℕ :=
  let invalid := "invalid digit " ++ casing.repr code ++ " for base " ++ toString base
  match radixDigits.idxOf? code with
  | none => .error invalid
  | some value => if base ≤ value then .error invalid else .ok value

/-- The loop over the digits before the point. -/
def parseWhole : ℕ → Text → Except String ℕ
  | whole, [] => .ok whole
  | whole, code :: rest => do
      let value ← parseDigit casing base code
      parseWhole (whole * base + value) rest

/-- The loop over the digits behind it: the numerator and the denominator. -/
def parseFraction : ℕ × ℕ → Text → Except String (ℕ × ℕ)
  | fraction, [] => .ok fraction
  | (num, den), code :: rest => do
      let value ← parseDigit casing base code
      parseFraction (num * base + value, den * base) rest

/-- A digit string without its sign: `num` and `den`. -/
def parseMagnitude (s : Text) : Except String (ℕ × ℕ) := do
  let ip := s.takeWhile fun code => decide (code ≠ point)
  let fp := (s.dropWhile fun code => decide (code ≠ point)).drop 1
  let whole ← parseWhole casing base 0 ip
  let (num, den) ← parseFraction casing base (0, 1) fp
  return (whole * den + num, den)

/-- The digits of a fraction that never ends, until a remainder comes again. -/
def repeatingDigits (den : ℕ) : ℕ → List ℕ → ℕ → List ℕ
  | 0, _, _ => []
  | turns + 1, seen, rest =>
      if rest = 0 ∨ rest ∈ seen then []
      else rest * base / den :: repeatingDigits den turns (rest :: seen) (rest * base % den)

/-- The digits of a fraction that ends. -/
def endingDigits (den : ℕ) : ℕ → ℕ → List ℕ
  | 0, _ => []
  | turns + 1, rest =>
      if rest = 0 then [] else rest * base / den :: endingDigits den turns (rest * base % den)

/-- What `radix_convert` returns beside `ok`. -/
structure Converted where
  value : Text
  nonTerminating : Bool
  deriving DecidableEq

/-- The integer part in the target base. -/
def writeWhole (whole : ℕ) : Text :=
  if whole = 0 then [digitChar 0] else ((base.digits whole).map digitChar).reverse

/-- `radix_convert` from the parsed fraction on. -/
def writeRadix (negative : Bool) (num den : ℕ) : Converted :=
  let rem := num % den
  let g := rem.gcd den
  let rn := rem / g
  let rd := den / g
  let terminates := decide (stripShared base rd rd = 1)
  let digits := if terminates then endingDigits base rd 100 rn else repeatingDigits base rd 64 [] rn
  let sign := if negative then [minus] else []
  if digits ≠ [] then
    { value := sign ++ writeWhole base (num / den) ++ point :: digits.map digitChar ++
        if terminates then [] else [ellipsis]
      nonTerminating := !terminates }
  else { value := sign ++ writeWhole base (num / den), nonTerminating := false }

def radixConvert (value : Text) (fromBase toBase : ℤ) : Except Fields Converted :=
  if ¬(2 ≤ fromBase ∧ fromBase ≤ 36 ∧ 2 ≤ toBase ∧ toBase ≤ 36) then
    .error [("ok", .bool false), ("error", .str "bases must be 2..36")]
  else
    let s := casing.lower (stripSpace value)
    let negative := decide (s.head? = some minus)
    let s := if negative then s.drop 1 else s
    match parseMagnitude casing fromBase.toNat s with
    | .error message => .error (errorResult (classify (.valueError message) message) message [])
    | .ok (num, den) =>
        if den = 0 then .ok { value := [digitChar 0], nonTerminating := false }
        else .ok (writeRadix toBase.toNat negative num den)

end Program

section Numeral

def digitValue (base : ℕ) (code : CodePoint) : Option ℕ :=
  let value :=
    if 48 ≤ code.val ∧ code.val ≤ 57 then some (code.val - 48)
    else if 97 ≤ code.val ∧ code.val ≤ 122 then some (code.val - 87)
    else if 65 ≤ code.val ∧ code.val ≤ 90 then some (code.val - 55)
    else none
  value.filter fun value => decide (value < base)

/-- `x` with the sign in front of it. -/
def signed (negative : Bool) (x : ℚ) : ℚ := if negative then -x else x

/-- What digits, a point and digits are worth; the point and the digits may be
missing. -/
def readMagnitude (base : ℕ) (text : Text) : Option ℚ := do
  let whole ← (text.takeWhile fun code => decide (code ≠ point)).mapM (digitValue base)
  let fraction ← ((text.dropWhile fun code => decide (code ≠ point)).drop 1).mapM (digitValue base)
  return numeral base whole + numeral base fraction / base ^ fraction.length

/-- The rational number a digit string stands for. -/
def readRadix (base : ℕ) (text : Text) : Option ℚ :=
  let negative := decide (text.head? = some minus)
  (readMagnitude base (if negative then text.drop 1 else text)).map (signed negative)

/-- The leading digits of the expansion of `x`: its sign, its integer part, and
so many of its digits behind the point. -/
def Leading (base : ℕ) (x : ℚ) (shown : Text) : Prop :=
  ∃ whole places, readRadix base whole = some (⌊|x|⌋₊ : ℚ) ∧
    shown = (if x < 0 then [minus] else []) ++ whole ++
      point :: (List.range places).map fun place => digitChar (digitAt base |x| place)

/-- A conversion of `x` that is right: either the text is worth `x`, or `x` has no
finite expansion and what stands before the ellipsis are its leading digits. -/
def Converts (base : ℕ) (x : ℚ) (result : Except Fields Converted) : Prop :=
  ∃ converted, result = .ok converted ∧
    if converted.nonTerminating then
      ¬Finite base x ∧ ∃ shown, converted.value = shown ++ [ellipsis] ∧ Leading base x shown
    else readRadix base converted.value = some x

variable {base : ℕ} {code : CodePoint} {text : Text}

theorem digitValue_lt {value : ℕ} (read : digitValue base code = some value) : value < base := by
  rw [digitValue, Option.filter_eq_some_iff] at read
  exact of_decide_eq_true read.2

theorem digitValue_ascii {value : ℕ} (read : digitValue base code = some value) :
    (48 ≤ code.val ∧ code.val ≤ 57) ∨ (65 ≤ code.val ∧ code.val ≤ 90) ∨
      (97 ≤ code.val ∧ code.val ≤ 122) := by
  rw [digitValue, Option.filter_eq_some_iff] at read
  split_ifs at read
  · omega
  · omega
  · omega
  · exact nomatch read.1

theorem digitChar_val : ∀ value < 36,
    (digitChar value).val = if value < 10 then 48 + value else 87 + value := by decide

theorem idxOf_digitChar : ∀ value < 36, radixDigits.idxOf? (digitChar value) = some value := by
  decide

theorem asciiLower_val (code : CodePoint) :
    (asciiLower code).val =
      if 65 ≤ code.val ∧ code.val ≤ 90 then code.val + 32 else code.val := by
  rw [asciiLower]
  split
  · rw [Fin.val_add]
    have : ((32 : CodePoint) : ℕ) = 32 := rfl
    omega
  · rfl

theorem asciiLower_digit {value : ℕ} (read : digitValue base code = some value) :
    value < 36 ∧ asciiLower code = digitChar value := by
  rw [digitValue, Option.filter_eq_some_iff] at read
  have small : value < 36 := by
    split_ifs at read <;> simp only [Option.some.injEq, false_and] at read <;> omega
  refine ⟨small, Fin.ext ?_⟩
  rw [asciiLower_val, digitChar_val value small]
  split_ifs at read <;> simp only [Option.some.injEq, false_and] at read <;>
    split_ifs <;> omega

theorem parseDigit_asciiLower (casing : Casing) {value : ℕ}
    (read : digitValue base code = some value) :
    parseDigit casing base (asciiLower code) = .ok value := by
  obtain ⟨small, same⟩ := asciiLower_digit read
  simp only [parseDigit, same, idxOf_digitChar value small, Nat.not_le.mpr (digitValue_lt read),
    if_false]

theorem digitValue_digitChar {value : ℕ} (small : value < base) (bound : base ≤ 36) :
    digitValue base (digitChar value) = some value := by
  have shape := digitChar_val value (by omega)
  rw [digitValue, Option.filter_eq_some_iff]
  refine ⟨?_, decide_eq_true small⟩
  by_cases low : value < 10
  · rw [if_pos low] at shape
    rw [if_pos (by omega)]
    exact congrArg some (by omega)
  · rw [if_neg low] at shape
    rw [if_neg (by omega), if_pos (by omega)]
    exact congrArg some (by omega)

theorem parseWhole_asciiLower (casing : Casing) {digits : List ℕ}
    (read : text.mapM (digitValue base) = some digits) (whole : ℕ) :
    parseWhole casing base whole (text.map asciiLower) =
      .ok (whole * base ^ digits.length + numeral base digits) := by
  induction text generalizing digits whole with
  | nil =>
    cases read
    simp [parseWhole]
  | cons code rest ih =>
    simp only [List.mapM_cons, Option.bind_eq_bind, Option.bind_eq_some_iff] at read
    obtain ⟨value, first, others, later, same⟩ := read
    cases same
    rw [List.map_cons, parseWhole, parseDigit_asciiLower casing first]
    refine (ih later _).trans (congrArg Except.ok ?_)
    rw [numeral_cons, List.length_cons]
    ring

theorem parseFraction_asciiLower (casing : Casing) {digits : List ℕ}
    (read : text.mapM (digitValue base) = some digits) (num den : ℕ) :
    parseFraction casing base (num, den) (text.map asciiLower) =
      .ok (num * base ^ digits.length + numeral base digits, den * base ^ digits.length) := by
  induction text generalizing digits num den with
  | nil =>
    cases read
    simp [parseFraction]
  | cons code rest ih =>
    simp only [List.mapM_cons, Option.bind_eq_bind, Option.bind_eq_some_iff] at read
    obtain ⟨value, first, others, later, same⟩ := read
    cases same
    rw [List.map_cons, parseFraction, parseDigit_asciiLower casing first]
    refine (ih later _ _).trans (congrArg Except.ok (Prod.ext ?_ ?_))
    · rw [numeral_cons, List.length_cons]
      ring
    · rw [List.length_cons]
      ring

theorem asciiLower_eq_iff {mark : CodePoint} (low : mark.val < 65) :
    asciiLower code = mark ↔ code = mark := by
  rw [Fin.ext_iff, Fin.ext_iff, asciiLower_val]
  split <;> omega

theorem parseMagnitude_asciiLower (casing : Casing) {whole fraction : List ℕ}
    (wholeRead : (text.takeWhile fun code => decide (code ≠ point)).mapM (digitValue base) = some whole)
    (fractionRead : ((text.dropWhile fun code => decide (code ≠ point)).drop 1).mapM (digitValue base) =
      some fraction) :
    parseMagnitude casing base (text.map asciiLower) =
      .ok (numeral base whole * base ^ fraction.length + numeral base fraction,
        base ^ fraction.length) := by
  have pass : (fun code => decide (code ≠ point)) ∘ asciiLower =
      fun code : CodePoint => decide (code ≠ point) := by
    funext code
    simp [asciiLower_eq_iff (show point.val < 65 by decide)]
  have before := parseWhole_asciiLower casing wholeRead 0
  have behind := parseFraction_asciiLower casing fractionRead 0 1
  rw [Nat.zero_mul, Nat.zero_add] at before behind
  rw [Nat.one_mul] at behind
  rw [parseMagnitude]
  simp only [List.takeWhile_map, List.dropWhile_map, pass, ← List.map_drop, before, behind]
  rfl

theorem forall_of_mapM {digits : List ℕ} (read : text.mapM (digitValue base) = some digits) :
    ∀ code ∈ text, ∃ value, digitValue base code = some value := by
  induction text generalizing digits with
  | nil =>
    intro code member
    cases member
  | cons first rest ih =>
    simp only [List.mapM_cons, Option.bind_eq_bind, Option.bind_eq_some_iff] at read
    obtain ⟨value, found, others, later, same⟩ := read
    intro code member
    rcases List.mem_cons.mp member with here | behind
    · exact ⟨value, here ▸ found⟩
    · exact ih later code behind

theorem mem_sides (ordinary : code ≠ point) (member : code ∈ text) :
    (code ∈ text.takeWhile fun code => decide (code ≠ point)) ∨
      code ∈ (text.dropWhile fun code => decide (code ≠ point)).drop 1 := by
  induction text with
  | nil => cases member
  | cons first rest ih =>
    by_cases dot : first = point
    · rw [List.dropWhile_cons_of_neg (by simpa using dot)]
      rcases List.mem_cons.mp member with here | behind
      · exact absurd (here.trans dot) ordinary
      · exact .inr behind
    · rw [List.dropWhile_cons_of_pos (by simpa using dot),
        List.takeWhile_cons_of_pos (by simpa using dot)]
      rcases List.mem_cons.mp member with here | behind
      · exact .inl (List.mem_cons.mpr (.inl here))
      · exact (ih behind).imp_left (List.mem_cons_of_mem first)

/-- A character of a digit string is in ASCII and no blank. -/
theorem plain_of_readRadix {x : ℚ} (read : readRadix base text = some x) :
    ∀ code ∈ text, code.val < 128 ∧ isSpace code = false := by
  have plain {code : CodePoint} (shape : code = minus ∨ code = point ∨
      ∃ value, digitValue base code = some value) : code.val < 128 ∧ isSpace code = false := by
    rcases shape with rfl | rfl | ⟨value, digit⟩
    · decide
    · decide
    · have range := digitValue_ascii digit
      refine ⟨by omega, decide_eq_false ?_⟩
      omega
  obtain ⟨magnitude, read, -⟩ := Option.map_eq_some_iff.mp read
  simp only [readMagnitude, Option.bind_eq_bind, Option.bind_eq_some_iff] at read
  obtain ⟨whole, wholeRead, fraction, fractionRead, -⟩ := read
  intro code member
  apply plain
  by_cases first : code = minus
  · exact .inl first
  by_cases dot : code = point
  · exact .inr (.inl dot)
  refine .inr (.inr ?_)
  have inside : code ∈ if decide (text.head? = some minus) then text.drop 1 else text := by
    split
    · rename_i negative
      cases text with
      | nil => cases member
      | cons head rest =>
        rcases List.mem_cons.mp member with here | behind
        · exact absurd (here.trans (Option.some.inj (of_decide_eq_true negative))) first
        · exact behind
    · exact member
  rcases mem_sides dot inside with before | behind
  · exact forall_of_mapM wholeRead code before
  · exact forall_of_mapM fractionRead code behind

/-- A digit string is parsed as the number it stands for. -/
theorem radixConvert_eq (casing : Casing) {x : ℚ} {fromBase toBase : ℕ}
    (hfrom : 2 ≤ fromBase ∧ fromBase ≤ 36) (hto : 2 ≤ toBase ∧ toBase ≤ 36)
    (read : readRadix fromBase text = some x) :
    ∃ (negative : Bool) (num den : ℕ), 0 < den ∧ x = signed negative (num / den) ∧
      radixConvert casing text fromBase toBase = .ok (writeRadix toBase negative num den) := by
  have plain := plain_of_readRadix read
  have stripped : stripSpace text = text :=
    stripSpace_eq_self (fun code first => (plain code (List.mem_of_mem_head? first)).2)
      fun code last => (plain code (List.mem_of_getLast? last)).2
  have folded : casing.lower text = text.map asciiLower :=
    casing.lower_ascii text fun code member => (plain code member).1
  obtain ⟨magnitude, read, worth⟩ := Option.map_eq_some_iff.mp read
  simp only [readMagnitude, Option.bind_eq_bind, Option.bind_eq_some_iff] at read
  obtain ⟨whole, wholeRead, fraction, fractionRead, same⟩ := read
  have head : (text.map asciiLower).head? = some minus ↔ text.head? = some minus := by
    cases text with
    | nil => simp
    | cons first rest => simp [asciiLower_eq_iff (show minus.val < 65 by decide)]
  have sign : (if decide ((text.map asciiLower).head? = some minus) = true
      then (text.map asciiLower).drop 1 else text.map asciiLower) =
      (if decide (text.head? = some minus) = true then text.drop 1 else text).map asciiLower := by
    simp only [head]
    split
    · rw [List.map_drop]
    · rfl
  refine ⟨decide (text.head? = some minus),
    numeral fromBase whole * fromBase ^ fraction.length + numeral fromBase fraction,
    fromBase ^ fraction.length, Nat.pow_pos (by omega), ?_, ?_⟩
  · rw [← worth, ← Option.some.inj same]
    have nonzero : (fromBase : ℚ) ≠ 0 := Nat.cast_ne_zero.mpr (by omega)
    push_cast
    congr 1
    field_simp
  · have inRange : ¬¬((2 : ℤ) ≤ fromBase ∧ (fromBase : ℤ) ≤ 36 ∧ (2 : ℤ) ≤ toBase ∧ (toBase : ℤ) ≤ 36) := by
      omega
    rw [radixConvert, if_neg inRange, stripped, folded]
    dsimp only
    rw [sign, Int.toNat_natCast, Int.toNat_natCast, parseMagnitude_asciiLower casing wholeRead fractionRead]
    simp only [head]
    exact if_neg (Nat.pow_pos (by omega)).ne'

end Numeral

section Written

variable {base : ℕ} {text : Text} {negative : Bool} {whole fraction : List ℕ}

theorem mapM_digitChar {digits : List ℕ} (small : ∀ digit ∈ digits, digit < base)
    (bound : base ≤ 36) : (digits.map digitChar).mapM (digitValue base) = some digits := by
  induction digits with
  | nil => rfl
  | cons digit rest ih =>
    rw [List.map_cons, List.mapM_cons, digitValue_digitChar (small digit List.mem_cons_self) bound,
      ih fun other member => small other (List.mem_cons_of_mem _ member)]
    rfl

theorem digitChar_ne {value : ℕ} (small : value < 36) :
    digitChar value ≠ minus ∧ digitChar value ≠ point := by
  have shape := digitChar_val value small
  constructor
  · intro same
    rw [same] at shape
    have : minus.val = 45 := rfl
    split_ifs at shape <;> omega
  · intro same
    rw [same] at shape
    have : point.val = 46 := rfl
    split_ifs at shape <;> omega

theorem plain_digits {digits : List ℕ} (bound : base ≤ 36) (small : ∀ digit ∈ digits, digit < base) :
    ∀ code ∈ digits.map digitChar, decide (code ≠ point) = true := by
  intro code member
  obtain ⟨digit, inside, rfl⟩ := List.mem_map.mp member
  exact decide_eq_true (digitChar_ne (by have := small digit inside; omega)).2

theorem unsigned_digits {digits : List ℕ} (bound : base ≤ 36)
    (small : ∀ digit ∈ digits, digit < base) (shown : digits ≠ []) (rest : Text) :
    (digits.map digitChar ++ rest).head? ≠ some minus := by
  obtain ⟨first, others, rfl⟩ := List.exists_cons_of_ne_nil shown
  intro same
  have small := small first List.mem_cons_self
  exact (digitChar_ne (by omega)).1 (Option.some.inj same)

theorem readRadix_signed (unsigned : text.head? ≠ some minus) {x : ℚ}
    (read : readMagnitude base text = some x) :
    readRadix base ((if negative then [minus] else []) ++ text) = some (signed negative x) := by
  cases negative with
  | true => simp [readRadix, read]
  | false => simp [readRadix, read, unsigned]

theorem readMagnitude_point (bound : base ≤ 36) (wholeSmall : ∀ digit ∈ whole, digit < base)
    (fractionSmall : ∀ digit ∈ fraction, digit < base) :
    readMagnitude base (whole.map digitChar ++ point :: fraction.map digitChar) =
      some (numeral base whole + numeral base fraction / base ^ fraction.length : ℚ) := by
  have before := plain_digits bound wholeSmall
  rw [readMagnitude, List.takeWhile_append_of_pos before, List.dropWhile_append_of_pos before,
    List.takeWhile_cons_of_neg (by decide), List.dropWhile_cons_of_neg (by decide), List.append_nil,
    mapM_digitChar wholeSmall bound, List.drop_one, List.tail_cons, mapM_digitChar fractionSmall bound]
  rfl

theorem readMagnitude_whole (bound : base ≤ 36) (small : ∀ digit ∈ whole, digit < base) :
    readMagnitude base (whole.map digitChar) = some (numeral base whole : ℚ) := by
  have before := plain_digits bound small
  rw [readMagnitude, List.takeWhile_eq_self_iff.mpr before, List.dropWhile_eq_nil_iff.mpr before,
    mapM_digitChar small bound]
  simp

theorem writeWhole_eq (base : ℕ) (large : 2 ≤ base) (value : ℕ) :
    ∃ digits : List ℕ, writeWhole base value = digits.map digitChar ∧
      (∀ digit ∈ digits, digit < base) ∧ numeral base digits = value ∧ digits ≠ [] := by
  by_cases zero : value = 0
  · refine ⟨[0], ?_, ?_, ?_, List.cons_ne_nil _ _⟩
    · rw [writeWhole, if_pos zero]
      rfl
    · intro digit member
      rw [List.mem_singleton.mp member]
      omega
    · simp [zero, numeral]
  · refine ⟨(base.digits value).reverse, ?_, ?_, numeral_reverse_digits base value, ?_⟩
    · rw [writeWhole, if_neg zero, List.map_reverse]
    · intro digit member
      exact Nat.digits_lt_base (by omega) (List.mem_reverse.mp member)
    · intro none
      exact zero (Nat.digits_eq_nil_iff_eq_zero.mp (List.reverse_eq_nil_iff.mp none))

theorem endingDigits_eq {den rest : ℕ} (proper : rest < den) (turns : ℕ) :
    ∃ count ≤ turns, endingDigits base den turns rest = quotients base den count rest ∧
      (count < turns → rest * base ^ count % den = 0) := by
  induction turns generalizing rest with
  | zero => exact ⟨0, Nat.le_refl 0, rfl, fun none => absurd none (Nat.lt_irrefl 0)⟩
  | succ turns ih =>
    rw [endingDigits]
    by_cases done : rest = 0
    · refine ⟨0, Nat.zero_le _, if_pos done, fun _ => ?_⟩
      rw [done, Nat.zero_mul, Nat.zero_mod]
    · obtain ⟨count, enough, same, exactly⟩ :=
        ih (Nat.mod_lt (rest * base) (Nat.zero_lt_of_lt proper))
      refine ⟨count + 1, by omega, ?_, fun less => ?_⟩
      · rw [if_neg done, same, quotients]
      · rw [Nat.pow_succ', ← Nat.mul_assoc, ← Nat.mod_mul_mod]
        exact exactly (by omega)

theorem repeatingDigits_eq {den : ℕ} (turns : ℕ) (seen : List ℕ) (rest : ℕ) :
    ∃ count, repeatingDigits base den turns seen rest = quotients base den count rest := by
  induction turns generalizing seen rest with
  | zero => exact ⟨0, rfl⟩
  | succ turns ih =>
    rw [repeatingDigits]
    split
    · exact ⟨0, rfl⟩
    · obtain ⟨count, same⟩ := ih (rest :: seen) (rest * base % den)
      exact ⟨count + 1, by rw [same, quotients]⟩

end Written

section Conversion

variable {base num den : ℕ} {negative : Bool} {x : ℚ}

theorem signed_injective (negative : Bool) : Function.Injective (signed negative) := by
  cases negative with
  | false => exact fun _ _ same => same
  | true => exact neg_injective

theorem fits_signed {places : ℕ} : Fits base (signed negative x) places ↔ Fits base x places := by
  cases negative with
  | false => rfl
  | true =>
    have flip {y : ℚ} : Fits base y places → Fits base (-y) places := by
      rintro ⟨n, same⟩
      exact ⟨-n, by rw [neg_mul, same, Int.cast_neg]⟩
    refine ⟨fun fits => ?_, flip⟩
    have back := flip fits
    rwa [signed, if_pos rfl, neg_neg] at back

theorem finite_signed : Finite base (signed negative x) ↔ Finite base x :=
  exists_congr fun _ => fits_signed

theorem abs_signed (nonnegative : 0 ≤ x) : |signed negative x| = x := by
  cases negative with
  | false => exact abs_of_nonneg nonnegative
  | true => exact (abs_neg x).trans (abs_of_nonneg nonnegative)

/-- `rn`, the numerator of the reduced fractional part. -/
def reducedNum (num den : ℕ) : ℕ := num % den / (num % den).gcd den

/-- `rd`, its denominator. -/
def reducedDen (num den : ℕ) : ℕ := den / (num % den).gcd den

/-- A fraction is its integer part and a reduced proper fraction. -/
theorem reduced_parts (positive : 0 < den) :
    reducedNum num den < reducedDen num den ∧ (reducedNum num den).Coprime (reducedDen num den) ∧
      (num / den : ℚ) = (num / den : ℕ) + (reducedNum num den : ℚ) / reducedDen num den := by
  rw [reducedNum, reducedDen]
  have shared : 0 < (num % den).gcd den := Nat.gcd_pos_of_pos_right _ positive
  have hnum : num % den / (num % den).gcd den * (num % den).gcd den = num % den :=
    Nat.div_mul_cancel (Nat.gcd_dvd_left _ _)
  have hden : den / (num % den).gcd den * (num % den).gcd den = den :=
    Nat.div_mul_cancel (Nat.gcd_dvd_right _ _)
  refine ⟨?_, Nat.coprime_div_gcd_div_gcd shared, ?_⟩
  · apply Nat.lt_of_mul_lt_mul_right (a := (num % den).gcd den)
    rw [hnum, hden]
    exact Nat.mod_lt num positive
  · have nonzero : ((num % den).gcd den : ℚ) ≠ 0 := Nat.cast_ne_zero.mpr (by omega)
    have denNonzero : (den : ℚ) ≠ 0 := Nat.cast_ne_zero.mpr (by omega)
    calc (num / den : ℚ)
        = ((den * (num / den) + num % den : ℕ) : ℚ) / den := by rw [Nat.div_add_mod]
      _ = (num / den : ℕ) + ((num % den : ℕ) : ℚ) / den := by
          push_cast
          field_simp
      _ = (num / den : ℕ) + ((num % den / (num % den).gcd den * (num % den).gcd den : ℕ) : ℚ) /
            ((den / (num % den).gcd den * (num % den).gcd den : ℕ) : ℚ) := by rw [hnum, hden]
      _ = _ := by
          rw [Nat.cast_mul, Nat.cast_mul, mul_div_mul_right _ _ nonzero]

theorem converts_ok {converted : Converted} :
    Converts base x (.ok converted) ↔
      if converted.nonTerminating then
        ¬Finite base x ∧ ∃ shown, converted.value = shown ++ [ellipsis] ∧ Leading base x shown
      else readRadix base converted.value = some x := by
  constructor
  · rintro ⟨other, same, right⟩
    cases same
    exact right
  · intro right
    exact ⟨converted, rfl, right⟩

/-- Digits behind the point that make up the fraction. -/
theorem quotients_exact {rn rd count : ℕ} (proper : rn < rd) (large : 2 ≤ base) :
    ((numeral base (quotients base rd count rn) : ℚ) / base ^ count = rn / rd) ↔
      rn * base ^ count % rd = 0 := by
  have split := @numeral_quotients base rd rn proper count
  have nonzero : (rd : ℚ) ≠ 0 := Nat.cast_ne_zero.mpr (by omega)
  have power : (base : ℚ) ^ count ≠ 0 := pow_ne_zero _ (Nat.cast_ne_zero.mpr (by omega))
  rw [div_eq_div_iff power nonzero]
  constructor
  · intro same
    have same : numeral base (quotients base rd count rn) * rd = rn * base ^ count := by
      exact_mod_cast same
    omega
  · intro none
    have same : numeral base (quotients base rd count rn) * rd = rn * base ^ count := by omega
    exact_mod_cast same

/-- An expansion that ends is written without a mark, as far as a hundred digits go. -/
theorem writeRadix_ending (large : 2 ≤ base) (bound : base ≤ 36) (positive : 0 < den)
    (terminates : stripShared base (reducedDen num den) (reducedDen num den) = 1) :
    ∃ text, ∃ count ≤ 100, writeRadix base negative num den = ⟨text, false⟩ ∧
      (count < 100 → reducedNum num den * base ^ count % reducedDen num den = 0) ∧
      readRadix base text = some (signed negative ((num / den : ℕ) +
        numeral base (quotients base (reducedDen num den) count (reducedNum num den)) / base ^ count)) := by
  have proper := (@reduced_parts num den positive).1
  obtain ⟨count, enough, digits, exactly⟩ := @endingDigits_eq base _ _ proper 100
  obtain ⟨whole, wholeText, wholeSmall, wholeValue, wholeShown⟩ := writeWhole_eq base large (num / den)
  have unsigned := unsigned_digits bound wholeSmall wholeShown
  rw [writeRadix, ← reducedNum, ← reducedDen, terminates, decide_eq_true rfl, if_pos rfl, digits,
    wholeText]
  by_cases none : quotients base (reducedDen num den) count (reducedNum num den) = []
  · refine ⟨_, count, enough, if_neg (not_not.mpr none), exactly, ?_⟩
    rw [none, numeral_nil, Nat.cast_zero, zero_div, add_zero, ← wholeValue]
    apply readRadix_signed (List.append_nil (whole.map digitChar) ▸ unsigned [])
    exact readMagnitude_whole bound wholeSmall
  · refine ⟨_, count, enough, if_pos none, exactly, ?_⟩
    rw [if_pos rfl, List.append_nil, List.append_assoc, ← wholeValue]
    apply readRadix_signed (unsigned _)
    have small : ∀ digit ∈ quotients base (reducedDen num den) count (reducedNum num den),
        digit < base := fun digit => digit_lt proper (by omega)
    have worth := readMagnitude_point bound wholeSmall small
    rwa [length_quotients] at worth

/-- An expansion that does not end is cut and marked. -/
theorem writeRadix_repeating (shown : 0 < reducedNum num den)
    (endless : stripShared base (reducedDen num den) (reducedDen num den) ≠ 1) :
    ∃ count, writeRadix base negative num den =
      ⟨(if negative then [minus] else []) ++ writeWhole base (num / den) ++
        point :: (quotients base (reducedDen num den) count (reducedNum num den)).map digitChar ++
          [ellipsis], true⟩ := by
  obtain ⟨count, digits⟩ := @repeatingDigits_eq base (reducedDen num den) 64 [] (reducedNum num den)
  have some_digit : repeatingDigits base (reducedDen num den) 64 [] (reducedNum num den) ≠ [] := by
    rw [repeatingDigits, if_neg]
    · exact List.cons_ne_nil _ _
    · rintro (none | seen)
      · omega
      · cases seen
  refine ⟨count, ?_⟩
  rw [writeRadix, ← reducedNum, ← reducedDen, decide_eq_false endless, if_neg Bool.false_ne_true,
    if_pos some_digit, digits]
  rfl

/-- The written text is right exactly when the expansion, if it ends, ends
within a hundred digits. -/
theorem writeRadix_converts_iff (large : 2 ≤ base) (bound : base ≤ 36) (positive : 0 < den) :
    Converts base (signed negative (num / den)) (.ok (writeRadix base negative num den)) ↔
      (Finite base (num / den) → Fits base (num / den) 100) := by
  obtain ⟨proper, coprime, value⟩ := @reduced_parts num den positive
  have finite : Finite base (num / den) ↔
      stripShared base (reducedDen num den) (reducedDen num den) = 1 := by
    rw [stripShared_eq_one_iff (by omega) (Nat.le_refl _), value]
    exact exists_congr fun _ => fits_iff _ coprime (by omega)
  have fits : Fits base (num / den) 100 ↔ reducedDen num den ∣ base ^ 100 := by
    rw [value]
    exact fits_iff _ coprime (by omega)
  by_cases terminates : stripShared base (reducedDen num den) (reducedDen num den) = 1
  · obtain ⟨text, count, enough, written, exactly, worth⟩ :=
      @writeRadix_ending base num den negative large bound positive terminates
    have divides : reducedNum num den * base ^ count % reducedDen num den = 0 ↔
        reducedDen num den ∣ base ^ count := by
      rw [← Nat.dvd_iff_mod_eq_zero]
      exact ⟨coprime.symm.dvd_of_dvd_mul_left, fun divides => Dvd.dvd.mul_left divides _⟩
    rw [finite, fits, converts_ok, written, if_neg Bool.false_ne_true, worth, Option.some_inj,
      (signed_injective negative).eq_iff, value, add_right_inj, quotients_exact proper large, divides]
    constructor
    · intro part _
      exact part.trans (Nat.pow_dvd_pow base enough)
    · intro whole
      rcases Nat.lt_or_eq_of_le enough with less | full
      · exact divides.mp (exactly less)
      · rw [full]
        exact whole terminates
  · have shown : 0 < reducedNum num den := by
      apply Nat.pos_of_ne_zero
      intro none
      rw [none, Nat.coprime_zero_left] at coprime
      rw [coprime] at terminates
      exact terminates rfl
    have size : 0 < (num / den : ℚ) := by
      rw [value]
      have : (0 : ℚ) < reducedNum num den / reducedDen num den :=
        div_pos (Nat.cast_pos.mpr shown) (Nat.cast_pos.mpr (by omega))
      positivity
    obtain ⟨count, written⟩ := @writeRadix_repeating base num den negative shown terminates
    obtain ⟨whole, wholeText, wholeSmall, wholeValue, wholeShown⟩ :=
      writeWhole_eq base large (num / den)
    rw [finite, converts_ok, written, if_pos rfl, finite_signed, finite]
    refine iff_of_true ⟨terminates, _, rfl, writeWhole base (num / den), count, ?_, ?_⟩
      (absurd · terminates)
    · have unsigned := unsigned_digits bound wholeSmall wholeShown []
      rw [List.append_nil] at unsigned
      rw [abs_signed size.le, Nat.floor_div_eq_div, wholeText, ← wholeValue]
      exact @readRadix_signed base _ false unsigned _ (readMagnitude_whole bound wholeSmall)
    · have sign : signed negative (num / den) < 0 ↔ negative = true := by
        cases negative with
        | true => exact iff_of_true (neg_neg_iff_pos.mpr size) rfl
        | false => exact iff_of_false size.not_gt Bool.false_ne_true
      have digits : (quotients base (reducedDen num den) count (reducedNum num den)).map digitChar =
          (List.range count).map fun place => digitChar (digitAt base (num / den) place) := by
        rw [quotients_eq_map proper, List.map_map]
        congr 1
        funext place
        rw [Function.comp_apply, value, digitAt_eq _ _ proper]
      rw [abs_signed size.le, digits]
      simp only [sign]

/-- The conversion is right exactly when the number has no finite expansion in
the target base, or one of at most a hundred digits behind the point. -/
theorem radixConvert_converts_iff (casing : Casing) {fromBase toBase : ℕ} {text : Text}
    (hfrom : 2 ≤ fromBase ∧ fromBase ≤ 36) (hto : 2 ≤ toBase ∧ toBase ≤ 36)
    (valid : readRadix fromBase text = some x) :
    Converts toBase x (radixConvert casing text fromBase toBase) ↔
      (Finite toBase x → Fits toBase x 100) := by
  obtain ⟨negative, num, den, positive, rfl, converted⟩ := radixConvert_eq casing hfrom hto valid
  rw [converted, finite_signed, fits_signed]
  exact writeRadix_converts_iff hto.1 hto.2 positive

def asciiCasing : Casing where
  lower text := text.map asciiLower
  repr code := "'" ++ String.singleton (Char.ofNat code.val) ++ "'"
  lower_ascii _ _ := rfl

theorem radixConvert_converts_iff_hex :
    (2 ≤ 16 ∧ 16 ≤ 36) ∧ (2 ≤ 2 ∧ 2 ≤ 36) ∧
      readRadix 16 (Text.ofString "-F.8") = some (-31 / 2) ∧
      (Converts 2 (-31 / 2) (radixConvert asciiCasing (Text.ofString "-F.8") (16 : ℕ) (2 : ℕ)) ↔
        (Finite 2 (-31 / 2) → Fits 2 (-31 / 2) 100)) := by
  have valid : readRadix 16 (Text.ofString "-F.8") = some (-31 / 2) := by
    with_unfolding_all rfl
  exact ⟨by decide, by decide, valid,
    radixConvert_converts_iff asciiCasing (by decide) (by decide) valid⟩

/-- `0.000000000000000000001`, read in base 32, needs 105 digits in base 2. -/
theorem radixConvert_cut :
    ¬∀ (casing : Casing) (fromBase toBase : ℕ) (text : Text) (x : ℚ),
      2 ≤ fromBase ∧ fromBase ≤ 36 → 2 ≤ toBase ∧ toBase ≤ 36 →
        readRadix fromBase text = some x → Converts toBase x (radixConvert casing text fromBase toBase) := by
  intro right
  have read : readRadix 32 (Text.ofString "0.000000000000000000001") = some (1 / 32 ^ 21) := by
    with_unfolding_all rfl
  obtain ⟨negative, num, den, positive, same, converted⟩ :=
    radixConvert_eq asciiCasing (by decide) (by decide : 2 ≤ 2 ∧ 2 ≤ 36) read
  have result := right asciiCasing 32 2 _ _ (by decide) (by decide) read
  rw [converted, same, writeRadix_converts_iff (by decide) (by decide) positive, ← finite_signed,
    ← fits_signed, ← same] at result
  obtain ⟨n, fits⟩ := result ⟨105, 1, by norm_num⟩
  have whole : (1 : ℚ) = ((32 * n : ℤ) : ℚ) := by
    push_cast
    rw [← fits]
    norm_num
  have : (1 : ℤ) = 32 * n := by exact_mod_cast whole
  omega

end Conversion

end CodeCalc.RadixConvert
