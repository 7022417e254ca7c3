import Mathlib.Data.List.Chain
import CodeCalc.Lib.JsonCodec
import CodeCalc.Lib.JsonText

/-! The encoder that writes ASCII only, with a blank after each comma and colon,
and what the decoder makes of its text: the same document, with every high
surrogate and the low one right behind it joined into one character. -/
namespace CodeCalc.Lib.JsonCodec

section Escapes

/-- `\uXXXX`. -/
def escapeUnit (value : Nat) : Text :=
  [backslash, 'u', hexDigit (value / 4096), hexDigit (value / 256 % 16), hexDigit (value / 16 % 16),
    hexDigit (value % 16)]

def highUnit (code : CodePoint) : Nat := 0xD800 + (code.val - 0x10000) / 1024

def lowUnit (code : CodePoint) : Nat := 0xDC00 + (code.val - 0x10000) % 1024

def shortEscapes : List (CodePoint × CodePoint) :=
  [(quoteMark, quoteMark), (backslash, backslash), (10, 'n'), (13, 'r'), (9, 't'), (12, 'f'), (8, 'b')]

theorem forall_shortEscapes {holds : CodePoint × CodePoint → Prop} [DecidablePred holds]
    (checked : shortEscapes.all (fun entry => decide (holds entry)) = true) :
    ∀ entry ∈ shortEscapes, holds entry :=
  fun _ member => of_decide_eq_true (List.all_eq_true.mp checked _ member)

def isPrintable (code : CodePoint) : Bool := decide (32 ≤ code.val ∧ code.val ≤ 126)

def escapeAscii (code : CodePoint) : Text :=
  match entryOf code shortEscapes with
  | some letter => [backslash, letter]
  | none =>
      if isPrintable code then [code]
      else if code.val < 0x10000 then escapeUnit code.val
      else escapeUnit (highUnit code) ++ escapeUnit (lowUnit code)

/-- A string literal, as `json.dumps` writes it. -/
def asciiQuote (text : Text) : Text := quoteMark :: (text.flatMap escapeAscii ++ [quoteMark])

def piecesOf (code : CodePoint) : List Piece :=
  if (entryOf code shortEscapes).isSome ∨ isPrintable code then [.plain code]
  else if code.val < 0x10000 then [.unit (Fin.ofNat _ code.val)]
  else [.unit (Fin.ofNat _ (highUnit code)), .unit (Fin.ofNat _ (lowUnit code))]

private theorem hexValue_hexDigit {value : Nat} (h : value < 16) :
    hexValue (hexDigit value) = some value := by
  unfold hexDigit
  by_cases hten : value < 10
  · have hval : (Fin.ofNat 0x110000 (48 + value)).val = 48 + value := Nat.mod_eq_of_lt (by omega)
    rw [if_pos hten, hexValue, hval, if_pos (by omega)]
    congr
    omega
  · have hval : (Fin.ofNat 0x110000 (87 + value)).val = 87 + value := Nat.mod_eq_of_lt (by omega)
    rw [if_neg hten, hexValue, hval, if_neg (by omega), if_neg (by omega), if_pos (by omega)]
    congr
    omega

theorem hexFour_hexDigit {value : Nat} (h : value < 0x10000) :
    hexFour (hexDigit (value / 4096)) (hexDigit (value / 256 % 16)) (hexDigit (value / 16 % 16))
      (hexDigit (value % 16)) = some (Fin.ofNat _ value) := by
  have hsum : ((value / 4096 * 16 + value / 256 % 16) * 16 + value / 16 % 16) * 16 + value % 16 =
      value := by omega
  simp only [hexFour, Option.bind_eq_bind, hexValue_hexDigit (show value / 4096 < 16 by omega),
    hexValue_hexDigit (Nat.mod_lt _ (by decide : 0 < 16)), Option.bind_some, hsum]
  rfl

variable {text rest : Text}

theorem readPieces_escapeUnit {value : Nat} (h : value < 0x10000) :
    readPieces (escapeUnit value ++ text) =
      (readPieces text).map fun (pieces, rest) => (.unit (Fin.ofNat _ value) :: pieces, rest) := by
  simp only [escapeUnit, List.cons_append, List.nil_append]
  rw [readPieces.eq_def]
  have hquote : backslash ≠ quoteMark := by decide
  simp only [hquote, if_true, if_false, hexFour_hexDigit h, Option.bind_eq_bind, Option.bind_some]
  cases readPieces text <;> rfl

theorem readPieces_short {code letter : CodePoint} (h : entryOf code shortEscapes = some letter) :
    readPieces (backslash :: letter :: text) =
      (readPieces text).map fun (pieces, rest) => (.plain code :: pieces, rest) := by
  have hall : ∀ entry ∈ shortEscapes, shortEscape entry.2 = some entry.1 ∧
      entry.2 ≠ CodePoint.ofChar 'u' := forall_shortEscapes (by decide)
  obtain ⟨hread, hkind⟩ := hall (code, letter) (mem_of_entryOf h)
  have hquote : backslash ≠ quoteMark := by decide
  rw [readPieces.eq_def]
  simp only [hquote, hkind, if_true, if_false, hread, Option.bind_eq_bind, Option.bind_some]
  cases readPieces text <;> rfl

theorem readPieces_printable {code : CodePoint} (absent : entryOf code shortEscapes = none)
    (printable : isPrintable code = true) :
    readPieces (code :: text) =
      (readPieces text).map fun (pieces, rest) => (.plain code :: pieces, rest) := by
  have hquote : code ≠ quoteMark := by
    rintro rfl
    cases absent
  have hslash : code ≠ backslash := by
    rintro rfl
    cases absent
  have hcontrol : ¬ code.val < 32 := by
    have := of_decide_eq_true printable
    omega
  rw [readPieces.eq_def]
  simp only [hquote, hslash, hcontrol, if_false, Option.bind_eq_bind]
  cases readPieces text <;> rfl

theorem readPieces_escapeAscii (code : CodePoint) :
    readPieces (escapeAscii code ++ text) =
      (readPieces text).map fun (pieces, rest) => (piecesOf code ++ pieces, rest) := by
  unfold escapeAscii piecesOf
  have hcode := code.isLt
  cases hshort : entryOf code shortEscapes with
  | some letter =>
    simp only [Option.isSome_some, true_or, if_true]
    exact readPieces_short hshort
  | none =>
    by_cases hprint : isPrintable code = true
    · simp only [hprint, or_true, if_true]
      exact readPieces_printable hshort hprint
    · by_cases hsmall : code.val < 0x10000
      · simp only [hprint, hsmall, if_true, Option.isSome_none, Bool.false_eq_true, or_self, if_false]
        exact readPieces_escapeUnit hsmall
      · simp only [hprint, hsmall, Option.isSome_none, Bool.false_eq_true, or_self, if_false]
        have hhigh : highUnit code < 0x10000 := by
          unfold highUnit
          omega
        have hlow : lowUnit code < 0x10000 := by
          unfold lowUnit
          omega
        rw [List.append_assoc, readPieces_escapeUnit hhigh, readPieces_escapeUnit hlow,
          Option.map_map]
        rfl

theorem readPieces_asciiQuote (text : Text) :
    readPieces (text.flatMap escapeAscii ++ quoteMark :: rest) = some (text.flatMap piecesOf, rest) := by
  induction text with
  | nil =>
    rw [List.flatMap_nil, List.nil_append, readPieces.eq_def]
    simp only [if_true]
    rfl
  | cons code text ih =>
    rw [List.flatMap_cons, List.append_assoc, readPieces_escapeAscii, ih]
    rfl

end Escapes

section Joining

def joined : Text → Text
  | [] => []
  | [code] => [code]
  | high :: low :: rest =>
      if isHigh high.val && isLow low.val then joinSurrogates high.val low.val :: joined rest
      else high :: joined (low :: rest)

def Pairless (text : Text) : Prop :=
  text.IsChain fun high low => (isHigh high.val && isLow low.val) = false

instance : DecidablePred Pairless := fun text =>
  inferInstanceAs (Decidable (text.IsChain fun high low => (isHigh high.val && isLow low.val) = false))

theorem joinSurrogates_astral (high low : Nat) (joins : (isHigh high && isLow low) = true) :
    0x10000 ≤ (joinSurrogates high low).val := by
  simp only [isHigh, isLow, Bool.and_eq_true, decide_eq_true_eq] at joins
  have hval : (joinSurrogates high low).val = 0x10000 + (high - 0xD800) * 0x400 + (low - 0xDC00) :=
    Nat.mod_eq_of_lt (by omega)
  omega

theorem units_joinSurrogates {high low : Nat} (joins : (isHigh high && isLow low) = true) :
    highUnit (joinSurrogates high low) = high ∧ lowUnit (joinSurrogates high low) = low := by
  simp only [isHigh, isLow, Bool.and_eq_true, decide_eq_true_eq] at joins
  have hval : (joinSurrogates high low).val = 0x10000 + (high - 0xD800) * 0x400 + (low - 0xDC00) :=
    Nat.mod_eq_of_lt (by omega)
  rw [highUnit, lowUnit, hval]
  omega

private theorem escapeAscii_unescaped {code : CodePoint} (unprintable : 0x7F ≤ code.val) :
    escapeAscii code = if code.val < 0x10000 then escapeUnit code.val
      else escapeUnit (highUnit code) ++ escapeUnit (lowUnit code) := by
  have hshort : entryOf code shortEscapes = none := by
    cases found : entryOf code shortEscapes with
    | none => rfl
    | some letter =>
      have hall : ∀ entry ∈ shortEscapes, entry.1.val < 0x7F :=
          forall_shortEscapes (by decide)
      exact absurd (hall _ (mem_of_entryOf found)) (Nat.not_lt.mpr unprintable)
  have hprint : isPrintable code = false := by
    simp only [isPrintable, decide_eq_false_iff_not]
    omega
  simp [escapeAscii, hshort, hprint]

theorem escape_joined (text : Text) :
    (joined text).flatMap escapeAscii = text.flatMap escapeAscii := by
  fun_induction joined text with
  | case1 => rfl
  | case2 => rfl
  | case3 high low rest joins ih =>
    have hastral := joinSurrogates_astral _ _ joins
    obtain ⟨hhigh, hlow⟩ := units_joinSurrogates joins
    simp only [isHigh, isLow, Bool.and_eq_true, decide_eq_true_eq] at joins
    rw [List.flatMap_cons, List.flatMap_cons, List.flatMap_cons, ih,
      escapeAscii_unescaped (by omega), escapeAscii_unescaped (by omega),
      escapeAscii_unescaped (by omega), if_neg (by omega), if_pos (by omega), if_pos (by omega),
      hhigh, hlow, List.append_assoc]
  | case4 high low rest single ih => rw [List.flatMap_cons, ih, ← List.flatMap_cons]

theorem joined_of_pairless {text : Text} (pairless : Pairless text) : joined text = text := by
  fun_induction joined text with
  | case1 => rfl
  | case2 => rfl
  | case3 high low rest joins ih =>
    have := (List.isChain_cons_cons.mp pairless).1
    rw [joins] at this
    cases this
  | case4 high low rest single ih =>
    rw [ih (List.isChain_cons_cons.mp pairless).2]

theorem joined_head (code : CodePoint) (rest : Text) :
    ∃ first more, joined (code :: rest) = first :: more ∧
      (first = code ∨ 0x10000 ≤ first.val) := by
  cases rest with
  | nil => exact ⟨code, [], rfl, .inl rfl⟩
  | cons low rest =>
    rw [joined]
    by_cases joins : (isHigh code.val && isLow low.val) = true
    · rw [if_pos joins]
      exact ⟨_, _, rfl, .inr (joinSurrogates_astral _ _ joins)⟩
    · rw [if_neg joins]
      exact ⟨_, _, rfl, .inl rfl⟩

theorem pairless_joined (text : Text) : Pairless (joined text) := by
  fun_induction joined text with
  | case1 => exact .nil
  | case2 code => exact .singleton code
  | case3 high low rest joins ih =>
    have hastral := joinSurrogates_astral _ _ joins
    have hhigh : isHigh (joinSurrogates high.val low.val).val = false := by
      simp only [isHigh, decide_eq_false_iff_not]
      omega
    apply List.isChain_cons.mpr
    exact ⟨fun _ _ => by rw [hhigh, Bool.false_and], ih⟩
  | case4 high low rest single ih =>
    obtain ⟨first, more, same, hfirst⟩ := joined_head low rest
    rw [same] at ih ⊢
    apply List.isChain_cons_cons.mpr
    refine ⟨?_, ih⟩
    cases hfirst with
    | inl hlow =>
      rw [hlow]
      exact Bool.eq_false_iff.mpr single
    | inr hastral =>
      have hlow : isLow first.val = false := by
        simp only [isLow, decide_eq_false_iff_not]
        omega
      rw [hlow, Bool.and_false]

private theorem piecesOf_astral {code : CodePoint} (astral : 0x10000 ≤ code.val) :
    piecesOf code = [.unit (Fin.ofNat _ (highUnit code)), .unit (Fin.ofNat _ (lowUnit code))] := by
  have hshort : entryOf code shortEscapes = none := by
    cases found : entryOf code shortEscapes with
    | none => rfl
    | some letter =>
      have hall : ∀ entry ∈ shortEscapes, entry.1.val < 0x10000 :=
          forall_shortEscapes (by decide)
      exact absurd (hall _ (mem_of_entryOf found)) (Nat.not_lt.mpr astral)
  have hprint : isPrintable code = false := by
    simp only [isPrintable, decide_eq_false_iff_not]
    omega
  simp [piecesOf, hshort, hprint, Nat.not_lt.mpr astral]

private theorem piecesOf_single {code : CodePoint} (small : code.val < 0x10000) :
    piecesOf code = [.plain code] ∨ piecesOf code = [.unit (Fin.ofNat _ code.val)] := by
  unfold piecesOf
  split_ifs
  · exact .inl rfl
  · exact .inr rfl

private theorem plain_not_surrogate {code : CodePoint} (plain : piecesOf code = [.plain code]) :
    isHigh code.val = false ∧ isLow code.val = false := by
  have hsmall : code.val < 0xD800 := by
    unfold piecesOf at plain
    split_ifs at plain with hplain
    · cases hplain with
      | inl hshort =>
        have hall : ∀ entry ∈ shortEscapes, entry.1.val < 0xD800 :=
          forall_shortEscapes (by decide)
        obtain ⟨letter, found⟩ := Option.isSome_iff_exists.mp hshort
        exact hall _ (mem_of_entryOf found)
      | inr hprint =>
        have := of_decide_eq_true hprint
        omega
    · cases plain
    · cases plain
  constructor
  · simp only [isHigh, decide_eq_false_iff_not]
    omega
  · simp only [isLow, decide_eq_false_iff_not]
    omega

private theorem ofNat_unit {code : CodePoint} (small : code.val < 0x10000) :
    (Fin.ofNat 0x10000 code.val).val = code.val ∧
      Fin.ofNat 0x110000 (Fin.ofNat 0x10000 code.val).val = code := by
  have hval : (Fin.ofNat 0x10000 code.val).val = code.val := Nat.mod_eq_of_lt small
  rw [hval]
  exact ⟨rfl, Fin.ext (Nat.mod_eq_of_lt code.isLt)⟩

private theorem units_astral {code : CodePoint} (astral : 0x10000 ≤ code.val) :
    (Fin.ofNat 0x10000 (highUnit code)).val = highUnit code ∧
      (Fin.ofNat 0x10000 (lowUnit code)).val = lowUnit code ∧
      isHigh (highUnit code) = true ∧ isLow (highUnit code) = false ∧ isLow (lowUnit code) = true ∧
      joinSurrogates (highUnit code) (lowUnit code) = code := by
  have hcode := code.isLt
  unfold isHigh isLow
  rw [decide_eq_true_eq, decide_eq_false_iff_not, decide_eq_true_eq]
  unfold joinSurrogates highUnit lowUnit
  refine ⟨Nat.mod_eq_of_lt (by omega), Nat.mod_eq_of_lt (by omega), by omega, by omega, by omega, ?_⟩
  apply Fin.ext
  exact (Nat.mod_eq_of_lt (by omega)).trans (by omega)

private theorem joinPieces_plain (code : CodePoint) (pieces : List Piece) :
    joinPieces (.plain code :: pieces) = code :: joinPieces pieces := by
  rw [joinPieces]

private theorem joinPieces_unit {value : Fin 0x10000} {pieces : List Piece}
    (single : ∀ low, pieces.head? = some (.unit low) → (isHigh value.val && isLow low.val) = false) :
    joinPieces (.unit value :: pieces) = Fin.ofNat 0x110000 value.val :: joinPieces pieces := by
  match pieces with
  | [] => rfl
  | .plain code :: pieces => simp only [joinPieces]
  | .unit low :: pieces =>
    rw [joinPieces, single low rfl]
    rfl

private theorem joinPieces_astral {code : CodePoint} (astral : 0x10000 ≤ code.val)
    (pieces : List Piece) : joinPieces (piecesOf code ++ pieces) = code :: joinPieces pieces := by
  obtain ⟨hhigh, hlow, isHigh, _, isLow, joins⟩ := units_astral astral
  rw [piecesOf_astral astral, List.cons_append, List.cons_append, List.nil_append, joinPieces, hhigh,
    hlow, isHigh, isLow, joins]
  rfl

private theorem head_piecesOf (code : CodePoint) (pieces : List Piece) (low : Fin 0x10000)
    (first : (piecesOf code ++ pieces).head? = some (.unit low)) (isLow : isLow low.val = true) :
    low.val = code.val := by
  by_cases astral : 0x10000 ≤ code.val
  · obtain ⟨hhigh, _, _, notLow, _⟩ := units_astral astral
    rw [piecesOf_astral astral] at first
    cases first
    rw [hhigh, notLow] at isLow
    cases isLow
  · have small := Nat.not_le.mp astral
    cases piecesOf_single small with
    | inl plain =>
      rw [plain] at first
      cases first
    | inr single =>
      rw [single] at first
      cases first
      exact (ofNat_unit small).1

private theorem joinPieces_cons {code : CodePoint} {pieces : List Piece}
    (single : ∀ low, pieces.head? = some (.unit low) → (isHigh code.val && isLow low.val) = false) :
    joinPieces (piecesOf code ++ pieces) = code :: joinPieces pieces := by
  by_cases astral : 0x10000 ≤ code.val
  · exact joinPieces_astral astral pieces
  · have small := Nat.not_le.mp astral
    cases piecesOf_single small with
    | inl plain => rw [plain, List.singleton_append, joinPieces_plain]
    | inr unit =>
      obtain ⟨hval, hcode⟩ := ofNat_unit small
      rw [unit, List.singleton_append, joinPieces_unit, hcode]
      rwa [hval]

theorem joinPieces_piecesOf (text : Text) : joinPieces (text.flatMap piecesOf) = joined text := by
  fun_induction joined text with
  | case1 => rfl
  | case2 code =>
    rw [List.flatMap_cons, joinPieces_cons]
    · rfl
    · intro low first
      cases first
  | case3 high low rest joins ih =>
    obtain ⟨hhigh, hlow⟩ := Bool.and_eq_true_iff.mp joins
    have htop := of_decide_eq_true hhigh
    have hbottom := of_decide_eq_true hlow
    have small : high.val < 0x10000 := by omega
    have small' : low.val < 0x10000 := by omega
    have units : piecesOf high = [.unit (Fin.ofNat _ high.val)] := by
      apply (piecesOf_single small).resolve_left
      intro plain
      rw [(plain_not_surrogate plain).1] at hhigh
      cases hhigh
    have units' : piecesOf low = [.unit (Fin.ofNat _ low.val)] := by
      apply (piecesOf_single small').resolve_left
      intro plain
      rw [(plain_not_surrogate plain).2] at hlow
      cases hlow
    rw [List.flatMap_cons, List.flatMap_cons, units, units', List.singleton_append,
      List.singleton_append, joinPieces, (ofNat_unit small).1, (ofNat_unit small').1, joins, ih]
    rfl
  | case4 high low rest single ih =>
    rw [List.flatMap_cons, joinPieces_cons, ih]
    intro unit first
    rw [List.flatMap_cons] at first
    cases hlow : isLow unit.val with
    | false => exact Bool.and_false _
    | true =>
      have same := head_piecesOf low _ unit first hlow
      rw [← hlow, same]
      exact Bool.eq_false_iff.mpr single

theorem readString_asciiQuote (text rest : Text) :
    readString (text.flatMap escapeAscii ++ quoteMark :: rest) = some (joined text, rest) := by
  rw [readString, readPieces_asciiQuote, Option.map_some]
  exact congrArg some (Prod.ext (joinPieces_piecesOf text) rfl)

end Joining

section Numerals

def StopsNumber (rest : Text) : Prop :=
  ∀ code, rest.head? = some code →
    isDigit code = false ∧ code ≠ CodePoint.ofChar '.' ∧ code ≠ CodePoint.ofChar 'e' ∧
      code ≠ CodePoint.ofChar 'E'

variable {limits : Limits} {rest : Text}

theorem decimal_zero : decimal 0 = [CodePoint.ofChar '0'] := rfl

private theorem digitsValue_map (chars : List Char) (init : Nat) :
    (chars.map CodePoint.ofChar).foldl (fun value code => value * 10 + (code.val - 48)) init =
      Nat.ofDigitChars 10 chars init := by
  induction chars generalizing init with
  | nil => rfl
  | cons char chars ih =>
    rw [List.map_cons, List.foldl_cons, ih, Nat.ofDigitChars_cons, Nat.mul_comm]
    rfl

theorem digitsValue_decimal (value : Nat) : digitsValue (decimal value) = value := by
  rw [digitsValue, decimal, digitsValue_map, Nat.ofDigitChars_ten_toDigits]

/-- Only zero has a numeral that begins with one. -/
theorem decimal_head {value : Nat} (positive : 0 < value) :
    ∃ code rest, decimal value = code :: rest ∧ code ≠ CodePoint.ofChar '0' := by
  induction value using Nat.strongRecOn with
  | _ value ih =>
    by_cases small : value < 10
    · have hall : ∀ value < 10, 0 < value → (decimal value).head? ≠ some (CodePoint.ofChar '0') := by
        decide
      obtain ⟨code, rest, same⟩ := List.exists_cons_of_ne_nil (decimal_ne_nil value)
      refine ⟨code, rest, same, ?_⟩
      rintro rfl
      exact hall value small positive (by rw [same]; rfl)
    · obtain ⟨code, rest, same, nonzero⟩ := ih (value / 10) (by omega) (by omega)
      have hsplit : decimal value = decimal (value / 10) ++ decimal (value % 10) := by
        rw [decimal, Nat.toDigits_of_base_le (by decide) (by omega), List.map_append]
        rw [← Nat.toDigits_of_lt_base (Nat.mod_lt value (by decide))]
        rfl
      rw [hsplit, same]
      exact ⟨code, _, rfl, nonzero⟩

theorem StopsNumber.numeral (stops : StopsNumber rest) : StopsNumeral rest :=
  fun code first => (stops code first).1

theorem integral_decimal (value : Nat) (stops : StopsNumber rest) :
    integral (decimal value ++ rest) = (decimal value, rest) := by
  by_cases positive : 0 < value
  · obtain ⟨code, more, same, nonzero⟩ := decimal_head positive
    have hdigits : ∀ code ∈ decimal value, isDigit code := fun _ => isDigit_of_mem_decimal
    have htake : (decimal value ++ rest).takeWhile isDigit = decimal value := by
      rw [List.takeWhile_append_of_pos hdigits]
      cases rest with
      | nil => simp
      | cons code rest => simp [(stops code rfl).1]
    have hdrop : (decimal value ++ rest).dropWhile isDigit = rest := by
      rw [List.dropWhile_append_of_pos hdigits]
      cases rest with
      | nil => rfl
      | cons code rest => simp [(stops code rfl).1]
    rw [same, List.cons_append] at htake hdrop ⊢
    rw [integral, if_neg nonzero, htake, hdrop]
  · have hzero : value = 0 := by omega
    rw [hzero, decimal_zero, List.singleton_append, integral, if_pos rfl]

theorem fraction_stops (stops : StopsNumber rest) : fraction rest = ([], rest) := by
  cases rest with
  | nil => rfl
  | cons code rest => simp [fraction, (stops code rfl).2.1]

theorem exponent_stops (stops : StopsNumber rest) : exponent rest = (none, rest) := by
  cases rest with
  | nil => rfl
  | cons code rest => simp [exponent, (stops code rfl).2.2]

theorem readNumber_decimal {value : Nat} (negative : Bool) (stops : StopsNumber rest)
    (short : (decimal value).length ≤ limits.digits) :
    readNumber limits negative (decimal value ++ rest) =
      .value (.int (if negative then -value else value)) rest := by
  simp only [readNumber, integral_decimal value stops, fraction_stops stops, exponent_stops stops,
    decimal_ne_nil, if_false, and_self, if_true, Nat.not_lt.mpr short, digitsValue_decimal]

end Numerals

section Documents

mutual

/-- `json.dumps(doc)`. -/
def dumps : Doc → Text
  | .null => Text.ofString "null"
  | .bool true => Text.ofString "true"
  | .bool false => Text.ofString "false"
  | .int value => integer value
  | .str value => asciiQuote value
  | .arr items => CodePoint.ofChar '[' :: dumpsItems items
  | .obj members => CodePoint.ofChar '\x7b' :: dumpsMembers members

/-- The items of an array, with its closing bracket. -/
def dumpsItems : List Doc → Text
  | [] => [CodePoint.ofChar ']']
  | [item] => dumps item ++ [CodePoint.ofChar ']']
  | item :: next :: rest => dumps item ++ CodePoint.ofChar ',' :: CodePoint.ofChar ' ' :: dumpsItems (next :: rest)

/-- The members of an object, with its closing brace. -/
def dumpsMembers : List (Text × Doc) → Text
  | [] => [CodePoint.ofChar '\x7d']
  | [(key, value)] =>
      asciiQuote key ++ CodePoint.ofChar ':' :: CodePoint.ofChar ' ' :: dumps value ++ [CodePoint.ofChar '\x7d']
  | (key, value) :: next :: rest =>
      asciiQuote key ++ CodePoint.ofChar ':' :: CodePoint.ofChar ' ' :: dumps value ++
        CodePoint.ofChar ',' :: CodePoint.ofChar ' ' :: dumpsMembers (next :: rest)

end

mutual

/-- What the decoder makes of a document that the encoder wrote. -/
def loaded : Doc → JsonValue
  | .null => .null
  | .bool value => .bool value
  | .int value => .int value
  | .str value => .str (joined value)
  | .arr items => .arr (loadedItems items)
  | .obj members => .obj (assign (loadedMembers members))

def loadedItems : List Doc → List JsonValue
  | [] => []
  | item :: rest => loaded item :: loadedItems rest

def loadedMembers : List (Text × Doc) → List (Text × JsonValue)
  | [] => []
  | (key, value) :: rest => (joined key, loaded value) :: loadedMembers rest

end

variable {limits : Limits}

/-- A document within the limits: so many values inside one another, and so
many digits. -/
inductive Writable (limits : Limits) : Nat → Doc → Prop
  | null {depth : Nat} : Writable limits depth .null
  | bool {depth : Nat} (value : Bool) : Writable limits depth (.bool value)
  | int {depth : Nat} {value : Int} (short : (decimal value.natAbs).length ≤ limits.digits) :
      Writable limits depth (.int value)
  | str {depth : Nat} (value : Text) : Writable limits depth (.str value)
  | arr {depth : Nat} {items : List Doc} (inside : ∀ item ∈ items, Writable limits depth item) :
      Writable limits (depth + 1) (.arr items)
  | obj {depth : Nat} {members : List (Text × Doc)}
      (inside : ∀ member ∈ members, Writable limits depth member.2) :
      Writable limits (depth + 1) (.obj members)

theorem skipBlanks_cons {code : CodePoint} (rest : Text) (visible : isBlank code = false) :
    skipBlanks (code :: rest) = code :: rest := by
  rw [skipBlanks, List.dropWhile_cons, visible]
  rfl

theorem integer_first (value : Int) :
    ∃ code rest, integer value = code :: rest ∧ isBlank code = false ∧ code ≠ CodePoint.ofChar ']' := by
  obtain ⟨code, rest, same, hcode⟩ := integer_head value
  refine ⟨code, rest, same, ?_⟩
  cases hcode with
  | inl minus =>
    rw [minus]
    decide
  | inr digit =>
    have hrange := of_decide_eq_true digit
    constructor
    · simp only [isBlank, decide_eq_false_iff_not]
      intro blank
      have hall : ([CodePoint.ofChar ' ', CodePoint.ofChar '\t', CodePoint.ofChar '\n',
          CodePoint.ofChar '\r'].all fun code => code.val < 48) = true := by decide
      have := of_decide_eq_true (List.all_eq_true.mp hall code blank)
      omega
    · rintro rfl
      revert digit
      decide

/-- A document's text begins with no blank and no closing bracket. -/
theorem dumps_first (doc : Doc) :
    ∃ code rest, dumps doc = code :: rest ∧ isBlank code = false ∧ code ≠ CodePoint.ofChar ']' := by
  cases doc with
  | null => exact ⟨_, _, rfl, by decide⟩
  | bool value => cases value <;> exact ⟨_, _, rfl, by decide⟩
  | int value => exact integer_first value
  | str value => exact ⟨_, _, rfl, by decide⟩
  | arr items => exact ⟨_, _, rfl, by decide⟩
  | obj members => exact ⟨_, _, rfl, by decide⟩

/-- No word begins with a digit, and after a minus none goes on with one. -/
private theorem words_undigit {word : Text × JsonValue} (member : word ∈ words) :
    ∃ first second rest, word.1 = first :: second :: rest ∧ isDigit first = false ∧
      (first = CodePoint.ofChar '-' → isDigit second = false) := by
  simp only [words, List.mem_cons, List.not_mem_nil, or_false] at member
  rcases member with rfl | rfl | rfl | rfl | rfl | rfl <;> exact ⟨_, _, _, rfl, by decide⟩

theorem readWord_digit {code : CodePoint} (rest : Text) (digit : isDigit code = true) :
    readWord (code :: rest) = none := by
  rw [readWord, Option.map_eq_none_iff, List.find?_eq_none]
  intro word member begins
  obtain ⟨first, second, more, same, hfirst, _⟩ := words_undigit member
  rw [same, List.isPrefixOf_cons_cons, Bool.and_eq_true, beq_iff_eq] at begins
  rw [begins.1, digit] at hfirst
  cases hfirst

theorem readWord_minus {code : CodePoint} (rest : Text) (digit : isDigit code = true) :
    readWord (CodePoint.ofChar '-' :: code :: rest) = none := by
  rw [readWord, Option.map_eq_none_iff, List.find?_eq_none]
  intro word member begins
  obtain ⟨first, second, more, same, _, hsecond⟩ := words_undigit member
  rw [same, List.isPrefixOf_cons_cons, List.isPrefixOf_cons_cons, Bool.and_eq_true,
    Bool.and_eq_true, beq_iff_eq, beq_iff_eq] at begins
  have := hsecond begins.1
  rw [begins.2.1, digit] at this
  cases this

theorem digit_plain {code : CodePoint} (digit : isDigit code = true) :
    code ≠ quoteMark ∧ code ≠ CodePoint.ofChar '\x7b' ∧ code ≠ CodePoint.ofChar '[' ∧
      code ≠ CodePoint.ofChar '-' := by
  refine ⟨?_, ?_, ?_, ?_⟩ <;> (rintro rfl; revert digit; decide)

variable {fuel depth : Nat} {rest : Text}

theorem readValue_integer {value : Int} (stops : StopsNumber rest)
    (short : (decimal value.natAbs).length ≤ limits.digits) :
    readValue limits (fuel + 1) depth (integer value ++ rest) = .value (.int value) rest := by
  cases value with
  | ofNat value =>
    obtain ⟨code, more, same⟩ := List.exists_cons_of_ne_nil (decimal_ne_nil value)
    have digit : isDigit code = true := isDigit_of_mem_decimal (by rw [same]; simp)
    obtain ⟨hquote, hbrace, hbracket, hminus⟩ := digit_plain digit
    have hread : readNumber limits false (decimal value ++ rest) = _ :=
      readNumber_decimal false stops short
    simp only [integer]
    rw [same, List.cons_append] at hread ⊢
    rw [readValue.eq_def]
    simp only [hquote, hbrace, hbracket, hminus, if_false, readWord_digit _ digit]
    exact hread
  | negSucc value =>
    obtain ⟨code, more, same⟩ := List.exists_cons_of_ne_nil (decimal_ne_nil (value + 1))
    have digit : isDigit code = true := isDigit_of_mem_decimal (by rw [same]; simp)
    have hread : readNumber limits true (decimal (value + 1) ++ rest) = _ :=
      readNumber_decimal true stops short
    have hplain : CodePoint.ofChar '-' ≠ quoteMark ∧ CodePoint.ofChar '-' ≠ CodePoint.ofChar '\x7b' ∧
        CodePoint.ofChar '-' ≠ CodePoint.ofChar '[' := by decide
    simp only [integer]
    rw [same, List.cons_append] at hread ⊢
    rw [List.cons_append, readValue.eq_def]
    simp only [hplain.1, hplain.2.1, hplain.2.2, if_false, if_true, readWord_minus _ digit]
    exact hread

theorem stopsNumber_nil : StopsNumber [] := by
  intro code first
  cases first

theorem stopsNumber_cons {code : CodePoint} (rest : Text)
    (other : isDigit code = false ∧ code ≠ CodePoint.ofChar '.' ∧ code ≠ CodePoint.ofChar 'e' ∧
      code ≠ CodePoint.ofChar 'E') : StopsNumber (code :: rest) := by
  intro first same
  cases same
  exact other

/-- The decoder reads the document back in front of anything that cannot go on
with its last number. -/
def ReadsBack (limits : Limits) (doc : Doc) : Prop :=
  ∀ (fuel depth : Nat) (rest : Text), Writable limits depth doc → StopsNumber rest →
    2 * (dumps doc).length ≤ fuel →
    readValue limits fuel depth (dumps doc ++ rest) = .value (loaded doc) rest

private theorem dumpsItems_first (item : Doc) (items : List Doc) :
    ∃ code more, dumpsItems (item :: items) = code :: more ∧ isBlank code = false ∧
      code ≠ CodePoint.ofChar ']' := by
  obtain ⟨code, more, same, visible, open_⟩ := dumps_first item
  cases items <;> exact ⟨code, _, by rw [dumpsItems, same, List.cons_append], visible, open_⟩

private theorem dumpsMembers_first (member : Text × Doc) (members : List (Text × Doc)) :
    ∃ more, dumpsMembers (member :: members) = quoteMark :: more := by
  obtain ⟨key, value⟩ := member
  cases members <;> exact ⟨_, by simp only [dumpsMembers, asciiQuote, List.cons_append]; rfl⟩

private theorem fuel_of_dumps {doc : Doc} (enough : 2 * (dumps doc).length ≤ fuel) :
    ∃ less, fuel = less + 1 := by
  obtain ⟨code, more, same, _⟩ := dumps_first doc
  rw [same, List.length_cons] at enough
  exact ⟨fuel - 1, by omega⟩

theorem readItems_dumps {items : List Doc} (reads : ∀ item ∈ items, ReadsBack limits item)
    (inside : ∀ item ∈ items, Writable limits depth item) (nonempty : items ≠ [])
    (enough : 2 * (dumpsItems items).length ≤ fuel) :
    readItems limits fuel depth (dumpsItems items ++ rest) = .value (loadedItems items) rest := by
  induction items generalizing fuel with
  | nil => exact absurd rfl nonempty
  | cons item items ih =>
    have hitem := reads item (by simp)
    have hinside := inside item (by simp)
    cases items with
    | nil =>
      simp only [dumpsItems, List.length_append, List.length_singleton] at enough
      obtain ⟨fuel, rfl⟩ : ∃ less, fuel = less + 1 := ⟨fuel - 1, by omega⟩
      have hread := hitem fuel depth (CodePoint.ofChar ']' :: rest) hinside
        (stopsNumber_cons rest (by decide)) (by omega)
      rw [readItems, dumpsItems, List.append_assoc, List.singleton_append, hread, Read.andThen,
        skipBlanks_cons rest (by decide)]
      simp only [if_true]
      rfl
    | cons next items =>
      simp only [dumpsItems, List.length_append, List.length_cons] at enough
      obtain ⟨fuel, rfl⟩ : ∃ less, fuel = less + 1 := ⟨fuel - 1, by omega⟩
      have hread := hitem fuel depth
        (CodePoint.ofChar ',' :: CodePoint.ofChar ' ' :: (dumpsItems (next :: items) ++ rest)) hinside
        (stopsNumber_cons _ (by decide)) (by omega)
      have htail := ih (fun other member => reads other (List.mem_cons_of_mem _ member))
        (fun other member => inside other (List.mem_cons_of_mem _ member)) (by simp)
        (Nat.le_of_lt_succ (Nat.lt_succ_of_le (show 2 * _ ≤ fuel by omega)))
      have hblank : skipBlanks (CodePoint.ofChar ' ' :: (dumpsItems (next :: items) ++ rest)) =
          dumpsItems (next :: items) ++ rest := by
        obtain ⟨code, more, same, visible, _⟩ := dumpsItems_first next items
        rw [same, List.cons_append, skipBlanks, List.dropWhile_cons, if_pos (by decide)]
        exact skipBlanks_cons _ visible
      have hcomma : CodePoint.ofChar ',' ≠ CodePoint.ofChar ']' := by decide
      rw [readItems, dumpsItems, List.append_assoc, List.cons_append, List.cons_append, hread,
        Read.andThen, skipBlanks_cons _ (by decide)]
      simp only [hcomma, if_false, if_true, hblank, htail]
      rfl

theorem readString_key (key rest : Text) :
    Read.ofOption (readString (key.flatMap escapeAscii ++ quoteMark :: rest)) =
      .value (joined key) rest := by
  rw [readString_asciiQuote]
  rfl

private theorem skipBlanks_dumps (doc : Doc) (rest : Text) :
    skipBlanks (CodePoint.ofChar ' ' :: (dumps doc ++ rest)) = dumps doc ++ rest := by
  obtain ⟨code, more, same, visible, _⟩ := dumps_first doc
  rw [same, List.cons_append, skipBlanks, List.dropWhile_cons, if_pos (by decide)]
  exact skipBlanks_cons _ visible

theorem readMembers_dumps {members : List (Text × Doc)}
    (reads : ∀ member ∈ members, ReadsBack limits member.2)
    (inside : ∀ member ∈ members, Writable limits depth member.2) (nonempty : members ≠ [])
    (enough : 2 * (dumpsMembers members).length ≤ fuel) :
    readMembers limits fuel depth (dumpsMembers members ++ rest) =
      .value (loadedMembers members) rest := by
  have hcolon : ∀ text : Text, skipBlanks (CodePoint.ofChar ':' :: text) = CodePoint.ofChar ':' :: text :=
    fun text => skipBlanks_cons text (by decide)
  induction members generalizing fuel with
  | nil => exact absurd rfl nonempty
  | cons member members ih =>
    obtain ⟨key, value⟩ := member
    have hvalue : ReadsBack limits value := reads (key, value) (by simp)
    have hinside := inside (key, value) (by simp)
    cases members with
    | nil =>
      simp only [dumpsMembers, asciiQuote, List.length_append, List.length_cons, List.length_nil]
        at enough
      obtain ⟨fuel, rfl⟩ : ∃ less, fuel = less + 1 := ⟨fuel - 1, by omega⟩
      have hread := hvalue fuel depth (CodePoint.ofChar '\x7d' :: rest) hinside
        (stopsNumber_cons rest (by decide)) (by omega)
      have hkey := readString_key key (CodePoint.ofChar ':' :: CodePoint.ofChar ' ' ::
        (dumps value ++ CodePoint.ofChar '\x7d' :: rest))
      simp only [dumpsMembers, asciiQuote, List.cons_append, List.append_assoc, List.nil_append]
      rw [readMembers.eq_def]
      simp only [ne_eq, not_true_eq_false, if_false, hkey, Read.andThen, hcolon, skipBlanks_dumps,
        hread, skipBlanks_cons rest (show isBlank (CodePoint.ofChar '\x7d') = false by decide), if_true]
      rfl
    | cons next members =>
      simp only [dumpsMembers, asciiQuote, List.length_append, List.length_cons, List.length_nil]
        at enough
      obtain ⟨fuel, rfl⟩ : ∃ less, fuel = less + 1 := ⟨fuel - 1, by omega⟩
      have hread := hvalue fuel depth (CodePoint.ofChar ',' :: CodePoint.ofChar ' ' ::
        (dumpsMembers (next :: members) ++ rest)) hinside (stopsNumber_cons _ (by decide)) (by omega)
      have hkey := readString_key key (CodePoint.ofChar ':' :: CodePoint.ofChar ' ' ::
        (dumps value ++ CodePoint.ofChar ',' :: CodePoint.ofChar ' ' ::
          (dumpsMembers (next :: members) ++ rest)))
      have htail := ih (fun other member => reads other (List.mem_cons_of_mem _ member))
        (fun other member => inside other (List.mem_cons_of_mem _ member)) (by simp)
        (Nat.le_of_lt_succ (Nat.lt_succ_of_le (show 2 * _ ≤ fuel by omega)))
      have hblank : skipBlanks (CodePoint.ofChar ' ' :: (dumpsMembers (next :: members) ++ rest)) =
          dumpsMembers (next :: members) ++ rest := by
        obtain ⟨more, same⟩ := dumpsMembers_first next members
        rw [same, List.cons_append, skipBlanks, List.dropWhile_cons, if_pos (by decide)]
        exact skipBlanks_cons _ (by decide)
      have hcomma : CodePoint.ofChar ',' ≠ CodePoint.ofChar '\x7d' := by decide
      have hsplit : dumpsMembers ((key, value) :: next :: members) ++ rest =
          quoteMark :: (key.flatMap escapeAscii ++ quoteMark :: CodePoint.ofChar ':' ::
            CodePoint.ofChar ' ' :: (dumps value ++ CodePoint.ofChar ',' :: CodePoint.ofChar ' ' ::
              (dumpsMembers (next :: members) ++ rest))) := by
        simp only [dumpsMembers, asciiQuote, List.cons_append, List.append_assoc, List.nil_append]
      rw [hsplit, readMembers.eq_def]
      simp only [ne_eq, not_true_eq_false, if_false, hkey, Read.andThen, hcolon, skipBlanks_dumps,
        hread, skipBlanks_cons _ (show isBlank (CodePoint.ofChar ',') = false by decide), hcomma,
        if_true, hblank, htail]
      rfl

theorem readsBack (limits : Limits) (doc : Doc) : ReadsBack limits doc := by
  induction doc with
  | null =>
    intro fuel depth rest _ _ enough
    obtain ⟨fuel, rfl⟩ := fuel_of_dumps enough
    rfl
  | bool value =>
    intro fuel depth rest _ _ enough
    obtain ⟨fuel, rfl⟩ := fuel_of_dumps enough
    cases value <;> rfl
  | int value =>
    intro fuel depth rest writable stops enough
    obtain ⟨fuel, rfl⟩ := fuel_of_dumps enough
    cases writable with
    | int short => exact readValue_integer stops short
  | str value =>
    intro fuel depth rest _ _ enough
    obtain ⟨fuel, rfl⟩ := fuel_of_dumps enough
    rw [dumps, asciiQuote, List.cons_append, List.append_assoc, List.singleton_append,
      readValue.eq_def]
    simp only [if_true, readString_key]
    rfl
  | arr items ih =>
    intro fuel depth rest writable _ enough
    obtain ⟨fuel, rfl⟩ := fuel_of_dumps enough
    rw [dumps, List.length_cons] at enough
    have hplain : CodePoint.ofChar '[' ≠ quoteMark ∧ CodePoint.ofChar '[' ≠ CodePoint.ofChar '\x7b' := by
      decide
    cases writable with
    | arr inside =>
      cases items with
      | nil =>
        rw [dumps, dumpsItems, readValue.eq_def]
        simp only [List.cons_append, List.nil_append, hplain.1, hplain.2, if_false, if_true,
          skipBlanks_cons rest (show isBlank (CodePoint.ofChar ']') = false by decide)]
        rfl
      | cons item items =>
        rename_i depth
        obtain ⟨code, more, same, visible, hopen⟩ := dumpsItems_first item items
        have hread : readItems limits fuel depth (dumpsItems (item :: items) ++ rest) = _ :=
          readItems_dumps ih inside (by simp) (by omega)
        rw [same, List.cons_append] at hread
        rw [dumps, same, readValue.eq_def]
        simp only [List.cons_append, hplain.1, hplain.2, hopen, if_false, if_true,
          skipBlanks_cons _ visible, hread]
        rfl
  | obj members ih =>
    intro fuel depth rest writable _ enough
    obtain ⟨fuel, rfl⟩ := fuel_of_dumps enough
    rw [dumps, List.length_cons] at enough
    have hplain : CodePoint.ofChar '\x7b' ≠ quoteMark := by decide
    cases writable with
    | obj inside =>
      cases members with
      | nil =>
        rw [dumps, dumpsMembers, readValue.eq_def]
        simp only [List.cons_append, List.nil_append, hplain, if_false, if_true,
          skipBlanks_cons rest (show isBlank (CodePoint.ofChar '\x7d') = false by decide)]
        rfl
      | cons member members =>
        rename_i depth
        obtain ⟨more, same⟩ := dumpsMembers_first member members
        have hread : readMembers limits fuel depth (dumpsMembers (member :: members) ++ rest) = _ :=
          readMembers_dumps ih inside (by simp) (by omega)
        have hopen : quoteMark ≠ CodePoint.ofChar '\x7d' := by decide
        rw [same, List.cons_append] at hread
        rw [dumps, same, readValue.eq_def]
        simp only [List.cons_append, hplain, hopen, if_false, if_true,
          skipBlanks_cons _ (show isBlank quoteMark = false by decide), hread]
        rfl

def Printable (text : Text) : Prop := ∀ code ∈ text, isPrintable code = true

theorem printable_append {left right : Text} :
    Printable (left ++ right) ↔ Printable left ∧ Printable right := List.forall_mem_append

theorem printable_cons {code : CodePoint} {text : Text} :
    Printable (code :: text) ↔ isPrintable code = true ∧ Printable text := List.forall_mem_cons

theorem printable_nil : Printable [] := List.forall_mem_nil _

private theorem isPrintable_hexDigit {value : Nat} (h : value < 16) :
    isPrintable (hexDigit value) = true := by
  unfold hexDigit isPrintable
  rw [decide_eq_true_eq]
  by_cases hten : value < 10
  · have hval : (Fin.ofNat 0x110000 (48 + value)).val = 48 + value := Nat.mod_eq_of_lt (by omega)
    rw [if_pos hten, hval]
    omega
  · have hval : (Fin.ofNat 0x110000 (87 + value)).val = 87 + value := Nat.mod_eq_of_lt (by omega)
    rw [if_neg hten, hval]
    omega

private theorem printable_escapeUnit {value : Nat} (h : value < 0x10000) :
    Printable (escapeUnit value) := by
  intro code member
  simp only [escapeUnit, List.mem_cons, List.not_mem_nil, or_false] at member
  rcases member with rfl | rfl | rfl | rfl | rfl | rfl
  · decide
  · decide
  all_goals exact isPrintable_hexDigit (by omega)

theorem printable_escapeAscii (code : CodePoint) : Printable (escapeAscii code) := by
  have hcode := code.isLt
  unfold escapeAscii
  cases found : entryOf code shortEscapes with
  | some letter =>
    have hall : ∀ entry ∈ shortEscapes, isPrintable entry.2 = true :=
        forall_shortEscapes (by decide)
    have := hall _ (mem_of_entryOf found)
    intro other member
    simp only [List.mem_cons, List.not_mem_nil, or_false] at member
    rcases member with rfl | rfl
    · decide
    · exact this
  | none =>
    dsimp only
    split_ifs with hprint hsmall
    · intro other member
      rw [List.mem_singleton.mp member]
      exact hprint
    · exact printable_escapeUnit hsmall
    · apply printable_append.mpr
      exact ⟨printable_escapeUnit (by unfold highUnit; omega),
        printable_escapeUnit (by unfold lowUnit; omega)⟩

theorem printable_asciiQuote (text : Text) : Printable (asciiQuote text) := by
  have hquote : isPrintable quoteMark = true := by decide
  rw [asciiQuote, printable_cons, printable_append]
  refine ⟨hquote, ?_, List.forall_mem_singleton.mpr hquote⟩
  intro code member
  obtain ⟨original, _, inside⟩ := List.mem_flatMap.mp member
  exact printable_escapeAscii original code inside

theorem printable_integer (value : Int) : Printable (integer value) := by
  have hdigits (value : Nat) : Printable (decimal value) := by
    intro code member
    have := of_decide_eq_true (isDigit_of_mem_decimal member)
    exact decide_eq_true (by omega)
  cases value with
  | ofNat value => exact hdigits value
  | negSucc value => exact printable_cons.mpr ⟨by decide, hdigits (value + 1)⟩

theorem printable_word (word : String) (plain : word.toList.all (fun char =>
    isPrintable (CodePoint.ofChar char)) = true) : Printable (Text.ofString word) := by
  intro code member
  obtain ⟨char, hchar, rfl⟩ := List.mem_map.mp member
  exact List.all_eq_true.mp plain char hchar

theorem printable_dumps (doc : Doc) : Printable (dumps doc) := by
  have hcomma : isPrintable (CodePoint.ofChar ',') = true := by decide
  have hcolon : isPrintable (CodePoint.ofChar ':') = true := by decide
  have hblank : isPrintable (CodePoint.ofChar ' ') = true := by decide
  have hbracket : isPrintable (CodePoint.ofChar '[') = true ∧ isPrintable (CodePoint.ofChar ']') = true := by
    decide
  have hbrace : isPrintable (CodePoint.ofChar '\x7b') = true ∧
      isPrintable (CodePoint.ofChar '\x7d') = true := by decide
  induction doc with
  | null => exact printable_word "null" (by decide)
  | bool value =>
    cases value with
    | true => exact printable_word "true" (by decide)
    | false => exact printable_word "false" (by decide)
  | int value => exact printable_integer value
  | str value => exact printable_asciiQuote value
  | arr items ih =>
    have hitems : Printable (dumpsItems items) := by
      induction items with
      | nil => exact printable_cons.mpr ⟨hbracket.2, printable_nil⟩
      | cons item items tail =>
        have hitem := ih item (by simp)
        have htail := tail fun other member => ih other (List.mem_cons_of_mem _ member)
        cases items with
        | nil => exact printable_append.mpr ⟨hitem, htail⟩
        | cons next items =>
          rw [dumpsItems, printable_append, printable_cons, printable_cons]
          exact ⟨hitem, hcomma, hblank, htail⟩
    exact printable_cons.mpr ⟨hbracket.1, hitems⟩
  | obj members ih =>
    have hmembers : Printable (dumpsMembers members) := by
      induction members with
      | nil => exact printable_cons.mpr ⟨hbrace.2, printable_nil⟩
      | cons member members tail =>
        obtain ⟨key, value⟩ := member
        have hkey := printable_asciiQuote key
        have hvalue : Printable (dumps value) := ih (key, value) (by simp)
        have htail := tail fun other member => ih other (List.mem_cons_of_mem _ member)
        cases members with
        | nil =>
          rw [dumpsMembers, printable_append, printable_append, printable_cons, printable_cons]
          exact ⟨⟨hkey, hcolon, hblank, hvalue⟩, htail⟩
        | cons next members =>
          simp only [dumpsMembers, printable_append, printable_cons]
          exact ⟨⟨hkey, hcolon, hblank, hvalue⟩, hcomma, hblank, htail⟩
    exact printable_cons.mpr ⟨hbrace.1, hmembers⟩

/-- A document within the limits decodes to itself, joined. -/
theorem loads_dumps {doc : Doc} (writable : Writable limits limits.nesting doc) :
    loads limits (dumps doc) = .value (loaded doc) := by
  obtain ⟨code, more, same, visible, _⟩ := dumps_first doc
  have hmark : (dumps doc).head? ≠ some 0xFEFF := by
    intro marked
    have := printable_dumps doc _ (List.mem_of_head? marked)
    revert this
    decide
  have hread := readsBack limits doc (2 * (dumps doc).length + 2) limits.nesting [] writable
    stopsNumber_nil (by omega)
  have hskip : skipBlanks (dumps doc) = dumps doc := by
    rw [same]
    exact skipBlanks_cons more visible
  rw [List.append_nil] at hread
  rw [loads, if_neg hmark, hskip, hread]
  rfl

theorem dumpsMembers_last (members : List (Text × Doc)) :
    (dumpsMembers members).getLast? = some (CodePoint.ofChar '\x7d') := by
  induction members with
  | nil => rfl
  | cons member rest ih =>
    obtain ⟨key, value⟩ := member
    cases rest with
    | nil => rw [dumpsMembers, List.getLast?_concat]
    | cons next rest =>
      rw [dumpsMembers, List.getLast?_append, List.getLast?_cons_cons, List.getLast?_cons, ih]
      rfl

theorem loadedMembers_eq_map (members : List (Text × Doc)) :
    loadedMembers members = members.map fun member => (joined member.1, loaded member.2) := by
  induction members with
  | nil => rfl
  | cons member members ih =>
    obtain ⟨key, value⟩ := member
    rw [loadedMembers, ih, List.map_cons]

theorem mem_of_mem_assign {members : List (Text × JsonValue)} {member : Text × JsonValue}
    (kept : member ∈ assign members) : member ∈ members := by
  have hfold (before rest : List (Text × JsonValue))
      (kept : member ∈ rest.foldl (fun entries next => setEntry next.1 next.2 entries) before) :
      member ∈ before ∨ member ∈ rest := by
    induction rest generalizing before with
    | nil => exact .inl kept
    | cons next rest ih =>
      cases ih _ kept with
      | inr later => exact .inr (List.mem_cons_of_mem _ later)
      | inl earlier =>
        cases mem_of_mem_setEntry earlier with
        | inl same => exact .inr (by rw [same]; exact List.mem_cons_self)
        | inr earlier => exact .inl earlier
  exact (hfold [] members kept).resolve_left List.not_mem_nil

theorem assign_of_nodup {members : List (Text × JsonValue)}
    (distinct : (members.map Prod.fst).Nodup) : assign members = members :=
  foldl_setEntry [] members distinct

end Documents

end CodeCalc.Lib.JsonCodec
