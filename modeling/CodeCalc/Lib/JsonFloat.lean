import CodeCalc.Lib.JsonRoundTrip
import CodeCalc.Lib.ShortestDecimal

/-! A float's text, `repr(float)`, and how the decoder reads it: the numeral of
the text has the value of the shortest decimal, so it is the same double. -/
namespace CodeCalc.Lib

namespace Numeral

/-- The value without its sign. -/
def magnitude (numeral : Numeral) : ℚ := numeral.coefficient * 10 ^ numeral.scale

def value (numeral : Numeral) : ℚ :=
  if numeral.negative then -numeral.magnitude else numeral.magnitude

end Numeral

namespace JsonCodec

section Rows

variable {row rest : Text}

/-- A number's integral digits: at least one, and no zero in front of another. -/
def IsWhole (row : Text) : Prop :=
  (∀ code ∈ row, isDigit code = true) ∧ ∃ code more, row = code :: more ∧
    (code = CodePoint.ofChar '0' → more = [])

theorem dropWhile_numeral (digits : ∀ code ∈ row, isDigit code = true) (stops : StopsNumeral rest) :
    (row ++ rest).dropWhile isDigit = rest := by
  rw [List.dropWhile_append_of_pos digits]
  cases rest with
  | nil => rfl
  | cons code rest => simp [stops code rfl]

theorem integral_row (whole : IsWhole row) (stops : StopsNumeral rest) :
    integral (row ++ rest) = (row, rest) := by
  obtain ⟨digits, code, more, rfl, zero⟩ := whole
  have taken := takeWhile_numeral digits stops
  have dropped := dropWhile_numeral digits stops
  rw [List.cons_append] at taken dropped ⊢
  rw [integral]
  split_ifs with first
  · rw [zero first, List.nil_append]
  · rw [taken, dropped]

theorem fraction_row (nonempty : row ≠ []) (digits : ∀ code ∈ row, isDigit code = true)
    (stops : StopsNumeral rest) :
    fraction (CodePoint.ofChar '.' :: (row ++ rest)) = (row, rest) := by
  rw [fraction, takeWhile_numeral digits stops, dropWhile_numeral digits stops,
    if_pos ⟨rfl, nonempty⟩]

theorem digitsValue_foldl (row : Text) (init : Nat) :
    row.foldl (fun value code => value * 10 + (code.val - 48)) init =
      init * 10 ^ row.length + digitsValue row := by
  induction row generalizing init with
  | nil => simp [digitsValue]
  | cons code row ih =>
    rw [digitsValue, List.foldl_cons, List.foldl_cons, ih, ih (0 * 10 + _), List.length_cons]
    ring

theorem digitsValue_append (left right : Text) :
    digitsValue (left ++ right) = digitsValue left * 10 ^ right.length + digitsValue right := by
  rw [digitsValue, List.foldl_append, digitsValue_foldl]
  rfl

def zeros (count : Nat) : Text := List.replicate count (CodePoint.ofChar '0')

theorem digitsValue_zeros (count : Nat) : digitsValue (zeros count) = 0 := by
  induction count with
  | zero => rfl
  | succ count ih =>
    rw [zeros, List.replicate_succ, digitsValue, List.foldl_cons]
    exact ih

theorem isDigit_of_mem_zeros {count : Nat} {code : CodePoint} (member : code ∈ zeros count) :
    isDigit code = true := by
  rw [List.eq_of_mem_replicate member]
  decide

end Rows

section Printing

/-- `e`, the sign, and two digits at least. -/
def exponentText (exponent : Int) : Text :=
  let digits := decimal exponent.natAbs
  CodePoint.ofChar 'e' :: CodePoint.ofChar (if exponent < 0 then '-' else '+') ::
    (zeros (2 - digits.length) ++ digits)

/-- `repr` of a float with these digits: an exponent from `1e16` on and below
`1e-4`, and a point in any case without one. -/
def reprDecimal (coefficient : Nat) (place : Int) : Text :=
  let digits := decimal coefficient
  let point := place + digits.length
  if point ≤ -4 ∨ 16 < point then
    digits.take 1 ++ (if digits.length = 1 then [] else CodePoint.ofChar '.' :: digits.drop 1) ++
      exponentText (point - 1)
  else if point ≤ 0 then
    CodePoint.ofChar '0' :: CodePoint.ofChar '.' :: (zeros (-point).toNat ++ digits)
  else if 0 ≤ place then
    digits ++ zeros place.toNat ++ [CodePoint.ofChar '.', CodePoint.ofChar '0']
  else digits.take point.toNat ++ CodePoint.ofChar '.' :: digits.drop point.toNat

def printedDecimal (double : ℚ) : Nat × Int :=
  if double = 0 then (0, 0) else (shortestCoefficient double, shortestPlace double)

/-- `json.dumps(float(numeral))`. -/
def floatText (numeral : Numeral) : Text :=
  (if numeral.negative then [CodePoint.ofChar '-'] else []) ++
    match nearestDouble numeral.magnitude with
    | some double => reprDecimal (printedDecimal double).1 (printedDecimal double).2
    | none => Text.ofString "Infinity"

end Printing

section Reading

variable {limits : Limits} {row rest : Text} {negative : Bool}

theorem exponent_text (power : Int) (stops : StopsNumeral rest) :
    exponent (exponentText power ++ rest) = (some power, rest) := by
  have digits : ∀ code ∈ zeros (2 - (decimal power.natAbs).length) ++ decimal power.natAbs,
      isDigit code = true := by
    intro code member
    rcases List.mem_append.mp member with zero | digit
    · exact isDigit_of_mem_zeros zero
    · exact isDigit_of_mem_decimal digit
  have taken := takeWhile_numeral digits stops
  have dropped := dropWhile_numeral digits stops
  have nonempty : zeros (2 - (decimal power.natAbs).length) ++ decimal power.natAbs ≠ [] :=
    List.append_ne_nil_of_right_ne_nil _ (decimal_ne_nil _)
  have value : digitsValue (zeros (2 - (decimal power.natAbs).length) ++ decimal power.natAbs) =
      power.natAbs := by
    rw [digitsValue_append, digitsValue_zeros, zero_mul, zero_add, digitsValue_decimal]
  have plus : CodePoint.ofChar '+' ≠ CodePoint.ofChar '-' := by decide
  rw [exponentText]
  simp only [List.cons_append]
  rw [exponent]
  by_cases sign : power < 0
  · have same : -(power.natAbs : Int) = power := by omega
    simp only [sign, if_true, exponentSign, taken, dropped, value, true_or, true_and,
      ne_eq, nonempty, not_false_eq_true, same]
  · have same : (power.natAbs : Int) = power := by omega
    simp only [sign, if_false, exponentSign, plus, if_true, taken, dropped, value, true_or, true_and,
      ne_eq, nonempty, not_false_eq_true, same, Bool.false_eq_true]

theorem readNumber_fraction {decimals tail : Text} {power : Option Int} (whole : IsWhole row)
    (nonempty : decimals ≠ []) (digits : ∀ code ∈ decimals, isDigit code = true)
    (stops : StopsNumeral tail) (read : exponent tail = (power, rest)) :
    readNumber limits negative (row ++ CodePoint.ofChar '.' :: (decimals ++ tail)) =
      .value (.float ⟨negative, digitsValue (row ++ decimals), power.getD 0 - decimals.length⟩) rest := by
  have point : StopsNumeral (CodePoint.ofChar '.' :: (decimals ++ tail)) :=
    stopsNumeral_cons _ (by decide)
  obtain ⟨code, more, first, -⟩ := whole.2
  have begun : row ≠ [] := by
    rw [first]
    exact List.cons_ne_nil _ _
  simp only [readNumber, integral_row whole point, fraction_row nonempty digits stops, read, begun,
    nonempty, false_and, if_false]

theorem readNumber_exponent {tail : Text} {power : Int} (whole : IsWhole row)
    (stops : StopsNumeral tail) (pointless : fraction tail = ([], tail))
    (read : exponent tail = (some power, rest)) :
    readNumber limits negative (row ++ tail) =
      .value (.float ⟨negative, digitsValue row, power⟩) rest := by
  obtain ⟨code, more, first, -⟩ := whole.2
  have begun : row ≠ [] := by
    rw [first]
    exact List.cons_ne_nil _ _
  simp only [readNumber, integral_row whole stops, pointless, read, begun, reduceCtorEq, and_false,
    if_false, List.append_nil, Option.getD_some, List.length_nil, Nat.cast_zero, sub_zero]

theorem isWhole_zero : IsWhole [CodePoint.ofChar '0'] :=
  ⟨fun _ => @isDigit_of_mem_zeros 1 _, _, _, rfl, fun _ => rfl⟩

theorem isWhole_append {coefficient : Nat} (positive : 0 < coefficient) (count : Nat) :
    IsWhole (decimal coefficient ++ zeros count) := by
  refine ⟨?_, ?_⟩
  · intro code member
    rcases List.mem_append.mp member with digit | zero
    · exact isDigit_of_mem_decimal digit
    · exact isDigit_of_mem_zeros zero
  · obtain ⟨code, more, same, nonzero⟩ := decimal_head positive
    rw [same]
    exact ⟨code, _, rfl, fun zero => absurd zero nonzero⟩

theorem isWhole_take {coefficient count : Nat} (positive : 0 < coefficient) (some : 0 < count) :
    IsWhole ((decimal coefficient).take count) := by
  refine ⟨fun code member => isDigit_of_mem_decimal (List.mem_of_mem_take member), ?_⟩
  obtain ⟨code, more, same, nonzero⟩ := decimal_head positive
  obtain ⟨less, rfl⟩ : ∃ less, count = less + 1 := ⟨count - 1, by omega⟩
  rw [same, List.take_succ_cons]
  exact ⟨code, _, rfl, fun zero => absurd zero nonzero⟩

/-- The numeral of a float's text. -/
def rereadDecimal (negative : Bool) (coefficient : Nat) (place : Int) : Numeral :=
  let point := place + (decimal coefficient).length
  if ¬ (point ≤ -4 ∨ 16 < point) ∧ 0 ≤ place then
    ⟨negative, coefficient * 10 ^ (place.toNat + 1), -1⟩
  else ⟨negative, coefficient, place⟩

theorem magnitude_rereadDecimal (negative : Bool) (coefficient : Nat) (place : Int) :
    (rereadDecimal negative coefficient place).magnitude = coefficient * 10 ^ place := by
  unfold rereadDecimal
  dsimp only
  split_ifs with fixed
  · have split : place = (place.toNat + 1 : ℕ) + (-1) := by omega
    rw [Numeral.magnitude]
    conv_rhs => rw [split, zpow_add₀ (by norm_num), zpow_natCast]
    push_cast
    ring
  · rfl

theorem positive_of_proper {coefficient : Nat} {place : Int}
    (proper : 0 < coefficient ∨ coefficient = 0 ∧ place = 0)
    (other : place + (decimal coefficient).length ≠ 1) : 0 < coefficient := by
  rcases proper with positive | ⟨rfl, rfl⟩
  · exact positive
  · exact absurd rfl other

theorem readNumber_reprDecimal {coefficient : Nat} {place : Int}
    (proper : 0 < coefficient ∨ coefficient = 0 ∧ place = 0) (stops : StopsNumber rest) :
    readNumber limits negative (reprDecimal coefficient place ++ rest) =
      .value (.float (rereadDecimal negative coefficient place)) rest := by
  have digits : ∀ code ∈ decimal coefficient, isDigit code = true := fun _ => isDigit_of_mem_decimal
  have ending := exponent_stops stops
  have marked (power : Int) : exponent (exponentText power ++ rest) = (some power, rest) :=
    exponent_text power stops.numeral
  have unmarked (power : Int) : StopsNumeral (exponentText power ++ rest) :=
    stopsNumeral_cons _ (by decide)
  have value := digitsValue_decimal coefficient
  have long : 0 < (decimal coefficient).length := List.length_pos_iff.mpr (decimal_ne_nil _)
  generalize hpoint : place + (decimal coefficient).length = point
  have proper' := positive_of_proper proper
  rw [hpoint] at proper'
  unfold reprDecimal rereadDecimal
  dsimp only
  rw [hpoint]
  by_cases scientific : point ≤ -4 ∨ 16 < point
  · have unfixed : ¬(¬(point ≤ -4 ∨ 16 < point) ∧ 0 ≤ place) := fun fixed => fixed.1 scientific
    rw [if_pos scientific, if_neg unfixed]
    have whole := isWhole_take (proper' (by omega)) Nat.zero_lt_one
    by_cases single : (decimal coefficient).length = 1
    · have read := @readNumber_exponent limits _ rest negative _ _ whole (unmarked (point - 1)) rfl
        (marked (point - 1))
      have scale : point - 1 = place := by omega
      rw [List.take_of_length_le single.le, value, scale] at read
      rw [if_pos single, List.append_nil, List.take_of_length_le single.le, scale, List.append_assoc]
      exact read
    · have read := @readNumber_fraction limits _ rest negative ((decimal coefficient).drop 1) _ _ whole
        (by rw [ne_eq, List.drop_eq_nil_iff]; omega)
        (fun code member => digits code (List.mem_of_mem_drop member))
        (unmarked (point - 1)) (marked (point - 1))
      have scale : (some (point - 1)).getD 0 - ((decimal coefficient).drop 1).length = place := by
        rw [Option.getD_some, List.length_drop]
        omega
      rw [List.take_append_drop, value, scale] at read
      rw [if_neg single, List.append_assoc, List.append_assoc, List.cons_append]
      exact read
  · rw [if_neg scientific]
    by_cases small : point ≤ 0
    · have unfixed : ¬(¬(point ≤ -4 ∨ 16 < point) ∧ 0 ≤ place) := by omega
      have row : ∀ code ∈ zeros (-point).toNat ++ decimal coefficient, isDigit code = true := by
        intro code member
        rcases List.mem_append.mp member with zero | digit
        · exact isDigit_of_mem_zeros zero
        · exact digits code digit
      have read := @readNumber_fraction limits _ rest negative _ rest none isWhole_zero
        (List.append_ne_nil_of_right_ne_nil (zeros (-point).toNat) (decimal_ne_nil coefficient)) row
        stops.numeral ending
      have scale : (none : Option Int).getD 0 - (zeros (-point).toNat ++ decimal coefficient).length =
          place := by
        rw [Option.getD_none, List.length_append, zeros, List.length_replicate]
        omega
      have zero : digitsValue [CodePoint.ofChar '0'] = 0 := rfl
      rw [digitsValue_append, digitsValue_append, digitsValue_zeros, zero, value, zero_mul, zero_mul,
        zero_add, zero_add, scale] at read
      rw [if_pos small, if_neg unfixed]
      exact read
    · rw [if_neg small]
      by_cases fixed : 0 ≤ place
      · have whole : IsWhole (decimal coefficient ++ zeros place.toNat) := by
          rcases proper with positive | ⟨rfl, rfl⟩
          · exact isWhole_append positive _
          · exact isWhole_zero
        have read := @readNumber_fraction limits _ rest negative (zeros 1) rest none whole
          (List.cons_ne_nil _ _) (fun _ => isDigit_of_mem_zeros) stops.numeral ending
        have shift : digitsValue (decimal coefficient ++ zeros place.toNat ++ zeros 1) =
            coefficient * 10 ^ (place.toNat + 1) := by
          rw [digitsValue_append, digitsValue_append, digitsValue_zeros, digitsValue_zeros, value]
          simp only [zeros, List.length_replicate]
          ring
        rw [shift] at read
        rw [if_pos fixed, if_pos ⟨scientific, fixed⟩, List.append_assoc]
        exact read
      · have unfixed : ¬(¬(point ≤ -4 ∨ 16 < point) ∧ 0 ≤ place) := fun both => fixed both.2
        have whole : IsWhole ((decimal coefficient).take point.toNat) := by
          apply isWhole_take _ (by omega)
          rcases proper with positive | ⟨-, rfl⟩
          · exact positive
          · exact absurd le_rfl fixed
        have read := @readNumber_fraction limits _ rest negative ((decimal coefficient).drop point.toNat)
          rest none whole (by rw [ne_eq, List.drop_eq_nil_iff]; omega)
          (fun code member => digits code (List.mem_of_mem_drop member)) stops.numeral ending
        have scale : (none : Option Int).getD 0 - ((decimal coefficient).drop point.toNat).length =
            place := by
          rw [Option.getD_none, List.length_drop]
          omega
        rw [List.take_append_drop, value, scale] at read
        rw [if_neg fixed, if_neg unfixed, List.append_assoc, List.cons_append]
        exact read

theorem printedDecimal_proper {double : ℚ} (nonnegative : 0 ≤ double)
    (own : nearestDouble double = some double) :
    0 < (printedDecimal double).1 ∨ (printedDecimal double).1 = 0 ∧ (printedDecimal double).2 = 0 := by
  unfold printedDecimal
  split_ifs with zero
  · exact .inr ⟨rfl, rfl⟩
  · left
    have positive := nonnegative.lt_of_ne' zero
    have reads := (shortest_spec positive own).reads
    by_contra none
    rw [show shortestCoefficient double = 0 from Nat.eq_zero_of_not_pos none, Nat.cast_zero, zero_mul, nearestDouble_eq_some, rounded_zero]
      at reads
    exact zero reads.1.symm

/-- What a float's text is read as. -/
def reread (numeral : Numeral) : JsonValue :=
  match nearestDouble numeral.magnitude with
  | some double =>
      .float (rereadDecimal numeral.negative (printedDecimal double).1 (printedDecimal double).2)
  | none => .infinity numeral.negative

theorem reprDecimal_first (coefficient : Nat) (place : Int) :
    ∃ code more, reprDecimal coefficient place = code :: more ∧ isDigit code = true := by
  obtain ⟨code, more, same⟩ := List.exists_cons_of_ne_nil (decimal_ne_nil coefficient)
  have digit : isDigit code = true := isDigit_of_mem_decimal (by rw [same]; exact List.mem_cons_self)
  unfold reprDecimal
  dsimp only
  rw [same]
  split_ifs with scientific single small fixed
  · exact ⟨code, _, rfl, digit⟩
  · exact ⟨code, _, rfl, digit⟩
  · exact ⟨CodePoint.ofChar '0', _, rfl, by decide⟩
  · exact ⟨code, _, rfl, digit⟩
  · obtain ⟨count, least⟩ : ∃ count, (place + ((code :: more).length : ℕ)).toNat = count + 1 :=
      ⟨(place + ((code :: more).length : ℕ)).toNat - 1, by omega⟩
    rw [least, List.take_succ_cons]
    exact ⟨code, _, rfl, digit⟩

end Reading

end JsonCodec

end CodeCalc.Lib
