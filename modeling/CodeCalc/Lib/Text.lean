import Mathlib.Data.List.DropRight
import Mathlib.Data.List.Lex
import Mathlib.Order.Fin.Basic
import Mathlib.Algebra.GroupWithZero.Nat
import Mathlib.Algebra.Ring.Int.Defs
import Mathlib.Data.Char
import Mathlib.Data.List.Infix

/-! Text as a sequence of Unicode code points, lone surrogates included, its
UTF-8 encoding, and decimal numerals.  A printer is studied through unique
reading: what it wrote in front of an arbitrary rest determines both. -/
namespace CodeCalc.Lib

abbrev CodePoint := Fin 0x110000

abbrev Text := List CodePoint

instance neZero_codePoint : NeZero 0x110000 := ⟨by decide⟩

instance lawfulBEq_codePoint : LawfulBEq CodePoint := inferInstance

instance lawfulBEq_text : LawfulBEq Text := inferInstance

namespace CodePoint

def ofChar (char : Char) : CodePoint :=
  ⟨char.toNat, by
    have h := char.valid
    simp only [UInt32.isValidChar, Nat.isValidChar, Char.toNat] at h ⊢
    omega⟩

instance : Coe Char CodePoint := ⟨ofChar⟩

theorem ofChar_injective : Function.Injective ofChar := by
  intro left right h
  apply Char.ext
  apply UInt32.toNat_inj.mp
  have hval : (ofChar left).val = (ofChar right).val := by rw [h]
  exact hval

@[simp] theorem ofChar_inj {left right : Char} : ofChar left = ofChar right ↔ left = right :=
  ofChar_injective.eq_iff

/-- The character of a code point; a surrogate has none. -/
def scalar (code : CodePoint) : Option Char :=
  if h : Nat.isValidChar code.val then some (Char.ofNatAux code.val h) else none

theorem scalar_eq_some {code : CodePoint} {char : Char} (h : code.scalar = some char) :
    ofChar char = code := by
  by_cases valid : Nat.isValidChar code.val
  · rw [scalar, dif_pos valid] at h
    cases h
    apply Fin.ext
    rfl
  · rw [scalar, dif_neg valid] at h
    cases h

/-- The bytes a code point takes in UTF-8; a lone surrogate counts three. -/
def utf8Size (code : CodePoint) : Nat :=
  if code.val < 0x80 then 1
  else if code.val < 0x800 then 2
  else if code.val < 0x10000 then 3
  else 4

end CodePoint

namespace Text

def utf8Size (text : Text) : Nat := (text.map CodePoint.utf8Size).sum

/-- The text of a sequence of UTF-16 code units, lone surrogates kept. -/
def ofUtf16 : List UInt16 → Text
  | [] => []
  | [unit] => [⟨unit.toNat, by have := unit.toNat_lt; omega⟩]
  | high :: low :: rest =>
      if h : 0xD800 ≤ high.toNat ∧ high.toNat ≤ 0xDBFF ∧ 0xDC00 ≤ low.toNat ∧ low.toNat ≤ 0xDFFF then
        ⟨0x10000 + (high.toNat - 0xD800) * 0x400 + (low.toNat - 0xDC00), by omega⟩ :: ofUtf16 rest
      else ⟨high.toNat, by have := high.toNat_lt; omega⟩ :: ofUtf16 (low :: rest)

def ofString (literal : String) : Text := literal.toList.map CodePoint.ofChar

/-- `text.encode("utf-8")`; `none` when a lone surrogate is in the way. -/
def utf8 (text : Text) : Option ByteArray :=
  (text.mapM CodePoint.scalar).map fun chars => (String.ofList chars).toUTF8

theorem utf8Size_cons (code : CodePoint) (text : Text) :
    utf8Size (code :: text) = code.utf8Size + utf8Size text := by
  rw [utf8Size, List.map_cons, List.sum_cons, ← utf8Size]

theorem utf8Size_append (left right : Text) : utf8Size (left ++ right) = utf8Size left + utf8Size right := by
  rw [utf8Size, List.map_append, List.sum_append, ← utf8Size, ← utf8Size]

private theorem map_ofChar_of_mapM {text : Text} {chars : List Char}
    (h : text.mapM CodePoint.scalar = some chars) : chars.map CodePoint.ofChar = text := by
  induction text generalizing chars with
  | nil =>
    cases h
    rfl
  | cons code rest ih =>
    simp only [List.mapM_cons, Option.bind_eq_bind, Option.bind_eq_some_iff] at h
    obtain ⟨char, hchar, tail, htail, h⟩ := h
    cases h
    rw [List.map_cons, CodePoint.scalar_eq_some hchar, ih htail]

theorem utf8_injective {left right : Text} {bytes : ByteArray} (hleft : left.utf8 = some bytes)
    (hright : right.utf8 = some bytes) : left = right := by
  obtain ⟨chars, hchars, rfl⟩ := Option.map_eq_some_iff.mp hleft
  obtain ⟨others, hothers, same⟩ := Option.map_eq_some_iff.mp hright
  have hlist : others = chars := String.ofList_injective (String.toByteArray_inj.mp same)
  rw [← map_ofChar_of_mapM hchars, ← map_ofChar_of_mapM hothers, hlist]

end Text

section Reading

variable {α β σ : Type}

/-- What `print` writes for `value` can be read back: in front of any rest that
`Stops` it determines the value and the rest. -/
def Reads (print : α → List σ) (Stops : List σ → Prop) (value : α) : Prop :=
  ∀ (other : α) (rest rest' : List σ), Stops rest → Stops rest' →
    print value ++ rest = print other ++ rest' → value = other ∧ rest = rest'

theorem Reads.eq_of_print_eq {print : α → List σ} {Stops : List σ → Prop} {value other : α}
    (reads : Reads print Stops value) (nil : Stops []) (same : print value = print other) :
    value = other :=
  (reads other [] [] nil nil (by rw [same])).1

/-- Texts joined by a separator, as `separator.join(texts)`. -/
def separated (separator : σ) : List (List σ) → List σ
  | [] => []
  | [text] => text
  | text :: next :: rest => text ++ separator :: separated separator (next :: rest)

/-- A joined and closed sequence reads back when its items do, the separator
and the closing mark stop an item, and no item begins with the closing mark. -/
theorem reads_separated {print : α → List σ} {Stops : List σ → Prop} {separator close : σ}
    (distinct : separator ≠ close) (stopsSeparator : ∀ rest, Stops (separator :: rest))
    (stopsClose : ∀ rest, Stops (close :: rest))
    (opens : ∀ value rest rest', print value ++ rest ≠ close :: rest') (items : List α)
    (reads : ∀ item ∈ items, Reads print Stops item) :
    Reads (fun values : List α => separated separator (values.map print) ++ [close])
      (fun _ => True) items := by
  induction items with
  | nil =>
    intro others rest rest' _ _ h
    match others with
    | [] => exact ⟨rfl, by simpa [separated] using h⟩
    | [other] => exact absurd (by simpa [separated] using h.symm) (opens other _ rest)
    | other :: _ :: _ => exact absurd (by simpa [separated] using h.symm) (opens other _ rest)
  | cons item items ih =>
    intro others rest rest' _ _ h
    have hitem := reads item (by simp)
    have htail := ih fun other member => reads other (by simp [member])
    match items, others with
    | [], [] => exact absurd (by simpa [separated] using h) (opens item _ rest')
    | _ :: _, [] => exact absurd (by simpa [separated] using h) (opens item _ rest')
    | [], [other] =>
      have hread := hitem other (close :: rest) (close :: rest') (stopsClose _) (stopsClose _)
        (by simpa [separated] using h)
      exact ⟨by rw [hread.1], (List.cons.inj hread.2).2⟩
    | [], other :: next :: others =>
      have hread := hitem other (close :: rest)
        (separator :: (separated separator ((next :: others).map print) ++ close :: rest'))
        (stopsClose _) (stopsSeparator _) (by simpa [separated] using h)
      exact absurd (List.cons.inj hread.2).1.symm distinct
    | next :: items, [other] =>
      have hread := hitem other
        (separator :: (separated separator ((next :: items).map print) ++ close :: rest))
        (close :: rest') (stopsSeparator _) (stopsClose _) (by simpa [separated] using h)
      exact absurd (List.cons.inj hread.2).1 distinct
    | next :: items, other :: next' :: others =>
      have hread := hitem other
        (separator :: (separated separator ((next :: items).map print) ++ close :: rest))
        (separator :: (separated separator ((next' :: others).map print) ++ close :: rest'))
        (stopsSeparator _) (stopsSeparator _) (by simpa [separated] using h)
      have hrest := htail (next' :: others) rest rest' trivial trivial
        (by simpa using (List.cons.inj hread.2).2)
      exact ⟨by rw [hread.1, hrest.1], hrest.2⟩

end Reading

section Lines

abbrev newline : CodePoint := CodePoint.ofChar '\n'

/-- `text.split("\n")`. -/
def splitLines (text : Text) : List Text := text.splitOn newline

/-- `"\n".join(lines)`. -/
def joinLines (lines : List Text) : Text := [newline].intercalate lines

theorem joinLines_splitLines (text : Text) : joinLines (splitLines text) = text :=
  List.intercalate_splitOn newline

theorem splitLines_injective : Function.Injective splitLines :=
  Function.LeftInverse.injective joinLines_splitLines

variable {code : CodePoint}

/-- Lines as they are written to a file, a line feed behind each. -/
def writeLines (lines : List Text) : Text := lines.flatMap fun line => line ++ [newline]

theorem writeLines_joinLines (lines : List Text) (last : Text) :
    writeLines lines ++ last = joinLines (lines ++ [last]) := by
  induction lines with
  | nil => simp [writeLines, joinLines]
  | cons line lines ih =>
    obtain ⟨next, rest, same⟩ := List.exists_cons_of_ne_nil
      (List.append_ne_nil_of_right_ne_nil lines (List.cons_ne_nil last []))
    rw [writeLines, List.flatMap_cons, ← writeLines, List.append_assoc, List.append_assoc, ih]
    simp [joinLines, List.intercalate, same]

/-- Splitting what was written gives the lines back, and what follows the last
line feed. -/
theorem splitLines_writeLines {lines : List Text} {last : Text}
    (whole : ∀ line ∈ lines, newline ∉ line) (open_ : newline ∉ last) :
    splitLines (writeLines lines ++ last) = lines ++ [last] := by
  rw [writeLines_joinLines]
  apply List.splitOn_intercalate
  · intro line member
    cases List.mem_append.mp member with
    | inl inside => exact whole line inside
    | inr final =>
      rw [List.mem_singleton.mp final]
      exact open_
  · simp

theorem writeLines_cons (line : Text) (rest : List Text) :
    writeLines (line :: rest) = line ++ newline :: writeLines rest := by
  rw [writeLines, List.flatMap_cons, ← writeLines, List.append_assoc]
  rfl

/-- A cut file: whole lines, and the beginning of the next. -/
theorem take_writeLines {lines : List Text} {count : Nat}
    (cut : count < (writeLines lines).length) :
    ∃ front line back last, lines = front ++ line :: back ∧ last <+: line ∧
      (writeLines lines).take count = writeLines front ++ last := by
  induction lines generalizing count with
  | nil => cases cut
  | cons line rest ih =>
    rw [writeLines_cons] at cut ⊢
    rw [List.length_append, List.length_cons] at cut
    by_cases inside : count ≤ line.length
    · refine ⟨[], line, rest, line.take count, rfl, List.take_prefix _ _, ?_⟩
      rw [List.take_append_of_le_length inside]
      rfl
    · obtain ⟨less, rfl⟩ : ∃ less, count = line.length + (less + 1) :=
        ⟨count - line.length - 1, by omega⟩
      obtain ⟨front, next, back, last, rfl, begins, same⟩ := @ih less (by omega)
      refine ⟨line :: front, next, back, last, rfl, begins, ?_⟩
      rw [List.take_length_add_append, List.take_succ_cons, same, writeLines_cons, List.append_assoc,
        List.cons_append]

/-- A character that ends a line for `str.splitlines()`. -/
def isLineBreak (code : CodePoint) : Bool :=
  decide ((10 ≤ code.val ∧ code.val ≤ 13) ∨ (28 ≤ code.val ∧ code.val ≤ 30) ∨ code.val = 0x85 ∨
    code.val = 0x2028 ∨ code.val = 0x2029)

/-- The lines still to come; `opened` when one has begun. -/
def countLines (opened : Bool) : Text → Nat
  | [] => opened.toNat
  | [_] => 1
  | code :: next :: rest =>
      if code.val = 13 ∧ next = newline then countLines false rest + 1
      else if isLineBreak code then countLines false (next :: rest) + 1
      else countLines true (next :: rest)

/-- `len(text.splitlines())`. -/
def lineCount (text : Text) : Nat := countLines false text

def linesBehind (opened : Text) : Text → List Text
  | [] => if opened.isEmpty then [] else [opened]
  | [code] => if isLineBreak code then [opened] else [opened ++ [code]]
  | code :: next :: rest =>
      if code.val = 13 ∧ next = newline then opened :: linesBehind [] rest
      else if isLineBreak code then opened :: linesBehind [] (next :: rest)
      else linesBehind (opened ++ [code]) (next :: rest)

/-- `text.splitlines()`. -/
def universalLines (text : Text) : List Text := linesBehind [] text

def isSpace (code : CodePoint) : Bool :=
  decide ((9 ≤ code.val ∧ code.val ≤ 13) ∨ (28 ≤ code.val ∧ code.val ≤ 32) ∨ code.val = 0x85 ∨
    code.val = 0xA0 ∨ code.val = 0x1680 ∨ (0x2000 ≤ code.val ∧ code.val ≤ 0x200A) ∨
    code.val = 0x2028 ∨ code.val = 0x2029 ∨ code.val = 0x202F ∨ code.val = 0x205F ∨
    code.val = 0x3000)

/-- `text.strip()`. -/
def stripSpace (text : Text) : Text := (text.dropWhile isSpace).rdropWhile isSpace

theorem stripSpace_eq_self {text : Text} (first : ∀ code ∈ text.head?, isSpace code = false)
    (last : ∀ code ∈ text.getLast?, isSpace code = false) : stripSpace text = text := by
  have hfront : text.dropWhile isSpace = text := by
    cases text with
    | nil => rfl
    | cons code rest => simp [first code rfl]
  rw [stripSpace, hfront, List.rdropWhile_eq_self_iff]
  intro nonempty
  rw [last _ (List.getLast?_eq_some_getLast nonempty)]
  decide

end Lines

section Decimal

/-- The decimal digits of a natural number, without leading zeros. -/
def decimal (value : Nat) : Text := (Nat.toDigits 10 value).map CodePoint.ofChar

/-- `str(value)` of an integer. -/
def integer : Int → Text
  | .ofNat value => decimal value
  | .negSucc value => '-' :: decimal (value + 1)

def isDigit (code : CodePoint) : Bool := decide (48 ≤ code.val ∧ code.val ≤ 57)

def StopsNumeral (rest : Text) : Prop := ∀ code, rest.head? = some code → isDigit code = false

theorem stopsNumeral_nil : StopsNumeral [] := by
  intro code h
  cases h

theorem stopsNumeral_cons {code : CodePoint} (rest : Text) (h : isDigit code = false) :
    StopsNumeral (code :: rest) := by
  intro other hother
  cases hother
  exact h

theorem isDigit_of_mem_decimal {value : Nat} {code : CodePoint} (h : code ∈ decimal value) :
    isDigit code = true := by
  obtain ⟨char, hchar, rfl⟩ := List.mem_map.mp h
  have hdigit := Nat.isDigit_of_mem_toDigits (by decide) (by decide) hchar
  simp only [Char.isDigit, Bool.and_eq_true, decide_eq_true_eq, ge_iff_le, UInt32.le_iff_toNat_le]
    at hdigit
  exact decide_eq_true hdigit

theorem decimal_ne_nil (value : Nat) : decimal value ≠ [] := by
  simp [decimal, Nat.toDigits_ne_nil]

theorem length_decimal_le {value digits : Nat} (positive : 0 < digits) (small : value < 10 ^ digits) :
    (decimal value).length ≤ digits := by
  rw [decimal, List.length_map]
  exact (Nat.length_toDigits_le_iff (by decide) positive).mpr small

theorem decimal_injective : Function.Injective decimal := by
  intro left right h
  have hdigits : Nat.toDigits 10 left = Nat.toDigits 10 right :=
    List.map_injective_iff.mpr CodePoint.ofChar_injective h
  rw [← Nat.ofDigitChars_ten_toDigits (n := left), hdigits, Nat.ofDigitChars_ten_toDigits]

theorem takeWhile_numeral {digits rest : Text} (hdigits : ∀ code ∈ digits, isDigit code)
    (stops : StopsNumeral rest) :
    (digits ++ rest).takeWhile isDigit = digits := by
  rw [List.takeWhile_append_of_pos hdigits]
  cases rest with
  | nil => simp
  | cons code rest => simp [stops code rfl]

theorem reads_decimal (value : Nat) : Reads decimal StopsNumeral value := by
  intro other rest rest' stops stops' h
  have hdigits : decimal value = decimal other := by
    rw [← takeWhile_numeral (fun _ => isDigit_of_mem_decimal) stops, h,
      takeWhile_numeral (fun _ => isDigit_of_mem_decimal) stops']
  exact ⟨decimal_injective hdigits, List.append_cancel_left (hdigits ▸ h)⟩

theorem integer_head (value : Int) :
    ∃ code rest, integer value = code :: rest ∧ (code = '-' ∨ isDigit code = true) := by
  cases value with
  | ofNat value =>
    obtain ⟨code, rest, h⟩ := List.exists_cons_of_ne_nil (decimal_ne_nil value)
    have hdigit : code ∈ decimal value := by simp [h]
    exact ⟨code, rest, h, .inr (isDigit_of_mem_decimal hdigit)⟩
  | negSucc value => exact ⟨'-', _, rfl, .inl rfl⟩

theorem reads_integer (value : Int) : Reads integer StopsNumeral value := by
  intro other rest rest' stops stops' h
  have sign : isDigit (CodePoint.ofChar '-') = false := by decide
  have noSign (digits : Nat) (tail : Text) :
      ∀ rest, decimal digits ++ rest ≠ CodePoint.ofChar '-' :: tail := by
    intro rest same
    obtain ⟨code, more, hcons⟩ := List.exists_cons_of_ne_nil (decimal_ne_nil digits)
    rw [hcons, List.cons_append] at same
    have hdigit : isDigit code = true := isDigit_of_mem_decimal (by rw [hcons]; simp)
    rw [(List.cons.inj same).1, sign] at hdigit
    cases hdigit
  cases value with
  | ofNat value =>
    cases other with
    | ofNat other =>
      obtain ⟨rfl, same⟩ := reads_decimal value other rest rest' stops stops' h
      exact ⟨rfl, same⟩
    | negSucc other => exact absurd h (noSign _ _ _)
  | negSucc value =>
    cases other with
    | ofNat other => exact absurd h.symm (noSign _ _ _)
    | negSucc other =>
      obtain ⟨hvalue, same⟩ := reads_decimal (value + 1) (other + 1) rest rest' stops stops'
        (List.cons.inj h).2
      exact ⟨by rw [Nat.succ.inj hvalue], same⟩

end Decimal

theorem mem_splitOnP {α : Type} {separates : α → Bool} {text part : List α}
    (member : part ∈ text.splitOnP separates) : (∀ code ∈ part, separates code = false) ∧ part ⊆ text := by
  induction text generalizing part with
  | nil =>
    rw [List.mem_singleton.mp member]
    exact ⟨(fun _ none => nomatch none), List.nil_subset _⟩
  | cons code rest ih =>
    rw [List.splitOnP_cons_eq_if_modifyHead] at member
    split at member
    · cases List.mem_cons.mp member with
      | inl empty =>
        rw [empty]
        exact ⟨(fun _ none => nomatch none), List.nil_subset _⟩
      | inr later => exact ⟨(ih later).1, List.subset_cons_of_subset _ (ih later).2⟩
    · rename_i different
      cases split : rest.splitOnP separates with
      | nil => exact absurd split (List.splitOnP_ne_nil _ _)
      | cons first others =>
        rw [split] at ih member
        cases List.mem_cons.mp member with
        | inl same =>
          obtain ⟨apart, inside⟩ := ih List.mem_cons_self
          rw [same]
          exact ⟨List.forall_mem_cons.mpr ⟨Bool.not_eq_true _ ▸ different, apart⟩,
            List.cons_subset_cons _ inside⟩
        | inr later =>
          obtain ⟨apart, inside⟩ := ih (List.mem_cons_of_mem _ later)
          exact ⟨apart, List.subset_cons_of_subset _ inside⟩

theorem mem_splitOn {α : Type} [DecidableEq α] {separator : α} {text part : List α}
    (member : part ∈ text.splitOn separator) : separator ∉ part ∧ part ⊆ text := by
  rw [List.splitOn_eq_splitOnP] at member
  obtain ⟨apart, inside⟩ := mem_splitOnP member
  exact ⟨fun found => by simpa using apart separator found, inside⟩

end CodeCalc.Lib
