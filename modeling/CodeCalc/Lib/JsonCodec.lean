import CodeCalc.Lib.Text
import CodeCalc.Lib.Tree
import CodeCalc.Lib.Dict

/-! JSON as a decoder with limits reads it and an ASCII-only encoder writes it.
A text is read, or is no JSON, or runs into a limit: the nesting the decoder's
stack allows, or the digits an integer may have.  What the encoder writes is
read back, up to a pair of surrogates that the decoder joins. -/
namespace CodeCalc.Lib

/-- The decimal value `coefficient * 10 ^ scale` with a sign. -/
structure Numeral where
  negative : Bool
  coefficient : Nat
  scale : Int
  deriving DecidableEq, Repr

namespace Numeral

/-- `float(numeral) == 0`: at most half of the least positive double. -/
def isZero (numeral : Numeral) : Bool :=
  match numeral.scale with
  | .ofNat _ => decide (numeral.coefficient = 0)
  | .negSucc scale => decide (numeral.coefficient * 2 ^ 1075 ≤ 10 ^ (scale + 1))

end Numeral

/-- A decoded document.  A float is kept as the decimal value it was read
from. -/
inductive JsonValue where
  | null
  | bool (value : Bool)
  | int (value : Int)
  | float (value : Numeral)
  | nan
  | infinity (negative : Bool)
  | str (value : Text)
  | arr (items : List JsonValue)
  | obj (members : List (Text × JsonValue))

namespace JsonCodec

structure Limits where
  nesting : Nat
  digits : Nat

/-- A limit a text can run into. -/
inductive Failure where
  | recursion
  | digits
  deriving DecidableEq, Repr

inductive Read (α : Type) where
  | value (result : α) (rest : Text)
  | malformed
  | failed (failure : Failure)
  /-- The fuel was too small for the text. -/
  | spent

namespace Read

def map {α β : Type} (f : α → β) : Read α → Read β
  | value result rest => value (f result) rest
  | malformed => malformed
  | failed failure => failed failure
  | spent => spent

def andThen {α β : Type} (read : Read α) (next : α → Text → Read β) : Read β :=
  match read with
  | value result rest => next result rest
  | malformed => malformed
  | failed failure => failed failure
  | spent => spent

def ofOption {α : Type} : Option (α × Text) → Read α
  | some (result, rest) => value result rest
  | none => malformed

theorem map_eq_value {α β : Type} {f : α → β} {read : Read α} {result : β} {rest : Text}
    (h : read.map f = value result rest) : ∃ before, read = value before rest ∧ result = f before := by
  cases read with
  | value before after =>
    cases h
    exact ⟨before, rfl, rfl⟩
  | _ => cases h

theorem andThen_eq_value {α β : Type} {read : Read α} {next : α → Text → Read β} {result : β}
    {rest : Text} (h : read.andThen next = value result rest) :
    ∃ before middle, read = value before middle ∧ next before middle = value result rest := by
  cases read with
  | value before middle => exact ⟨before, middle, rfl, h⟩
  | _ => cases h

theorem ofOption_eq_value {α : Type} {read : Option (α × Text)} {result : α} {rest : Text}
    (h : ofOption read = value result rest) : read = some (result, rest) := by
  cases read with
  | none => cases h
  | some pair =>
    cases h
    rfl

theorem map_ne_spent {α β : Type} {f : α → β} {read : Read α} (settles : read ≠ spent) :
    read.map f ≠ spent := by
  cases read with
  | spent => exact absurd rfl settles
  | _ => simp [map]

theorem andThen_ne_spent {α β : Type} {read : Read α} {next : α → Text → Read β}
    (settles : read ≠ spent)
    (continues : ∀ result rest, read = value result rest → next result rest ≠ spent) :
    read.andThen next ≠ spent := by
  cases read with
  | spent => exact absurd rfl settles
  | value result rest => exact continues result rest rfl
  | _ => simp [andThen]

theorem ofOption_ne_spent {α : Type} (read : Option (α × Text)) : ofOption read ≠ spent := by
  cases read <;> simp [ofOption]

end Read

section Characters

abbrev quoteMark : CodePoint := CodePoint.ofChar '"'

abbrev backslash : CodePoint := CodePoint.ofChar '\\'

def isBlank (code : CodePoint) : Bool :=
  code ∈ [CodePoint.ofChar ' ', CodePoint.ofChar '\t', CodePoint.ofChar '\n', CodePoint.ofChar '\r']

def skipBlanks (text : Text) : Text := text.dropWhile isBlank

/-- A hexadecimal digit of either case. -/
def hexValue (code : CodePoint) : Option Nat :=
  if 48 ≤ code.val ∧ code.val ≤ 57 then some (code.val - 48)
  else if 65 ≤ code.val ∧ code.val ≤ 70 then some (code.val - 55)
  else if 97 ≤ code.val ∧ code.val ≤ 102 then some (code.val - 87)
  else none

instance neZero_unit : NeZero 0x10000 := ⟨by decide⟩

def hexFour (first second third fourth : CodePoint) : Option (Fin 0x10000) := do
  let a ← hexValue first
  let b ← hexValue second
  let c ← hexValue third
  let d ← hexValue fourth
  pure (Fin.ofNat 0x10000 (((a * 16 + b) * 16 + c) * 16 + d))

/-- The character of an escape that is not `\u`. -/
def shortEscape (kind : CodePoint) : Option CodePoint :=
  entryOf kind
    [(quoteMark, quoteMark), (backslash, backslash), (CodePoint.ofChar '/', CodePoint.ofChar '/'),
      (CodePoint.ofChar 'b', 8), (CodePoint.ofChar 'f', 12), (CodePoint.ofChar 'n', 10),
      (CodePoint.ofChar 'r', 13), (CodePoint.ofChar 't', 9)]

end Characters

section Strings

/-- A character of a string as it was written: itself, or a `\u` escape. -/
inductive Piece where
  | plain (code : CodePoint)
  | unit (value : Fin 0x10000)
  deriving DecidableEq

def readPieces : Text → Option (List Piece × Text)
  | [] => none
  | code :: rest =>
      if code = quoteMark then some ([], rest)
      else if code = backslash then
        match rest with
        | kind :: rest =>
            if kind = CodePoint.ofChar 'u' then
              match rest with
              | first :: second :: third :: fourth :: rest => do
                  let value ← hexFour first second third fourth
                  let (pieces, rest) ← readPieces rest
                  pure (.unit value :: pieces, rest)
              | _ => none
            else do
              let escaped ← shortEscape kind
              let (pieces, rest) ← readPieces rest
              pure (.plain escaped :: pieces, rest)
        | [] => none
      else if code.val < 32 then none
      else do
        let (pieces, rest) ← readPieces rest
        pure (.plain code :: pieces, rest)

def isHigh (value : Nat) : Bool := decide (0xD800 ≤ value ∧ value ≤ 0xDBFF)

def isLow (value : Nat) : Bool := decide (0xDC00 ≤ value ∧ value ≤ 0xDFFF)

def joinSurrogates (high low : Nat) : CodePoint :=
  Fin.ofNat 0x110000 (0x10000 + (high - 0xD800) * 0x400 + (low - 0xDC00))

/-- A `\u` escape of a high surrogate and one of a low surrogate right behind it
are one character. -/
def joinPieces : List Piece → Text
  | [] => []
  | .plain code :: rest => code :: joinPieces rest
  | [.unit value] => [Fin.ofNat 0x110000 value.val]
  | .unit high :: .unit low :: rest =>
      if isHigh high.val && isLow low.val then joinSurrogates high.val low.val :: joinPieces rest
      else Fin.ofNat 0x110000 high.val :: joinPieces (.unit low :: rest)
  | .unit value :: .plain code :: rest =>
      Fin.ofNat 0x110000 value.val :: code :: joinPieces rest

def readString (text : Text) : Option (Text × Text) :=
  (readPieces text).map fun (pieces, rest) => (joinPieces pieces, rest)

end Strings

section Numbers

def digitsValue (digits : Text) : Nat :=
  digits.foldl (fun value code => value * 10 + (code.val - 48)) 0

/-- The digits of the fraction at the front of a text: a point and at least one
digit. -/
def fraction (text : Text) : Text × Text :=
  match text with
  | point :: rest =>
      if point = CodePoint.ofChar '.' ∧ rest.takeWhile isDigit ≠ [] then
        (rest.takeWhile isDigit, rest.dropWhile isDigit)
      else ([], text)
  | [] => ([], [])

/-- Whether an exponent's digits have a minus in front of them. -/
def exponentSign (text : Text) : Bool × Text :=
  match text with
  | code :: rest =>
      if code = CodePoint.ofChar '-' then (true, rest)
      else if code = CodePoint.ofChar '+' then (false, rest)
      else (false, text)
  | [] => (false, [])

/-- An exponent: `e`, a sign or none, and at least one digit. -/
def exponent (text : Text) : Option Int × Text :=
  match text with
  | mark :: rest =>
      let (negative, digits) := exponentSign rest
      if (mark = CodePoint.ofChar 'e' ∨ mark = CodePoint.ofChar 'E') ∧ digits.takeWhile isDigit ≠ [] then
        let power : Int := digitsValue (digits.takeWhile isDigit)
        (some (if negative then -power else power), digits.dropWhile isDigit)
      else (none, text)
  | [] => (none, [])

/-- The integral part of a number: a zero, or digits that begin with another. -/
def integral (text : Text) : Text × Text :=
  match text with
  | code :: rest =>
      if code = CodePoint.ofChar '0' then ([code], rest)
      else (text.takeWhile isDigit, text.dropWhile isDigit)
  | [] => ([], [])

/-- A numeral without its sign. -/
def readNumber (limits : Limits) (negative : Bool) (text : Text) : Read JsonValue :=
  let (digits, rest) := integral text
  if digits = [] then .malformed
  else
    let (decimals, rest) := fraction rest
    let (power, rest) := exponent rest
    if decimals = [] ∧ power = none then
      if limits.digits < digits.length then .failed .digits
      else
        let value : Int := digitsValue digits
        .value (.int (if negative then -value else value)) rest
    else
      .value (.float ⟨negative, digitsValue (digits ++ decimals), power.getD 0 - decimals.length⟩) rest

end Numbers

section Values

def words : List (Text × JsonValue) :=
  [(Text.ofString "null", .null), (Text.ofString "true", .bool true),
    (Text.ofString "false", .bool false), (Text.ofString "NaN", .nan),
    (Text.ofString "Infinity", .infinity false), (Text.ofString "-Infinity", .infinity true)]

def readWord (text : Text) : Option (JsonValue × Text) :=
  (words.find? fun word => word.1.isPrefixOf text).map fun word =>
    (word.2, text.drop word.1.length)

/-- A dictionary built by assignment, later members over earlier ones. -/
def assign (members : List (Text × JsonValue)) : List (Text × JsonValue) :=
  members.foldl (fun entries member => setEntry member.1 member.2 entries) []

mutual

def readValue (limits : Limits) : Nat → Nat → Text → Read JsonValue
  | 0, _, _ => .spent
  | fuel + 1, depth, text =>
      match text with
      | [] => .malformed
      | code :: rest =>
          if code = quoteMark then (Read.ofOption (readString rest)).map .str
          else if code = CodePoint.ofChar '{' then
            match depth with
            | 0 => .failed .recursion
            | depth + 1 =>
                match skipBlanks rest with
                | [] => .malformed
                | next :: after =>
                    if next = CodePoint.ofChar '}' then .value (.obj []) after
                    else (readMembers limits fuel depth (next :: after)).map fun members =>
                      .obj (assign members)
          else if code = CodePoint.ofChar '[' then
            match depth with
            | 0 => .failed .recursion
            | depth + 1 =>
                match skipBlanks rest with
                | [] => .malformed
                | next :: after =>
                    if next = CodePoint.ofChar ']' then .value (.arr []) after
                    else (readItems limits fuel depth (next :: after)).map .arr
          else match readWord (code :: rest) with
            | some (word, after) => .value word after
            | none =>
                if code = CodePoint.ofChar '-' then readNumber limits true rest
                else readNumber limits false (code :: rest)

/-- The items of an array from one item on, to the closing bracket. -/
def readItems (limits : Limits) : Nat → Nat → Text → Read (List JsonValue)
  | 0, _, _ => .spent
  | fuel + 1, depth, text =>
      (readValue limits fuel depth text).andThen fun item rest =>
        match skipBlanks rest with
        | [] => .malformed
        | code :: rest =>
            if code = CodePoint.ofChar ']' then .value [item] rest
            else if code = CodePoint.ofChar ',' then
              (readItems limits fuel depth (skipBlanks rest)).map fun items => item :: items
            else .malformed

/-- The members of an object from one key on, to the closing brace. -/
def readMembers (limits : Limits) : Nat → Nat → Text → Read (List (Text × JsonValue))
  | 0, _, _ => .spent
  | fuel + 1, depth, text =>
      match text with
      | [] => .malformed
      | mark :: rest =>
          if mark ≠ quoteMark then .malformed
          else (Read.ofOption (readString rest)).andThen fun key rest =>
            match skipBlanks rest with
            | [] => .malformed
            | colon :: rest =>
                if colon ≠ CodePoint.ofChar ':' then .malformed
                else (readValue limits fuel depth (skipBlanks rest)).andThen fun value rest =>
                  match skipBlanks rest with
                  | [] => .malformed
                  | code :: rest =>
                      if code = CodePoint.ofChar '}' then .value [(key, value)] rest
                      else if code = CodePoint.ofChar ',' then
                        (readMembers limits fuel depth (skipBlanks rest)).map fun members =>
                          (key, value) :: members
                      else .malformed

end

/-- How reading a whole text ends. -/
inductive Decoded where
  | value (result : JsonValue)
  | malformed
  | failed (failure : Failure)

/-- A document with blanks around it and nothing else; no text has more values
one inside another than it has characters. -/
def loads (limits : Limits) (text : Text) : Decoded :=
  if text.head? = some 0xFEFF then .malformed
  else match readValue limits (2 * text.length + 2) limits.nesting (skipBlanks text) with
    | .value result rest => if skipBlanks rest = [] then .value result else .malformed
    | .failed failure => .failed failure
    | .malformed | .spent => .malformed

end Values

section Progress

variable {limits : Limits} {text rest : Text}

theorem length_skipBlanks_le (text : Text) : (skipBlanks text).length ≤ text.length :=
  (List.dropWhile_suffix isBlank).length_le

theorem readPieces_length {pieces : List Piece} (h : readPieces text = some (pieces, rest)) :
    rest.length < text.length := by
  fun_induction readPieces text generalizing pieces rest with
  | case1 => cases h
  | case2 =>
    cases h
    simp
  | case3 first second third fourth after _ ih =>
    simp only [Option.bind_eq_bind, Option.bind_eq_some_iff] at h
    obtain ⟨value, _, ⟨read, after'⟩, htail, h⟩ := h
    cases h
    have := ih htail
    simp only [List.length_cons]
    omega
  | case4 => cases h
  | case5 kind after _ _ ih =>
    simp only [Option.bind_eq_bind, Option.bind_eq_some_iff] at h
    obtain ⟨escaped, _, ⟨read, after'⟩, htail, h⟩ := h
    cases h
    have := ih htail
    simp only [List.length_cons]
    omega
  | case6 => cases h
  | case7 => cases h
  | case8 code after _ _ _ ih =>
    simp only [Option.bind_eq_bind, Option.bind_eq_some_iff] at h
    obtain ⟨⟨read, after'⟩, htail, h⟩ := h
    cases h
    have := ih htail
    simp only [List.length_cons]
    omega

theorem readString_length {value : Text} (h : readString text = some (value, rest)) :
    rest.length < text.length := by
  obtain ⟨⟨pieces, after⟩, read, same⟩ := Option.map_eq_some_iff.mp h
  cases same
  exact readPieces_length read

theorem fraction_suffix (text : Text) : (fraction text).2 <:+ text := by
  unfold fraction
  split
  · split
    · exact (List.dropWhile_suffix isDigit).trans (List.suffix_cons _ _)
    · exact List.suffix_rfl
  · exact List.suffix_rfl

theorem exponentSign_suffix (text : Text) : (exponentSign text).2 <:+ text := by
  unfold exponentSign
  split
  · split_ifs
    · exact List.suffix_cons _ _
    · exact List.suffix_cons _ _
    · exact List.suffix_rfl
  · exact List.suffix_rfl

theorem exponent_suffix (text : Text) : (exponent text).2 <:+ text := by
  unfold exponent
  split
  · rename_i mark after
    dsimp only
    split
    · exact (List.dropWhile_suffix isDigit).trans
        ((exponentSign_suffix after).trans (List.suffix_cons mark after))
    · exact List.suffix_rfl
  · exact List.suffix_rfl

theorem integral_length (text : Text) (nonempty : (integral text).1 ≠ []) :
    (integral text).2.length < text.length := by
  unfold integral at nonempty ⊢
  split at nonempty
  · rename_i code after
    split at nonempty
    · rename_i zero
      rw [if_pos zero]
      simp
    · rename_i nonzero
      dsimp only at nonempty ⊢
      rw [if_neg nonzero]
      have hsplit := congrArg List.length (List.takeWhile_append_dropWhile (p := isDigit) (l := code :: after))
      have hpos := List.length_pos_of_ne_nil nonempty
      rw [List.length_append] at hsplit
      dsimp only
      omega
  · exact absurd rfl nonempty

theorem readNumber_length {negative : Bool} {value : JsonValue}
    (h : readNumber limits negative text = .value value rest) : rest.length < text.length := by
  unfold readNumber at h
  dsimp only at h
  split at h
  · cases h
  · rename_i nonempty
    have hstart := integral_length text nonempty
    have hmiddle := (fraction_suffix (integral text).2).length_le
    have hend := (exponent_suffix (fraction (integral text).2).2).length_le
    split at h
    · split at h
      · cases h
      · cases h
        omega
    · cases h
      omega

theorem readNumber_settles {negative : Bool} : readNumber limits negative text ≠ .spent := by
  unfold readNumber
  dsimp only
  split
  · simp
  · split
    · split <;> simp
    · simp

theorem readWord_length {value : JsonValue} (h : readWord text = some (value, rest)) :
    rest.length < text.length := by
  obtain ⟨word, found, same⟩ := Option.map_eq_some_iff.mp h
  cases same
  have hlong : ∀ word ∈ words, 0 < word.1.length := by decide
  have hpos := hlong word (List.mem_of_find?_eq_some found)
  have hprefix := List.find?_some found
  have hle := (List.isPrefixOf_iff_prefix.mp hprefix).length_le
  rw [List.length_drop]
  omega

/-- What reading leaves is shorter than what it was given. -/
structure Shrinks (limits : Limits) (fuel : Nat) : Prop where
  value : ∀ depth text result rest,
    readValue limits fuel depth text = .value result rest → rest.length < text.length
  items : ∀ depth text result rest,
    readItems limits fuel depth text = .value result rest → rest.length < text.length
  members : ∀ depth text result rest,
    readMembers limits fuel depth text = .value result rest → rest.length < text.length

theorem shrinks (limits : Limits) (fuel : Nat) : Shrinks limits fuel := by
  induction fuel with
  | zero => constructor <;> (intro depth text result rest h; cases h)
  | succ fuel ih =>
    constructor
    · intro depth text result rest h
      cases text with
      | nil => cases h
      | cons code after =>
        rw [readValue.eq_def] at h
        dsimp only at h
        split_ifs at h with hquote hbrace hbracket hminus
        · obtain ⟨read, hread, _⟩ := Read.map_eq_value h
          have := readString_length (Read.ofOption_eq_value hread)
          exact Nat.lt_succ_of_lt this
        · cases depth with
          | zero => cases h
          | succ depth =>
            have hblank := length_skipBlanks_le after
            dsimp only at h
            split at h
            · cases h
            · rename_i next tail hskip
              rw [hskip, List.length_cons] at hblank
              split at h
              · cases h
                simp only [List.length_cons]
                omega
              · obtain ⟨read, hread, _⟩ := Read.map_eq_value h
                have := ih.members _ _ _ _ hread
                simp only [List.length_cons] at this ⊢
                omega
        · cases depth with
          | zero => cases h
          | succ depth =>
            have hblank := length_skipBlanks_le after
            dsimp only at h
            split at h
            · cases h
            · rename_i next tail hskip
              rw [hskip, List.length_cons] at hblank
              split at h
              · cases h
                simp only [List.length_cons]
                omega
              · obtain ⟨read, hread, _⟩ := Read.map_eq_value h
                have := ih.items _ _ _ _ hread
                simp only [List.length_cons] at this ⊢
                omega
        · split at h
          · rename_i word tail hword
            cases h
            exact readWord_length hword
          · have := readNumber_length h
            exact Nat.lt_succ_of_lt this
        · split at h
          · rename_i word tail hword
            cases h
            exact readWord_length hword
          · exact readNumber_length h
    · intro depth text result rest h
      rw [readItems] at h
      obtain ⟨item, middle, hitem, h⟩ := Read.andThen_eq_value h
      have hstart := ih.value _ _ _ _ hitem
      have hblank := length_skipBlanks_le middle
      split at h
      · cases h
      · rename_i code tail hskip
        rw [hskip, List.length_cons] at hblank
        split_ifs at h with hclose hcomma
        · cases h
          omega
        · obtain ⟨read, hread, _⟩ := Read.map_eq_value h
          have htail := ih.items _ _ _ _ hread
          have := length_skipBlanks_le tail
          omega
    · intro depth text result rest h
      rw [readMembers.eq_def] at h
      cases text with
      | nil => cases h
      | cons mark after =>
        dsimp only at h
        split at h
        · cases h
        · obtain ⟨key, middle, hkey, h⟩ := Read.andThen_eq_value h
          have hstart := readString_length (Read.ofOption_eq_value hkey)
          have hblank := length_skipBlanks_le middle
          split at h
          · cases h
          · rename_i colon tail hskip
            rw [hskip, List.length_cons] at hblank
            split at h
            · cases h
            · obtain ⟨value, behind, hvalue, h⟩ := Read.andThen_eq_value h
              have hmiddle := ih.value _ _ _ _ hvalue
              have hspace := length_skipBlanks_le tail
              have hend := length_skipBlanks_le behind
              split at h
              · cases h
              · rename_i code last hlast
                rw [hlast, List.length_cons] at hend
                split_ifs at h with hclose hcomma
                · cases h
                  simp only [List.length_cons]
                  omega
                · obtain ⟨read, hread, _⟩ := Read.map_eq_value h
                  have htail := ih.members _ _ _ _ hread
                  have := length_skipBlanks_le last
                  simp only [List.length_cons]
                  omega

/-- Fuel for a text: two calls for each character, and one to start with. -/
structure Settles (limits : Limits) (fuel : Nat) : Prop where
  value : ∀ depth text, 2 * text.length < fuel → readValue limits fuel depth text ≠ .spent
  items : ∀ depth text, 2 * text.length + 1 < fuel → readItems limits fuel depth text ≠ .spent
  members : ∀ depth text, 2 * text.length + 1 < fuel → readMembers limits fuel depth text ≠ .spent

theorem settles (limits : Limits) (fuel : Nat) : Settles limits fuel := by
  induction fuel with
  | zero => constructor <;> (intro depth text short; omega)
  | succ fuel ih =>
    constructor
    · intro depth text enough
      cases text with
      | nil => simp [readValue]
      | cons code after =>
        rw [List.length_cons] at enough
        have hblank := length_skipBlanks_le after
        rw [readValue.eq_def]
        dsimp only
        split
        · exact Read.map_ne_spent (Read.ofOption_ne_spent _)
        · split
          · split
            · simp
            · split
              · simp
              · rename_i next tail hskip
                rw [hskip, List.length_cons] at hblank
                split
                · simp
                · apply Read.map_ne_spent
                  apply ih.members
                  rw [List.length_cons]
                  omega
          · split
            · split
              · simp
              · split
                · simp
                · rename_i next tail hskip
                  rw [hskip, List.length_cons] at hblank
                  split
                  · simp
                  · apply Read.map_ne_spent
                    apply ih.items
                    rw [List.length_cons]
                    omega
            · split
              · simp
              · split
                · exact readNumber_settles
                · exact readNumber_settles
    · intro depth text enough
      rw [readItems]
      apply Read.andThen_ne_spent (ih.value depth text (by omega))
      intro item middle hitem
      have hstart := (shrinks limits fuel).value _ _ _ _ hitem
      have hblank := length_skipBlanks_le middle
      split
      · simp
      · rename_i code tail hskip
        rw [hskip, List.length_cons] at hblank
        have hspace := length_skipBlanks_le tail
        split_ifs
        · simp
        · exact Read.map_ne_spent (ih.items depth _ (by omega))
        · simp
    · intro depth text enough
      rw [readMembers.eq_def]
      cases text with
      | nil => simp
      | cons mark after =>
        rw [List.length_cons] at enough
        dsimp only
        split
        · simp
        · apply Read.andThen_ne_spent (Read.ofOption_ne_spent _)
          intro key middle hkey
          have hstart := readString_length (Read.ofOption_eq_value hkey)
          have hblank := length_skipBlanks_le middle
          split
          · simp
          · rename_i colon tail hskip
            rw [hskip, List.length_cons] at hblank
            have hspace := length_skipBlanks_le tail
            split
            · simp
            · apply Read.andThen_ne_spent (ih.value depth _ (by omega))
              intro value behind hvalue
              have hmiddle := (shrinks limits fuel).value _ _ _ _ hvalue
              have hend := length_skipBlanks_le behind
              split
              · simp
              · rename_i code last hlast
                rw [hlast, List.length_cons] at hend
                have hlastspace := length_skipBlanks_le last
                split_ifs
                · simp
                · exact Read.map_ne_spent (ih.members depth _ (by omega))
                · simp

theorem readValue_nested {fuel : Nat} (depth : Nat) (rest : Text) (enough : 2 * depth < fuel) :
    readValue limits fuel depth (List.replicate (depth + 1) (CodePoint.ofChar '[') ++ rest) =
      .failed .recursion := by
  have hplain : CodePoint.ofChar '[' ≠ quoteMark ∧ CodePoint.ofChar '[' ≠ CodePoint.ofChar '\x7b' ∧
      CodePoint.ofChar '[' ≠ CodePoint.ofChar ']' ∧ isBlank (CodePoint.ofChar '[') = false := by decide
  induction depth generalizing fuel with
  | zero =>
    obtain ⟨fuel, rfl⟩ : ∃ less, fuel = less + 1 := ⟨fuel - 1, by omega⟩
    rw [List.replicate_succ, List.cons_append, readValue.eq_def]
    simp only [hplain.1, hplain.2.1, if_false, if_true]
  | succ depth ih =>
    obtain ⟨fuel, rfl⟩ : ∃ less, fuel = less + 2 := ⟨fuel - 2, by omega⟩
    have hinner := @ih fuel (by omega)
    have hskip (text : Text) : skipBlanks (CodePoint.ofChar '[' :: text) = CodePoint.ofChar '[' :: text := by
      rw [skipBlanks, List.dropWhile_cons, hplain.2.2.2]
      rfl
    rw [List.replicate_succ, List.cons_append] at hinner
    rw [List.replicate_succ, List.replicate_succ, List.cons_append, List.cons_append, readValue.eq_def]
    simp only [hplain.1, hplain.2.1, hplain.2.2.1, if_false, if_true, hskip]
    rw [readItems, hinner]
    rfl

end Progress

end JsonCodec

end CodeCalc.Lib
