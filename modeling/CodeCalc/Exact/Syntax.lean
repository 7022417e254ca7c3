import CodeCalc.Lib.Tree
import CodeCalc.Python
import Mathlib.Algebra.Field.Rat
import Mathlib.Tactic.FieldSimp
import Mathlib.Tactic.Ring

/-! What `ast.parse` hands the exact evaluator: the expression tree, the text a
float literal was typed as, and the source bytes it is read back from. -/
namespace CodeCalc.Exact
open Lib

section FloatLiterals

/-- `digitpart`: digits, with an underscore allowed before each but the first. -/
structure DigitPart where
  first : Fin 10
  rest : List (Bool × Fin 10)
  deriving DecidableEq

def digitChar (digit : Fin 10) : Char := Nat.digitChar digit.val

def DigitPart.text (part : DigitPart) : List Char :=
  digitChar part.first ::
    part.rest.flatMap fun next => if next.1 then ['_', digitChar next.2] else [digitChar next.2]

def DigitPart.digits (part : DigitPart) : List (Fin 10) := part.first :: part.rest.map Prod.snd

def numberOf (digits : List (Fin 10)) : ℕ :=
  digits.foldl (fun (number : ℕ) (digit : Fin 10) => 10 * number + digit.val) 0

inductive Mantissa where
  | digits (whole : DigitPart)
  | dotAfter (whole : DigitPart)
  | dotBefore (fraction : DigitPart)
  | dotBetween (whole fraction : DigitPart)
  deriving DecidableEq

def Mantissa.dotted : Mantissa → Bool
  | .digits _ => false
  | _ => true

def Mantissa.text : Mantissa → List Char
  | .digits whole => whole.text
  | .dotAfter whole => whole.text ++ ['.']
  | .dotBefore fraction => '.' :: fraction.text
  | .dotBetween whole fraction => whole.text ++ '.' :: fraction.text

def Mantissa.value : Mantissa → ℚ
  | .digits whole => numberOf whole.digits
  | .dotAfter whole => numberOf whole.digits
  | .dotBefore fraction => numberOf fraction.digits / 10 ^ fraction.digits.length
  | .dotBetween whole fraction =>
      numberOf whole.digits + numberOf fraction.digits / 10 ^ fraction.digits.length

inductive Sign where
  | absent
  | plus
  | minus
  deriving DecidableEq

structure Exponent where
  capital : Bool
  sign : Sign
  digits : DigitPart
  deriving DecidableEq

def Exponent.text (exponent : Exponent) : List Char :=
  (if exponent.capital then 'E' else 'e') ::
    (match exponent.sign with
      | .absent => exponent.digits.text
      | .plus => '+' :: exponent.digits.text
      | .minus => '-' :: exponent.digits.text)

def Exponent.value (exponent : Exponent) : ℤ :=
  match exponent.sign with
  | .minus => -(numberOf exponent.digits.digits : ℤ)
  | _ => numberOf exponent.digits.digits

/-- `floatnumber`: a point or an exponent makes the difference to an integer. -/
structure FloatLiteral where
  mantissa : Mantissa
  exponent : Option Exponent
  isFloat : mantissa.dotted = true ∨ exponent.isSome = true
  deriving DecidableEq

def FloatLiteral.text (literal : FloatLiteral) : List Char :=
  literal.mantissa.text ++ (literal.exponent.map Exponent.text).getD []

/-- The number the literal was typed as, digit for digit. -/
def FloatLiteral.value (literal : FloatLiteral) : ℚ :=
  literal.mantissa.value * 10 ^ (literal.exponent.map Exponent.value).getD 0

end FloatLiterals

section Reading

def isDecimal (char : Char) : Bool := char.isDigit

def readNumber (digits : List Char) : ℕ := Nat.ofDigitChars 10 digits 0

def unsigned : List Char → List Char
  | '+' :: digits => digits
  | '-' :: digits => digits
  | digits => digits

/-- The exponent of a decimal text: digits, with a sign or without. -/
def readExponent (text : List Char) : Option ℤ :=
  if unsigned text ≠ [] ∧ (unsigned text).all isDecimal then
    some (if text.head? = some '-' then -(readNumber (unsigned text) : ℤ)
      else readNumber (unsigned text))
  else none

/-- The digits after a point, and what follows them. -/
def splitPoint : List Char → List Char × List Char
  | '.' :: rest => (rest.takeWhile isDecimal, rest.dropWhile isDecimal)
  | rest => ([], rest)

def scaled (number : ℚ) : List Char → Option ℚ
  | [] => some number
  | mark :: rest =>
      if mark = 'e' ∨ mark = 'E' then (readExponent rest).map fun exponent => number * 10 ^ exponent
      else none

/-- `Fraction(text)` of an unsigned decimal text; a float literal has no sign
and no `/`. -/
def fractionOfText (text : List Char) : Option ℚ :=
  let whole := text.takeWhile isDecimal
  let fraction := (splitPoint (text.dropWhile isDecimal)).1
  if whole = [] ∧ fraction = [] then none
  else scaled ((readNumber whole * 10 ^ fraction.length + readNumber fraction) /
    10 ^ fraction.length) (splitPoint (text.dropWhile isDecimal)).2

/-- `text.replace("_", "")`. -/
def withoutUnderscores (text : List Char) : List Char := text.filter (· ≠ '_')

private theorem digitChar_facts (digit : Fin 10) :
    isDecimal (digitChar digit) = true ∧ digitChar digit ≠ '_' ∧
      (digitChar digit).toNat - '0'.toNat = digit.val := by
  revert digit
  decide

private theorem withoutUnderscores_part (part : DigitPart) :
    withoutUnderscores part.text = part.digits.map digitChar := by
  have hrest (rest : List (Bool × Fin 10)) :
      withoutUnderscores (rest.flatMap fun next =>
        if next.1 then ['_', digitChar next.2] else [digitChar next.2]) =
          (rest.map Prod.snd).map digitChar := by
    induction rest with
    | nil => rfl
    | cons next rest ih =>
      have hdigit : digitChar next.2 ≠ '_' := (digitChar_facts next.2).2.1
      rw [List.flatMap_cons, withoutUnderscores, List.filter_append]
      rw [withoutUnderscores] at ih
      rw [ih]
      cases hunderscore : next.1 <;> simp [hdigit]
  have hfirst : digitChar part.first ≠ '_' := (digitChar_facts part.first).2.1
  have hsplit : withoutUnderscores part.text = digitChar part.first ::
      withoutUnderscores (part.rest.flatMap fun next =>
        if next.1 then ['_', digitChar next.2] else [digitChar next.2]) := by
    simp [withoutUnderscores, DigitPart.text, hfirst]
  rw [hsplit, hrest, DigitPart.digits, List.map_cons]

private theorem all_isDecimal (digits : List (Fin 10)) :
    ∀ char ∈ digits.map digitChar, isDecimal char = true := by
  intro char hchar
  obtain ⟨digit, -, rfl⟩ := List.mem_map.mp hchar
  exact (digitChar_facts digit).1

private theorem readNumber_digits (digits : List (Fin 10)) :
    readNumber (digits.map digitChar) = numberOf digits := by
  unfold readNumber numberOf Nat.ofDigitChars
  rw [List.foldl_map]
  apply List.foldl_ext
  intro number digit _
  rw [(digitChar_facts digit).2.2]

private theorem takeWhile_stop {rest : List Char}
    (stops : ∀ char, rest.head? = some char → isDecimal char = false) :
    rest.takeWhile isDecimal = [] ∧ rest.dropWhile isDecimal = rest := by
  cases rest with
  | nil => exact ⟨rfl, rfl⟩
  | cons char rest => simp [stops char rfl]

private theorem takeWhile_digits {digits : List (Fin 10)} {rest : List Char}
    (stops : ∀ char, rest.head? = some char → isDecimal char = false) :
    (digits.map digitChar ++ rest).takeWhile isDecimal = digits.map digitChar ∧
      (digits.map digitChar ++ rest).dropWhile isDecimal = rest := by
  have hdigits := all_isDecimal digits
  rw [List.takeWhile_append_of_pos hdigits, List.dropWhile_append_of_pos hdigits,
    (takeWhile_stop stops).1, (takeWhile_stop stops).2, List.append_nil]
  exact ⟨rfl, rfl⟩

private theorem readExponent_text (exponent : Exponent) :
    readExponent (withoutUnderscores exponent.text).tail = some exponent.value := by
  have hmark : withoutUnderscores exponent.text =
      (if exponent.capital then 'E' else 'e') :: withoutUnderscores exponent.text.tail := by
    unfold Exponent.text withoutUnderscores
    cases exponent.capital <;> simp
  obtain ⟨capital, sign, digits⟩ := exponent
  have hall : (digits.digits.map digitChar).all isDecimal = true :=
    List.all_eq_true.mpr (all_isDecimal digits.digits)
  have hcons : digits.digits.map digitChar =
      digitChar digits.first :: (digits.rest.map Prod.snd).map digitChar := rfl
  have hfirst : digitChar digits.first ≠ '+' ∧ digitChar digits.first ≠ '-' := by
    generalize digits.first = digit
    revert digit
    decide
  rw [hmark, List.tail_cons]
  cases sign with
  | absent =>
    have htext : withoutUnderscores (Exponent.text ⟨capital, .absent, digits⟩).tail =
        digits.digits.map digitChar := withoutUnderscores_part digits
    have hbody : unsigned (digits.digits.map digitChar) = digits.digits.map digitChar := by
      rw [hcons]
      unfold unsigned
      split
      · rename_i heq
        exact absurd (List.cons.inj heq).1 hfirst.1
      · rename_i heq
        exact absurd (List.cons.inj heq).1 hfirst.2
      · rfl
    rw [htext, readExponent, hbody]
    rw [if_pos ⟨by simp [hcons], hall⟩, if_neg (by simp [hcons, hfirst.2]), readNumber_digits]
    rfl
  | plus =>
    have htext : withoutUnderscores (Exponent.text ⟨capital, .plus, digits⟩).tail =
        '+' :: digits.digits.map digitChar := by
      rw [← withoutUnderscores_part digits]
      rfl
    rw [htext, readExponent, unsigned]
    rw [if_pos ⟨by simp [hcons], hall⟩, if_neg (by simp), readNumber_digits]
    rfl
  | minus =>
    have htext : withoutUnderscores (Exponent.text ⟨capital, .minus, digits⟩).tail =
        '-' :: digits.digits.map digitChar := by
      rw [← withoutUnderscores_part digits]
      rfl
    rw [htext, readExponent, unsigned]
    rw [if_pos ⟨by simp [hcons], hall⟩, if_pos (by simp), readNumber_digits]
    rfl

private def exponentText (exponent : Option Exponent) : List Char :=
  withoutUnderscores ((exponent.map Exponent.text).getD [])

private theorem exponentText_head (exponent : Option Exponent) (char : Char)
    (h : (exponentText exponent).head? = some char) : isDecimal char = false ∧ char ≠ '.' := by
  cases exponent with
  | none => cases h
  | some exponent =>
    obtain ⟨capital, sign, digits⟩ := exponent
    have hhead : (exponentText (some ⟨capital, sign, digits⟩)).head? =
        some (if capital then 'E' else 'e') := by
      cases capital <;> rfl
    rw [hhead] at h
    cases Option.some.inj h
    cases capital <;> decide

private theorem scaled_exponentText (number : ℚ) (exponent : Option Exponent) :
    scaled number (exponentText exponent) =
      some (number * 10 ^ (exponent.map Exponent.value).getD 0) := by
  cases exponent with
  | none =>
    simp only [Option.map_none, Option.getD_none, zpow_zero, mul_one]
    rfl
  | some exponent =>
    have htail := readExponent_text exponent
    have hcons : exponentText (some exponent) = (if exponent.capital then 'E' else 'e') ::
        (withoutUnderscores exponent.text).tail := by
      obtain ⟨capital, sign, digits⟩ := exponent
      cases capital <;> rfl
    rw [hcons, scaled, htail]
    cases exponent.capital <;> simp

private theorem splitPoint_of_head {rest : List Char}
    (h : ∀ char, rest.head? = some char → char ≠ '.') : splitPoint rest = ([], rest) := by
  unfold splitPoint
  split
  · exact absurd rfl (h '.' rfl)
  · rfl

private theorem withoutUnderscores_append (left right : List Char) :
    withoutUnderscores (left ++ right) = withoutUnderscores left ++ withoutUnderscores right :=
  List.filter_append left right

private theorem fractionOfText_digits (part : DigitPart) (exponent : Option Exponent) :
    fractionOfText (part.digits.map digitChar ++ exponentText exponent) =
      some ((numberOf part.digits : ℚ) * 10 ^ (exponent.map Exponent.value).getD 0) := by
  have stops (char : Char) (h : (exponentText exponent).head? = some char) :
      isDecimal char = false := (exponentText_head exponent char h).1
  have noPoint (char : Char) (h : (exponentText exponent).head? = some char) : char ≠ '.' :=
    (exponentText_head exponent char h).2
  have nonempty : part.digits.map digitChar ≠ [] := by simp [DigitPart.digits]
  unfold fractionOfText
  rw [(takeWhile_digits stops).1, (takeWhile_digits stops).2, splitPoint_of_head noPoint]
  dsimp only
  rw [if_neg (fun h => nonempty h.1), scaled_exponentText, readNumber_digits]
  simp [readNumber]

private theorem fractionOfText_point (whole fraction : List (Fin 10))
    (exponent : Option Exponent) (digits : ¬ (whole = [] ∧ fraction = [])) :
    fractionOfText (whole.map digitChar ++
        '.' :: (fraction.map digitChar ++ exponentText exponent)) =
      some (((numberOf whole : ℚ) + numberOf fraction / 10 ^ fraction.length) *
        10 ^ (exponent.map Exponent.value).getD 0) := by
  have stops (char : Char) (h : (exponentText exponent).head? = some char) :
      isDecimal char = false := (exponentText_head exponent char h).1
  have point (char : Char)
      (h : ('.' :: (fraction.map digitChar ++ exponentText exponent)).head? = some char) :
      isDecimal char = false := by
    cases h
    decide
  have hscale : (10 : ℚ) ^ fraction.length ≠ 0 := pow_ne_zero _ (by norm_num)
  unfold fractionOfText
  rw [(takeWhile_digits point).1, (takeWhile_digits point).2, splitPoint,
    (takeWhile_digits stops).1, (takeWhile_digits stops).2]
  dsimp only
  rw [if_neg (by simpa using digits), scaled_exponentText, readNumber_digits, readNumber_digits,
    List.length_map]
  congr 2
  field_simp

/-- Reading a float literal back gives the number that was typed. -/
theorem fractionOfText_literal (literal : FloatLiteral) :
    fractionOfText (withoutUnderscores literal.text) = some literal.value := by
  obtain ⟨mantissa, exponent, -⟩ := literal
  have nonempty (part : DigitPart) : part.digits ≠ [] := by simp [DigitPart.digits]
  have htext : withoutUnderscores (FloatLiteral.text ⟨mantissa, exponent, ‹_›⟩) =
      withoutUnderscores mantissa.text ++ exponentText exponent :=
    withoutUnderscores_append _ _
  rw [htext]
  unfold FloatLiteral.value
  cases mantissa with
  | digits whole =>
    rw [Mantissa.text, withoutUnderscores_part, fractionOfText_digits]
    rfl
  | dotAfter whole =>
    have hpoint := fractionOfText_point whole.digits [] exponent
      (fun h => nonempty whole h.1)
    rw [Mantissa.text, withoutUnderscores_append, withoutUnderscores_part, List.append_assoc]
    refine hpoint.trans ?_
    simp [Mantissa.value, numberOf]
  | dotBefore fraction =>
    have hpoint := fractionOfText_point [] fraction.digits exponent
      (fun h => nonempty fraction h.2)
    rw [← withoutUnderscores_part fraction] at hpoint
    refine hpoint.trans ?_
    simp [Mantissa.value, numberOf]
  | dotBetween whole fraction =>
    have hpoint := fractionOfText_point whole.digits fraction.digits exponent
      (fun h => nonempty whole h.1)
    rw [← withoutUnderscores_part fraction] at hpoint
    rw [Mantissa.text, withoutUnderscores_append, withoutUnderscores_part, List.append_assoc]
    exact hpoint

end Reading

section Trees

/-- Where a node stands: lines from 1, columns in UTF-8 bytes. -/
structure Span where
  lineno : ℕ
  colOffset : ℕ
  endLineno : Option ℕ
  endColOffset : Option ℕ
  deriving DecidableEq

inductive Constant where
  | int (value : ℕ)
  /-- `node.value` is the binary64 the parser rounded to, which nothing reads;
  `typed` is the token it was read from. -/
  | float (typed : FloatLiteral) (span : Span)
  /-- `True`, `None`, a complex number. -/
  | other (repr : String)
  deriving DecidableEq

inductive UnaryOp where
  | uAdd
  | uSub
  | invert
  | not
  deriving DecidableEq

inductive BinOp where
  | add
  | sub
  | mult
  | div
  | floorDiv
  | mod
  | pow
  | bitAnd
  | bitOr
  | bitXor
  | lShift
  | rShift
  | matMult
  deriving DecidableEq

inductive CmpOp where
  | gt
  | gtE
  | lt
  | ltE
  | eq
  | notEq
  /-- `Is`, `IsNot`, `In`, `NotIn`. -/
  | other (typeName : String)
  deriving DecidableEq

inductive Node where
  | constant (value : Constant)
  | name (id : String)
  | unaryOp (op : UnaryOp) (operand : Node)
  | binOp (left : Node) (op : BinOp) (right : Node)
  | compare (left : Node) (comparators : List (CmpOp × Node))
  /-- A keyword without a name is a `**` argument. -/
  | call (func : Node) (args : List Node) (keywords : List (Option String × Node))
  /-- Every other node, a starred argument among them. -/
  | unsupported (typeName : String)

namespace Node

@[induction_eliminator]
theorem induction {motive : Node → Prop} (constant : ∀ value, motive (.constant value))
    (name : ∀ id, motive (.name id))
    (unaryOp : ∀ op operand, motive operand → motive (.unaryOp op operand))
    (binOp : ∀ left op right, motive left → motive right → motive (.binOp left op right))
    (compare : ∀ left comparators, motive left →
      (∀ comparator ∈ comparators, motive comparator.2) → motive (.compare left comparators))
    (call : ∀ func args keywords, (∀ arg ∈ args, motive arg) → motive (.call func args keywords))
    (unsupported : ∀ typeName, motive (.unsupported typeName)) : ∀ node, motive node
  | .constant value => constant value
  | .name id => name id
  | .unaryOp op operand => unaryOp op operand
      (induction constant name unaryOp binOp compare call unsupported operand)
  | .binOp left op right => binOp left op right
      (induction constant name unaryOp binOp compare call unsupported left)
      (induction constant name unaryOp binOp compare call unsupported right)
  | .compare left comparators => compare left comparators
      (induction constant name unaryOp binOp compare call unsupported left)
      fun comparator _ =>
        induction constant name unaryOp binOp compare call unsupported comparator.2
  | .call func args keywords => call func args keywords fun arg _ =>
      induction constant name unaryOp binOp compare call unsupported arg
  | .unsupported typeName => unsupported typeName
termination_by node => sizeOf node
decreasing_by
  · simp only [Node.unaryOp.sizeOf_spec]
    omega
  · simp only [Node.binOp.sizeOf_spec]
    omega
  · simp only [Node.binOp.sizeOf_spec]
    omega
  · simp only [Node.compare.sizeOf_spec]
    omega
  · have hlt := sizeOf_snd_lt_of_mem ‹comparator ∈ comparators›
    simp only [Node.compare.sizeOf_spec]
    omega
  · have hlt := List.sizeOf_lt_of_mem ‹arg ∈ args›
    simp only [Node.call.sizeOf_spec]
    omega

/-- What is evaluated on the way to the value of a node. -/
def operands : Node → List Node
  | .unaryOp _ operand => [operand]
  | .binOp left _ right => [left, right]
  | .compare left comparators => left :: comparators.map Prod.snd
  | .call _ args _ => args
  | _ => []

abbrev Everywhere (p : Node → Prop) (node : Node) : Prop := All operands p node

section Everywhere

variable {p : Node → Prop}

theorem everywhere_leaf {node : Node} (leaf : node.operands = []) :
    node.Everywhere p ↔ p node :=
  ⟨All.here, fun here => .leaf here leaf⟩

@[simp] theorem everywhere_constant {value : Constant} :
    (constant value).Everywhere p ↔ p (constant value) := everywhere_leaf rfl

@[simp] theorem everywhere_unaryOp {op : UnaryOp} {operand : Node} :
    (unaryOp op operand).Everywhere p ↔ p (unaryOp op operand) ∧ operand.Everywhere p := by
  rw [Everywhere, all_iff, operands, List.forall_mem_singleton]

@[simp] theorem everywhere_binOp {op : BinOp} {left right : Node} :
    (binOp left op right).Everywhere p ↔
      p (binOp left op right) ∧ left.Everywhere p ∧ right.Everywhere p := by
  rw [Everywhere, all_iff, operands, List.forall_mem_cons, List.forall_mem_singleton]

@[simp] theorem everywhere_compare {op : CmpOp} {left right : Node} :
    (compare left [(op, right)]).Everywhere p ↔
      p (compare left [(op, right)]) ∧ left.Everywhere p ∧ right.Everywhere p := by
  rw [Everywhere, all_iff, operands, List.map_singleton, List.forall_mem_cons,
    List.forall_mem_singleton]

@[simp] theorem everywhere_call {func : Node} {args : List Node}
    {keywords : List (Option String × Node)} :
    (call func args keywords).Everywhere p ↔
      p (call func args keywords) ∧ ∀ arg ∈ args, arg.Everywhere p := by
  rw [Everywhere, all_iff, operands]

end Everywhere

/-- The node is no call with a `**` argument. -/
def NoDoubleStar : Node → Prop
  | .call _ _ keywords => ∀ keyword ∈ keywords, keyword.1 ≠ none
  | _ => True

def NoNamedKeyword : Node → Prop
  | .call _ _ keywords => ∀ keyword ∈ keywords, keyword.1 = none
  | _ => True

def KeywordFree : Node → Prop
  | .call _ _ keywords => keywords = []
  | _ => True

theorem keywordFree_of {node : Node} (doubleStar : node.NoDoubleStar)
    (named : node.NoNamedKeyword) : node.KeywordFree := by
  cases node with
  | call func args keywords =>
    apply List.eq_nil_iff_forall_not_mem.mpr
    intro keyword member
    exact doubleStar keyword member (named keyword member)
  | _ => trivial

theorem noDoubleStar_of {node : Node} (free : node.KeywordFree) : node.NoDoubleStar := by
  cases node with
  | call func args keywords =>
    intro keyword member
    have hnil : keywords = [] := free
    rw [hnil] at member
    cases member
  | _ => trivial

end Node

end Trees

section Sources

/-- `source.splitlines(keepends=True)` on bytes; `line` is the current line,
backwards. -/
def splitLines (line : List UInt8) : List UInt8 → List (List UInt8)
  | [] => if line = [] then [] else [line.reverse]
  | byte :: rest =>
      if byte = 10 then (byte :: line).reverse :: splitLines [] rest
      else if byte = 13 ∧ rest.head? ≠ some 10 then (byte :: line).reverse :: splitLines [] rest
      else splitLines (byte :: line) rest

/-- `expr.encode("utf-8").splitlines(keepends=True)`. -/
def sourceLines (expr : String) : List (List UInt8) := splitLines [] expr.toUTF8.data.toList

def spanBytes (span : Span) (lines : List (List UInt8)) : Except Exc (List UInt8) :=
  match span.endLineno, span.endColOffset with
  | some endLineno, some endColOffset =>
      match lines[endLineno - 1]? with
      | some last =>
          if span.lineno = endLineno then
            .ok ((last.take endColOffset).drop span.colOffset)
          else
            let covered := ((lines.take endLineno).drop (span.lineno - 1)).flatten
            let stop := covered.length - last.length + endColOffset
            .ok ((covered.take stop).drop span.colOffset)
      | none => .error ⟨"IndexError", [.indexError, .exception], some "list index out of range",
          none, none⟩
  | _, _ => .error (.valueError "float literal has no source text")

/-- `bytes.decode("utf-8")`. -/
def decodeUtf8 (bytes : List UInt8) : Except Exc String :=
  match String.fromUTF8? ⟨bytes.toArray⟩ with
  | some text => .ok text
  | none => .error ⟨"UnicodeDecodeError", [.valueError, .exception],
      some "'utf-8' codec can't decode bytes", none, none⟩

def literalText (span : Span) (lines : List (List UInt8)) : Except Exc String := do
  let bytes ← spanBytes span lines
  decodeUtf8 bytes

theorem decodeUtf8_encoded (text : String) : decodeUtf8 text.toUTF8.data.toList = .ok text := by
  have hbytes : (⟨text.toUTF8.data.toList.toArray⟩ : ByteArray) = text.toUTF8 := by simp
  have hvalid : text.toUTF8.IsValidUTF8 := text.isValidUTF8
  unfold decodeUtf8
  rw [hbytes, String.fromUTF8?, dif_pos hvalid]
  rfl

/-- A float literal stands in the source where the tree says it does. -/
def Node.LocatedIn (lines : List (List UInt8)) : Node → Prop
  | .constant (.float typed span) =>
      spanBytes span lines = .ok (String.ofList typed.text).toUTF8.data.toList
  | _ => True

theorem literalText_located {lines : List (List UInt8)} {typed : FloatLiteral} {span : Span}
    (located : Node.LocatedIn lines (.constant (.float typed span))) :
    literalText span lines = .ok (String.ofList typed.text) := by
  have hbytes : spanBytes span lines = .ok (String.ofList typed.text).toUTF8.data.toList := located
  rw [literalText, hbytes]
  exact decodeUtf8_encoded _

end Sources

end CodeCalc.Exact
