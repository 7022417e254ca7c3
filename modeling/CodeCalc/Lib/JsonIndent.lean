import CodeCalc.Lib.JsonFloat
import CodeCalc.Lib.JsonTree

/-! The indented text of a value, `json.dumps(value, indent=2)`, and what the
lossless reader finds in it: the value with its floats as they were printed and
its strings with their surrogates joined. -/
namespace CodeCalc.Lib

namespace JsonCodec

section Printing

def lineBreak (level : Nat) : Text := newline :: List.replicate (2 * level) (CodePoint.ofChar ' ')

mutual

/-- `json.dumps(value, indent=2)`, `level` arrays and objects inside. -/
def indented (level : Nat) : JsonValue → Text
  | .null => Text.ofString "null"
  | .bool true => Text.ofString "true"
  | .bool false => Text.ofString "false"
  | .int value => integer value
  | .float value => floatText value
  | .nan => Text.ofString "NaN"
  | .infinity false => Text.ofString "Infinity"
  | .infinity true => Text.ofString "-Infinity"
  | .str value => asciiQuote value
  | .arr items => CodePoint.ofChar '[' :: indentedItems level items
  | .obj members => CodePoint.ofChar '\x7b' :: indentedMembers level members

/-- The items of an array, with its closing bracket. -/
def indentedItems (level : Nat) : List JsonValue → Text
  | [] => [CodePoint.ofChar ']']
  | [item] =>
      lineBreak (level + 1) ++ (indented (level + 1) item ++ (lineBreak level ++ [CodePoint.ofChar ']']))
  | item :: next :: rest =>
      lineBreak (level + 1) ++
        (indented (level + 1) item ++ CodePoint.ofChar ',' :: indentedItems level (next :: rest))

/-- The members of an object, with its closing brace. -/
def indentedMembers (level : Nat) : List (Text × JsonValue) → Text
  | [] => [CodePoint.ofChar '\x7d']
  | [(name, value)] =>
      lineBreak (level + 1) ++ (asciiQuote name ++ CodePoint.ofChar ':' :: CodePoint.ofChar ' ' ::
        (indented (level + 1) value ++ (lineBreak level ++ [CodePoint.ofChar '\x7d'])))
  | (name, value) :: next :: rest =>
      lineBreak (level + 1) ++ (asciiQuote name ++ CodePoint.ofChar ':' :: CodePoint.ofChar ' ' ::
        (indented (level + 1) value ++ CodePoint.ofChar ',' :: indentedMembers level (next :: rest)))

end

end Printing

end JsonCodec

namespace JsonValue

/-- What the text of a value without items or members is read as. -/
def writtenLeaf : JsonValue → JsonValue
  | .str value => .str (JsonCodec.joined value)
  | .float value => JsonCodec.reread value
  | value => value

/-- What the text of a value is read as. -/
def written : JsonValue → JsonValue :=
  rebuild writtenLeaf (List.map fun member => (JsonCodec.joined member.1, member.2))

theorem written_arr (items : List JsonValue) : (arr items).written = .arr (items.map written) :=
  rebuild_arr _ _ items

theorem written_obj (members : List (Text × JsonValue)) :
    (obj members).written =
      .obj (members.map fun member => (JsonCodec.joined member.1, member.2.written)) := by
  rw [written, rebuild_obj, List.map_map]
  rfl

end JsonValue

namespace JsonCodec

section Reading

variable {limits : Limits} {fuel depth level : Nat} {rest : Text}

theorem skipBlanks_lineBreak (level : Nat) (text : Text) :
    skipBlanks (lineBreak level ++ text) = skipBlanks text := by
  have blank : ∀ code ∈ lineBreak level, isBlank code = true := by
    intro code member
    rcases List.mem_cons.mp member with rfl | member
    · decide
    · rw [List.eq_of_mem_replicate member]
      decide
  exact List.dropWhile_append_of_pos blank

/-- A text that begins with no blank and with no closing bracket. -/
def Visible (text : Text) : Prop :=
  ∃ code more, text = code :: more ∧ isBlank code = false ∧ code ≠ CodePoint.ofChar ']'

theorem Visible.skip {text : Text} (visible : Visible text) (rest : Text) :
    skipBlanks (text ++ rest) = text ++ rest := by
  obtain ⟨code, more, rfl, plain, -⟩ := visible
  exact skipBlanks_cons _ plain

theorem visible_digit {text : Text} {code : CodePoint} {more : Text} (same : text = code :: more)
    (digit : isDigit code = true) : Visible text := by
  have range := of_decide_eq_true digit
  refine ⟨code, more, same, ?_, ?_⟩
  · simp only [isBlank, decide_eq_false_iff_not]
    intro blank
    have small : ([CodePoint.ofChar ' ', CodePoint.ofChar '\t', CodePoint.ofChar '\n',
        CodePoint.ofChar '\r'].all fun code => code.val < 48) = true := by decide
    have := of_decide_eq_true (List.all_eq_true.mp small code blank)
    omega
  · rintro rfl
    revert digit
    decide

theorem visible_floatText (numeral : Numeral) : Visible (floatText numeral) := by
  unfold floatText
  split_ifs with sign
  · exact ⟨_, _, rfl, by decide⟩
  · rw [List.nil_append]
    split
    · rename_i double _
      obtain ⟨code, more, same, digit⟩ :=
        reprDecimal_first (printedDecimal double).1 (printedDecimal double).2
      exact visible_digit same digit
    · exact ⟨_, _, rfl, by decide⟩

theorem visible_indented (level : Nat) (value : JsonValue) : Visible (indented level value) := by
  cases value with
  | null => exact ⟨_, _, rfl, by decide⟩
  | bool value => cases value <;> exact ⟨_, _, rfl, by decide⟩
  | int value => exact integer_first value
  | float value => exact visible_floatText value
  | nan => exact ⟨_, _, rfl, by decide⟩
  | infinity negative => cases negative <;> exact ⟨_, _, rfl, by decide⟩
  | str value => exact ⟨_, _, rfl, by decide⟩
  | arr items => exact ⟨_, _, rfl, by decide⟩
  | obj members => exact ⟨_, _, rfl, by decide⟩

def IntsWithin (limits : Limits) : JsonValue → Prop
  | .int value => (decimal value.natAbs).length ≤ limits.digits
  | _ => True

theorem readTree_scalar {code : CodePoint} {text : Text} (quote : code ≠ quoteMark)
    (brace : code ≠ CodePoint.ofChar '\x7b') (bracket : code ≠ CodePoint.ofChar '[') :
    readTree limits (fuel + 1) depth (code :: text) = readScalar limits (code :: text) := by
  rw [readTree.eq_def]
  simp only [quote, brace, bracket, if_false]

theorem readTree_integer {value : Int} (stops : StopsNumber rest)
    (short : (decimal value.natAbs).length ≤ limits.digits) :
    readTree limits (fuel + 1) depth (integer value ++ rest) = .value (.int value) rest := by
  have read := @readValue_integer limits fuel depth rest value stops short
  rw [(merges limits (fuel + 1)).value] at read
  cases tree : readTree limits (fuel + 1) depth (integer value ++ rest) with
  | value found after =>
    rw [tree, Read.map] at read
    injection read with same behind
    cases found with
    | int other => exact congrArg₂ Read.value same behind
    | _ => cases same
  | _ => rw [tree] at read; cases read

theorem nearest_own {numeral : Numeral} {double : ℚ}
    (nearest : nearestDouble numeral.magnitude = some double) :
    0 ≤ double ∧ nearestDouble double = some double := by
  have nonneg : 0 ≤ numeral.magnitude := by
    unfold Numeral.magnitude
    positivity
  refine ⟨?_, nearestDouble_self nonneg nearest⟩
  rw [← (nearestDouble_eq_some.mp nearest).1]
  exact rounded_nonneg nonneg

theorem readNumber_printed {numeral : Numeral} {double : ℚ}
    (nearest : nearestDouble numeral.magnitude = some double) (stops : StopsNumber rest) :
    readNumber limits numeral.negative (reprDecimal (printedDecimal double).1 (printedDecimal double).2 ++
      rest) = .value (reread numeral) rest := by
  have own := nearest_own nearest
  rw [readNumber_reprDecimal (printedDecimal_proper own.1 own.2) stops, reread, nearest]

theorem readScalar_digits {code : CodePoint} {text : Text} (digit : isDigit code = true) :
    readScalar limits (code :: text) = readNumber limits false (code :: text) := by
  simp only [readScalar, readWord_digit text digit, (digit_plain digit).2.2.2, if_false]

theorem readScalar_minus {code : CodePoint} {text : Text} (digit : isDigit code = true) :
    readScalar limits (CodePoint.ofChar '-' :: code :: text) = readNumber limits true (code :: text) := by
  simp only [readScalar, readWord_minus text digit, if_true]

theorem readTree_floatText (numeral : Numeral) (stops : StopsNumber rest) :
    readTree limits (fuel + 1) depth (floatText numeral ++ rest) =
      .value (reread numeral) rest := by
  cases nearest : nearestDouble numeral.magnitude with
  | none =>
    unfold floatText reread
    rw [nearest]
    cases numeral.negative <;> rfl
  | some double =>
    have read := @readNumber_printed limits rest numeral double nearest stops
    obtain ⟨code, more, same, digit⟩ :=
      reprDecimal_first (printedDecimal double).1 (printedDecimal double).2
    obtain ⟨quote, brace, bracket, minus⟩ := digit_plain digit
    rw [same, List.cons_append] at read
    unfold floatText
    rw [nearest]
    dsimp only
    rw [same]
    cases sign : numeral.negative with
    | false =>
      rw [sign] at read
      simp only [Bool.false_eq_true, if_false, List.nil_append, List.cons_append]
      rw [readTree_scalar quote brace bracket, readScalar_digits digit, read]
    | true =>
      rw [sign] at read
      simp only [if_true, List.cons_append, List.nil_append]
      rw [readTree_scalar (by decide) (by decide) (by decide), readScalar_minus digit, read]

/-- The lossless reader finds the value as it was written, in front of anything that
cannot go on with its last number. -/
def ReadsIndented (limits : Limits) (value : JsonValue) : Prop :=
  ∀ (fuel depth level : Nat) (rest : Text), All JsonValue.children (IntsWithin limits) value →
    value.depth ≤ depth → StopsNumber rest → 2 * (indented level value).length ≤ fuel →
    readTree limits fuel depth (indented level value ++ rest) = .value value.written rest

theorem stopsNumber_lineBreak (level : Nat) (rest : Text) : StopsNumber (lineBreak level ++ rest) :=
  stopsNumber_cons _ (by decide)

theorem readTreeItems_indented {items : List JsonValue}
    (reads : ∀ item ∈ items, ReadsIndented limits item)
    (within : ∀ item ∈ items, All JsonValue.children (IntsWithin limits) item)
    (shallow : ∀ item ∈ items, item.depth ≤ depth) (nonempty : items ≠ [])
    (enough : 2 * (indentedItems level items).length ≤ fuel) :
    readTreeItems limits fuel depth (skipBlanks (indentedItems level items ++ rest)) =
      .value (items.map JsonValue.written) rest := by
  induction items generalizing fuel with
  | nil => exact absurd rfl nonempty
  | cons item items ih =>
    have hitem := reads item List.mem_cons_self
    have hwithin := within item List.mem_cons_self
    have hshallow := shallow item List.mem_cons_self
    cases items with
    | nil =>
      simp only [indentedItems, List.length_append, List.length_singleton] at enough
      obtain ⟨fuel, rfl⟩ : ∃ less, fuel = less + 1 := ⟨fuel - 1, by omega⟩
      have read := hitem fuel depth (level + 1) (lineBreak level ++ CodePoint.ofChar ']' :: rest)
        hwithin hshallow (stopsNumber_lineBreak _ _) (by omega)
      simp only [indentedItems, List.append_assoc, List.cons_append, List.nil_append]
      rw [skipBlanks_lineBreak, (visible_indented _ _).skip, readTreeItems, read]
      simp only [Read.andThen, skipBlanks_lineBreak,
        skipBlanks_cons rest (show isBlank (CodePoint.ofChar ']') = false by decide), if_true]
      rfl
    | cons next items =>
      simp only [indentedItems, List.length_append, List.length_cons] at enough
      obtain ⟨fuel, rfl⟩ : ∃ less, fuel = less + 1 := ⟨fuel - 1, by omega⟩
      have read := hitem fuel depth (level + 1)
        (CodePoint.ofChar ',' :: (indentedItems level (next :: items) ++ rest)) hwithin hshallow
        (stopsNumber_cons _ (by decide)) (by omega)
      have tail := ih (fun other member => reads other (List.mem_cons_of_mem _ member))
        (fun other member => within other (List.mem_cons_of_mem _ member))
        (fun other member => shallow other (List.mem_cons_of_mem _ member)) (List.cons_ne_nil _ _)
        (show 2 * _ ≤ fuel by omega)
      have comma : CodePoint.ofChar ',' ≠ CodePoint.ofChar ']' := by decide
      rw [indentedItems, List.append_assoc, List.append_assoc, List.cons_append, skipBlanks_lineBreak,
        (visible_indented _ _).skip, readTreeItems, read]
      simp only [Read.andThen,
        skipBlanks_cons _ (show isBlank (CodePoint.ofChar ',') = false by decide), comma, if_false,
        if_true, tail]
      rfl

theorem skipBlanks_member (level : Nat) (name : Text) (more : Text) :
    skipBlanks (lineBreak level ++ (asciiQuote name ++ more)) =
      quoteMark :: (name.flatMap escapeAscii ++ quoteMark :: more) := by
  rw [skipBlanks_lineBreak, asciiQuote, List.cons_append, List.append_assoc, List.singleton_append]
  exact skipBlanks_cons _ (by decide)

theorem skipBlanks_value (level : Nat) (value : JsonValue) (more : Text) :
    skipBlanks (CodePoint.ofChar ' ' :: (indented level value ++ more)) =
      indented level value ++ more := by
  rw [skipBlanks, List.dropWhile_cons, if_pos (by decide)]
  exact (visible_indented level value).skip more

theorem readTreeMembers_indented {members : List (Text × JsonValue)}
    (reads : ∀ member ∈ members, ReadsIndented limits member.2)
    (within : ∀ member ∈ members, All JsonValue.children (IntsWithin limits) member.2)
    (shallow : ∀ member ∈ members, member.2.depth ≤ depth) (nonempty : members ≠ [])
    (enough : 2 * (indentedMembers level members).length ≤ fuel) :
    readTreeMembers limits fuel depth (skipBlanks (indentedMembers level members ++ rest)) =
      .value (members.map fun member => (joined member.1, member.2.written)) rest := by
  have colon : ∀ text : Text, skipBlanks (CodePoint.ofChar ':' :: text) = CodePoint.ofChar ':' :: text :=
    fun text => skipBlanks_cons text (by decide)
  induction members generalizing fuel with
  | nil => exact absurd rfl nonempty
  | cons member members ih =>
    obtain ⟨name, value⟩ := member
    have hvalue : ReadsIndented limits value := reads (name, value) List.mem_cons_self
    have hwithin := within (name, value) List.mem_cons_self
    have hshallow := shallow (name, value) List.mem_cons_self
    cases members with
    | nil =>
      simp only [indentedMembers, List.length_append, List.length_cons, List.length_nil] at enough
      obtain ⟨fuel, rfl⟩ : ∃ less, fuel = less + 1 := ⟨fuel - 1, by omega⟩
      have read := hvalue fuel depth (level + 1) (lineBreak level ++ CodePoint.ofChar '\x7d' :: rest)
        hwithin hshallow (stopsNumber_lineBreak _ _) (by omega)
      simp only [indentedMembers, List.append_assoc, List.cons_append, List.nil_append]
      rw [skipBlanks_member, readTreeMembers.eq_def]
      simp only [ne_eq, not_true_eq_false, if_false, readString_key, Read.andThen, colon,
        skipBlanks_value, read, skipBlanks_lineBreak,
        skipBlanks_cons rest (show isBlank (CodePoint.ofChar '\x7d') = false by decide), if_true]
      rfl
    | cons next members =>
      simp only [indentedMembers, List.length_append, List.length_cons] at enough
      obtain ⟨fuel, rfl⟩ : ∃ less, fuel = less + 1 := ⟨fuel - 1, by omega⟩
      have read := hvalue fuel depth (level + 1)
        (CodePoint.ofChar ',' :: (indentedMembers level (next :: members) ++ rest)) hwithin hshallow
        (stopsNumber_cons _ (by decide)) (by omega)
      have tail := ih (fun other member => reads other (List.mem_cons_of_mem _ member))
        (fun other member => within other (List.mem_cons_of_mem _ member))
        (fun other member => shallow other (List.mem_cons_of_mem _ member)) (List.cons_ne_nil _ _)
        (show 2 * _ ≤ fuel by omega)
      have comma : CodePoint.ofChar ',' ≠ CodePoint.ofChar '\x7d' := by decide
      rw [indentedMembers, List.append_assoc, List.append_assoc, List.cons_append, List.cons_append,
        List.append_assoc, List.cons_append, skipBlanks_member, readTreeMembers.eq_def]
      simp only [ne_eq, not_true_eq_false, if_false, readString_key, Read.andThen, colon,
        skipBlanks_value, read,
        skipBlanks_cons _ (show isBlank (CodePoint.ofChar ',') = false by decide), comma, if_true, tail]
      rfl

private theorem fuel_of_indented {value : JsonValue} (enough : 2 * (indented level value).length ≤ fuel) :
    ∃ less, fuel = less + 1 := by
  obtain ⟨code, more, same, -⟩ := visible_indented level value
  rw [same, List.length_cons] at enough
  exact ⟨fuel - 1, by omega⟩

/-- What stands behind an opening bracket begins, blanks left out, with no closing one. -/
theorem indentedItems_visible (level : Nat) (item : JsonValue) (items : List JsonValue) (rest : Text) :
    ∃ code more, skipBlanks (indentedItems level (item :: items) ++ rest) = code :: more ∧
      code ≠ CodePoint.ofChar ']' := by
  obtain ⟨code, more, same, -, other⟩ := visible_indented (level + 1) item
  have skip := (visible_indented (level + 1) item).skip
  cases items <;>
    exact ⟨code, _, by rw [indentedItems, List.append_assoc, List.append_assoc, skipBlanks_lineBreak,
      skip, same, List.cons_append], other⟩

theorem indentedMembers_visible (level : Nat) (member : Text × JsonValue)
    (members : List (Text × JsonValue)) (rest : Text) :
    ∃ more, skipBlanks (indentedMembers level (member :: members) ++ rest) = quoteMark :: more := by
  obtain ⟨name, value⟩ := member
  cases members <;>
    exact ⟨_, by rw [indentedMembers, List.append_assoc, List.append_assoc, skipBlanks_member]⟩

theorem readsIndented (limits : Limits) (value : JsonValue) : ReadsIndented limits value := by
  induction value with
  | null =>
    intro fuel depth level rest _ _ _ enough
    obtain ⟨fuel, rfl⟩ := fuel_of_indented enough
    rfl
  | bool value =>
    intro fuel depth level rest _ _ _ enough
    obtain ⟨fuel, rfl⟩ := fuel_of_indented enough
    cases value <;> rfl
  | int value =>
    intro fuel depth level rest within _ stops enough
    obtain ⟨fuel, rfl⟩ := fuel_of_indented enough
    exact readTree_integer stops within.here
  | float value =>
    intro fuel depth level rest _ _ stops enough
    obtain ⟨fuel, rfl⟩ := fuel_of_indented enough
    exact readTree_floatText value stops
  | nan =>
    intro fuel depth level rest _ _ _ enough
    obtain ⟨fuel, rfl⟩ := fuel_of_indented enough
    rfl
  | infinity negative =>
    intro fuel depth level rest _ _ _ enough
    obtain ⟨fuel, rfl⟩ := fuel_of_indented enough
    cases negative <;> rfl
  | str value =>
    intro fuel depth level rest _ _ _ enough
    obtain ⟨fuel, rfl⟩ := fuel_of_indented enough
    rw [indented, asciiQuote, List.cons_append, List.append_assoc, List.singleton_append,
      readTree.eq_def]
    simp only [if_true, readString_key]
    rfl
  | arr items ih =>
    intro fuel depth level rest within shallow _ enough
    obtain ⟨fuel, rfl⟩ := fuel_of_indented enough
    rw [indented, List.length_cons] at enough
    have plain : CodePoint.ofChar '[' ≠ quoteMark ∧ CodePoint.ofChar '[' ≠ CodePoint.ofChar '\x7b' := by
      decide
    obtain ⟨depth, rfl⟩ : ∃ less, depth = less + 1 := by
      rw [JsonValue.depth] at shallow
      exact ⟨depth - 1, by omega⟩
    rw [indented, List.cons_append, readTree.eq_def]
    simp only [plain.1, plain.2, if_false, if_true]
    cases items with
    | nil =>
      simp only [indentedItems, List.cons_append, List.nil_append,
        skipBlanks_cons rest (show isBlank (CodePoint.ofChar ']') = false by decide), if_true]
      rfl
    | cons item items =>
      have read := @readTreeItems_indented limits fuel depth level rest _ ih (all_arr.mp within).2
        (JsonValue.depth_arr_le.mp shallow) (List.cons_ne_nil _ _) (by omega)
      obtain ⟨code, more, same, other⟩ := indentedItems_visible level item items rest
      rw [same] at read
      simp only [same, other, if_false, read]
      rw [JsonValue.written_arr]
      rfl
  | obj members ih =>
    intro fuel depth level rest within shallow _ enough
    obtain ⟨fuel, rfl⟩ := fuel_of_indented enough
    rw [indented, List.length_cons] at enough
    have plain : CodePoint.ofChar '\x7b' ≠ quoteMark := by decide
    obtain ⟨depth, rfl⟩ : ∃ less, depth = less + 1 := by
      rw [JsonValue.depth] at shallow
      exact ⟨depth - 1, by omega⟩
    rw [indented, List.cons_append, readTree.eq_def]
    simp only [plain, if_false, if_true]
    cases members with
    | nil =>
      simp only [indentedMembers, List.cons_append, List.nil_append,
        skipBlanks_cons rest (show isBlank (CodePoint.ofChar '\x7d') = false by decide), if_true]
      rfl
    | cons member members =>
      have read := @readTreeMembers_indented limits fuel depth level rest _ ih (all_obj.mp within).2
        (JsonValue.depth_obj_le.mp shallow) (List.cons_ne_nil _ _) (by omega)
      obtain ⟨more, same⟩ := indentedMembers_visible level member members rest
      have other : quoteMark ≠ CodePoint.ofChar '\x7d' := by decide
      rw [same] at read
      simp only [same, other, if_false, read]
      rw [JsonValue.written_obj]
      rfl

end Reading

section Characters

/-- Printable ASCII and line feeds. -/
def Typed (text : Text) : Prop := ∀ code ∈ text, isPrintable code = true ∨ code = newline

theorem typed_append {left right : Text} : Typed (left ++ right) ↔ Typed left ∧ Typed right :=
  List.forall_mem_append

theorem typed_cons {code : CodePoint} {text : Text} :
    Typed (code :: text) ↔ (isPrintable code = true ∨ code = newline) ∧ Typed text :=
  List.forall_mem_cons

theorem Printable.typed {text : Text} (printable : Printable text) : Typed text :=
  fun code member => .inl (printable code member)

theorem typed_lineBreak (level : Nat) : Typed (lineBreak level) := by
  refine typed_cons.mpr ⟨.inr rfl, fun code member => ?_⟩
  rw [List.eq_of_mem_replicate member]
  exact .inl (by decide)

theorem printable_digits {text : Text} (digits : ∀ code ∈ text, isDigit code = true) :
    Printable text := by
  intro code member
  have := of_decide_eq_true (digits code member)
  exact decide_eq_true (by omega)

theorem printable_decimal (value : Nat) : Printable (decimal value) :=
  printable_digits fun _ => isDigit_of_mem_decimal

theorem printable_zeros (count : Nat) : Printable (zeros count) :=
  printable_digits fun _ => isDigit_of_mem_zeros

theorem Printable.of_subset {text part : Text} (printable : Printable text) (inside : part ⊆ text) :
    Printable part := fun code member => printable code (inside member)

theorem printable_exponentText (power : Int) : Printable (exponentText power) := by
  unfold exponentText
  dsimp only
  refine printable_cons.mpr ⟨by decide, printable_cons.mpr ⟨?_, printable_append.mpr
    ⟨printable_zeros _, printable_decimal _⟩⟩⟩
  split_ifs <;> decide

theorem printable_reprDecimal (coefficient : Nat) (place : Int) :
    Printable (reprDecimal coefficient place) := by
  have digits := printable_decimal coefficient
  have front (count : Nat) : Printable ((decimal coefficient).take count) :=
    digits.of_subset (List.take_subset _ _)
  have back (count : Nat) : Printable ((decimal coefficient).drop count) :=
    digits.of_subset (List.drop_subset _ _)
  have point : isPrintable (CodePoint.ofChar '.') = true := by decide
  have zero : isPrintable (CodePoint.ofChar '0') = true := by decide
  unfold reprDecimal
  dsimp only
  split_ifs with scientific single small fixed
  · exact printable_append.mpr ⟨printable_append.mpr ⟨front 1, printable_nil⟩, printable_exponentText _⟩
  · exact printable_append.mpr ⟨printable_append.mpr ⟨front 1, printable_cons.mpr ⟨point, back 1⟩⟩,
      printable_exponentText _⟩
  · exact printable_cons.mpr ⟨zero, printable_cons.mpr ⟨point, printable_append.mpr
      ⟨printable_zeros _, digits⟩⟩⟩
  · exact printable_append.mpr ⟨printable_append.mpr ⟨digits, printable_zeros _⟩,
      printable_cons.mpr ⟨point, printable_cons.mpr ⟨zero, printable_nil⟩⟩⟩
  · exact printable_append.mpr ⟨front _, printable_cons.mpr ⟨point, back _⟩⟩

theorem printable_floatText (numeral : Numeral) : Printable (floatText numeral) := by
  unfold floatText
  refine printable_append.mpr ⟨?_, ?_⟩
  · split_ifs
    · exact printable_cons.mpr ⟨by decide, printable_nil⟩
    · exact printable_nil
  · split
    · exact printable_reprDecimal _ _
    · exact printable_word "Infinity" (by decide)

theorem typed_indented (value : JsonValue) : ∀ level, Typed (indented level value) := by
  induction value with
  | null => exact fun _ => (printable_word "null" (by decide)).typed
  | bool value =>
    cases value with
    | true => exact fun _ => (printable_word "true" (by decide)).typed
    | false => exact fun _ => (printable_word "false" (by decide)).typed
  | int value => exact fun _ => (printable_integer value).typed
  | float value => exact fun _ => (printable_floatText value).typed
  | nan => exact fun _ => (printable_word "NaN" (by decide)).typed
  | infinity negative =>
    cases negative with
    | true => exact fun _ => (printable_word "-Infinity" (by decide)).typed
    | false => exact fun _ => (printable_word "Infinity" (by decide)).typed
  | str value => exact fun _ => (printable_asciiQuote value).typed
  | arr items ih =>
    intro level
    refine typed_cons.mpr ⟨.inl (by decide), ?_⟩
    induction items with
    | nil => exact typed_cons.mpr ⟨.inl (by decide), List.forall_mem_nil _⟩
    | cons item items tail =>
      have first := ih item List.mem_cons_self (level + 1)
      have rest := tail fun other member => ih other (List.mem_cons_of_mem _ member)
      cases items with
      | nil =>
        exact typed_append.mpr ⟨typed_lineBreak _, typed_append.mpr ⟨first,
          typed_append.mpr ⟨typed_lineBreak _, rest⟩⟩⟩
      | cons next items =>
        exact typed_append.mpr ⟨typed_lineBreak _, typed_append.mpr ⟨first,
          typed_cons.mpr ⟨.inl (by decide), rest⟩⟩⟩
  | obj members ih =>
    intro level
    refine typed_cons.mpr ⟨.inl (by decide), ?_⟩
    induction members with
    | nil => exact typed_cons.mpr ⟨.inl (by decide), List.forall_mem_nil _⟩
    | cons member members tail =>
      obtain ⟨name, value⟩ := member
      have quoted := (printable_asciiQuote name).typed
      have first : Typed (indented (level + 1) value) := ih (name, value) List.mem_cons_self (level + 1)
      have rest := tail fun other member => ih other (List.mem_cons_of_mem _ member)
      have colon : isPrintable (CodePoint.ofChar ':') = true := by decide
      have blank : isPrintable (CodePoint.ofChar ' ') = true := by decide
      cases members with
      | nil =>
        exact typed_append.mpr ⟨typed_lineBreak _, typed_append.mpr ⟨quoted, typed_cons.mpr ⟨.inl colon,
          typed_cons.mpr ⟨.inl blank, typed_append.mpr ⟨first,
            typed_append.mpr ⟨typed_lineBreak _, rest⟩⟩⟩⟩⟩⟩
      | cons next members =>
        exact typed_append.mpr ⟨typed_lineBreak _, typed_append.mpr ⟨quoted, typed_cons.mpr ⟨.inl colon,
          typed_cons.mpr ⟨.inl blank, typed_append.mpr ⟨first,
            typed_cons.mpr ⟨.inl (by decide), rest⟩⟩⟩⟩⟩⟩

/-- A document that was written with a line feed behind it is read as it was written. -/
theorem parse_indented {limits : Limits} {value : JsonValue}
    (within : All JsonValue.children (IntsWithin limits) value)
    (shallow : value.depth ≤ limits.nesting) :
    parse limits (indented 0 value ++ [newline]) = .value value.written := by
  have mark : (indented 0 value ++ [newline]).head? ≠ some 0xFEFF := by
    intro marked
    have typed : Typed (indented 0 value ++ [newline]) :=
      typed_append.mpr ⟨typed_indented value 0, typed_cons.mpr ⟨.inr rfl, List.forall_mem_nil _⟩⟩
    have := typed _ (List.mem_of_head? marked)
    revert this
    decide
  have read := readsIndented limits value (2 * (indented 0 value ++ [newline]).length + 2)
    limits.nesting 0 [newline] within shallow (stopsNumber_cons _ (by decide))
    (by rw [List.length_append]; omega)
  rw [parse, if_neg mark, (visible_indented 0 value).skip, read]
  rfl

end Characters

end JsonCodec

end CodeCalc.Lib
