import CodeCalc.Lib.JsonRoundTrip

/-! A JSON text as the tree of its own members: repeated names are kept, each
member in its place.  What the decoder makes of the text is the tree with the
members of every object assigned to a dictionary. -/
namespace CodeCalc.Lib

namespace JsonValue

def children : JsonValue → List JsonValue
  | .arr items => items
  | .obj members => members.map Prod.snd
  | _ => []

/-- Induction with the hypothesis at every item and member. -/
@[induction_eliminator]
theorem induction {motive : JsonValue → Prop} (null : motive .null)
    (bool : ∀ value, motive (.bool value)) (int : ∀ value, motive (.int value))
    (float : ∀ value, motive (.float value)) (nan : motive .nan)
    (infinity : ∀ negative, motive (.infinity negative)) (str : ∀ value, motive (.str value))
    (arr : ∀ items, (∀ item ∈ items, motive item) → motive (.arr items))
    (obj : ∀ members, (∀ member ∈ members, motive member.2) → motive (.obj members)) :
    ∀ value, motive value
  | .null => null
  | .bool value => bool value
  | .int value => int value
  | .float value => float value
  | .nan => nan
  | .infinity negative => infinity negative
  | .str value => str value
  | .arr items => arr items fun item _ =>
      induction null bool int float nan infinity str arr obj item
  | .obj members => obj members fun member _ =>
      induction null bool int float nan infinity str arr obj member.2
termination_by value => sizeOf value
decreasing_by
  · have hlt := List.sizeOf_lt_of_mem ‹item ∈ items›
    simp only [JsonValue.arr.sizeOf_spec]
    omega
  · have hlt := sizeOf_snd_lt_of_mem ‹member ∈ members›
    simp only [JsonValue.obj.sizeOf_spec]
    omega

section Depth

mutual

/-- How many arrays and objects are inside one another. -/
def depth : JsonValue → Nat
  | .arr items => depthItems items + 1
  | .obj members => depthMembers members + 1
  | _ => 0

def depthItems : List JsonValue → Nat
  | [] => 0
  | item :: rest => max (depth item) (depthItems rest)

def depthMembers : List (Text × JsonValue) → Nat
  | [] => 0
  | (_, value) :: rest => max (depth value) (depthMembers rest)

end

theorem depthItems_le {items : List JsonValue} {bound : Nat} :
    depthItems items ≤ bound ↔ ∀ item ∈ items, item.depth ≤ bound := by
  induction items with
  | nil => simp [depthItems]
  | cons item rest ih => rw [depthItems, Nat.max_le, ih, List.forall_mem_cons]

theorem depthMembers_le {members : List (Text × JsonValue)} {bound : Nat} :
    depthMembers members ≤ bound ↔ ∀ member ∈ members, member.2.depth ≤ bound := by
  induction members with
  | nil => simp [depthMembers]
  | cons member rest ih => rw [depthMembers, Nat.max_le, ih, List.forall_mem_cons]

theorem depth_arr_le {items : List JsonValue} {bound : Nat} :
    (JsonValue.arr items).depth ≤ bound + 1 ↔ ∀ item ∈ items, item.depth ≤ bound := by
  rw [depth, Nat.succ_le_succ_iff, depthItems_le]

theorem depth_obj_le {members : List (Text × JsonValue)} {bound : Nat} :
    (JsonValue.obj members).depth ≤ bound + 1 ↔ ∀ member ∈ members, member.2.depth ≤ bound := by
  rw [depth, Nat.succ_le_succ_iff, depthMembers_le]

end Depth

section Rebuilding

variable (leaf : JsonValue → JsonValue)
  (collect : List (Text × JsonValue) → List (Text × JsonValue))

mutual

/-- A tree built anew: what has nothing inside by `leaf`, the members of an
object through `collect`. -/
def rebuild : JsonValue → JsonValue
  | .arr items => .arr (rebuildItems items)
  | .obj members => .obj (collect (rebuildMembers members))
  | value => leaf value

def rebuildItems : List JsonValue → List JsonValue
  | [] => []
  | item :: rest => rebuild item :: rebuildItems rest

def rebuildMembers : List (Text × JsonValue) → List (Text × JsonValue)
  | [] => []
  | (name, value) :: rest => (name, rebuild value) :: rebuildMembers rest

end

@[simp] theorem rebuild_arr (items : List JsonValue) :
    rebuild leaf collect (.arr items) = .arr (items.map (rebuild leaf collect)) := by
  have same : rebuildItems leaf collect items = items.map (rebuild leaf collect) := by
    induction items with
    | nil => rfl
    | cons item rest ih => rw [rebuildItems, ih, List.map_cons]
  rw [rebuild, same]

@[simp] theorem rebuild_obj (members : List (Text × JsonValue)) :
    rebuild leaf collect (.obj members) =
      .obj (collect (members.map fun member => (member.1, rebuild leaf collect member.2))) := by
  have same : rebuildMembers leaf collect members =
      members.map fun member => (member.1, rebuild leaf collect member.2) := by
    induction members with
    | nil => rfl
    | cons member rest ih => rw [rebuildMembers, ih, List.map_cons]
  rw [rebuild, same]

end Rebuilding

/-- The value that the decoder builds from a tree. -/
def merged : JsonValue → JsonValue := rebuild id JsonCodec.assign

end JsonValue

namespace JsonCodec

section Lossless

def readScalar (limits : Limits) (text : Text) : Read JsonValue :=
  match readWord text with
  | some (word, after) => .value word after
  | none =>
      match text with
      | [] => .malformed
      | code :: rest =>
          if code = CodePoint.ofChar '-' then readNumber limits true rest
          else readNumber limits false (code :: rest)

mutual

def readTree (limits : Limits) : Nat → Nat → Text → Read JsonValue
  | 0, _, _ => .spent
  | fuel + 1, depth, text =>
      match text with
      | [] => .malformed
      | code :: rest =>
          if code = quoteMark then (Read.ofOption (readString rest)).map .str
          else if code = CodePoint.ofChar '{' then
            match depth with
            | 0 => .failed .recursion
            | depth + 1 =>
                match skipBlanks rest with
                | [] => .malformed
                | next :: after =>
                    if next = CodePoint.ofChar '}' then .value (.obj []) after
                    else (readTreeMembers limits fuel depth (next :: after)).map .obj
          else if code = CodePoint.ofChar '[' then
            match depth with
            | 0 => .failed .recursion
            | depth + 1 =>
                match skipBlanks rest with
                | [] => .malformed
                | next :: after =>
                    if next = CodePoint.ofChar ']' then .value (.arr []) after
                    else (readTreeItems limits fuel depth (next :: after)).map .arr
          else readScalar limits (code :: rest)

def readTreeItems (limits : Limits) : Nat → Nat → Text → Read (List JsonValue)
  | 0, _, _ => .spent
  | fuel + 1, depth, text =>
      (readTree limits fuel depth text).andThen fun item rest =>
        match skipBlanks rest with
        | [] => .malformed
        | code :: rest =>
            if code = CodePoint.ofChar ']' then .value [item] rest
            else if code = CodePoint.ofChar ',' then
              (readTreeItems limits fuel depth (skipBlanks rest)).map fun items => item :: items
            else .malformed

def readTreeMembers (limits : Limits) : Nat → Nat → Text → Read (List (Text × JsonValue))
  | 0, _, _ => .spent
  | fuel + 1, depth, text =>
      match text with
      | [] => .malformed
      | mark :: rest =>
          if mark ≠ quoteMark then .malformed
          else (Read.ofOption (readString rest)).andThen fun key rest =>
            match skipBlanks rest with
            | [] => .malformed
            | colon :: rest =>
                if colon ≠ CodePoint.ofChar ':' then .malformed
                else (readTree limits fuel depth (skipBlanks rest)).andThen fun value rest =>
                  match skipBlanks rest with
                  | [] => .malformed
                  | code :: rest =>
                      if code = CodePoint.ofChar '}' then .value [(key, value)] rest
                      else if code = CodePoint.ofChar ',' then
                        (readTreeMembers limits fuel depth (skipBlanks rest)).map fun members =>
                          (key, value) :: members
                      else .malformed

end

def parse (limits : Limits) (text : Text) : Decoded :=
  if text.head? = some 0xFEFF then .malformed
  else match readTree limits (2 * text.length + 2) limits.nesting (skipBlanks text) with
    | .value result rest => if skipBlanks rest = [] then .value result else .malformed
    | .failed failure => .failed failure
    | .malformed | .spent => .malformed

def Decoded.map (f : JsonValue → JsonValue) : Decoded → Decoded
  | .value result => .value (f result)
  | .malformed => .malformed
  | .failed failure => .failed failure

end Lossless

section Merging

variable {α β γ : Type}

theorem Read.map_map (f : α → β) (g : β → γ) (read : Read α) :
    (read.map f).map g = read.map (g ∘ f) := by
  cases read <;> rfl

theorem Read.map_andThen (f : β → γ) (read : Read α) (next : α → Text → Read β) :
    (read.andThen next).map f = read.andThen fun result rest => (next result rest).map f := by
  cases read <;> rfl

theorem Read.andThen_map (f : α → β) (read : Read α) (next : β → Text → Read γ) :
    (read.map f).andThen next = read.andThen fun result rest => next (f result) rest := by
  cases read <;> rfl

/-- A value that a word or a number gives. -/
inductive IsScalar : JsonValue → Prop
  | null : IsScalar .null
  | bool (value : Bool) : IsScalar (.bool value)
  | int (value : Int) : IsScalar (.int value)
  | float (value : Numeral) : IsScalar (.float value)
  | nan : IsScalar .nan
  | infinity (negative : Bool) : IsScalar (.infinity negative)

theorem isScalar_words {word : Text × JsonValue} (member : word ∈ words) : IsScalar word.2 := by
  simp only [words, List.mem_cons, List.not_mem_nil, or_false] at member
  rcases member with rfl | rfl | rfl | rfl | rfl | rfl <;> constructor

theorem readNumber_isScalar {limits : Limits} {negative : Bool} {text rest : Text} {value : JsonValue}
    (h : readNumber limits negative text = .value value rest) : IsScalar value := by
  unfold readNumber at h
  dsimp only at h
  split_ifs at h <;> cases h <;> constructor

theorem readScalar_isScalar {limits : Limits} {text rest : Text} {value : JsonValue}
    (h : readScalar limits text = .value value rest) : IsScalar value := by
  unfold readScalar at h
  split at h
  · rename_i word after hword
    cases h
    obtain ⟨found, hfound, same⟩ := Option.map_eq_some_iff.mp hword
    cases same
    exact isScalar_words (List.mem_of_find?_eq_some hfound)
  · split at h
    · cases h
    · split_ifs at h
      · exact readNumber_isScalar h
      · exact readNumber_isScalar h

theorem IsScalar.merged {value : JsonValue} (scalar : IsScalar value) : value.merged = value := by
  cases scalar <;> rfl

theorem Read.map_of_forall {f : α → α} {read : Read α}
    (fixed : ∀ result rest, read = .value result rest → f result = result) : read.map f = read := by
  cases read with
  | value result rest => rw [Read.map, fixed result rest rfl]
  | _ => rfl

/-- The decoder and the lossless reader go through a text alike. -/
structure Merges (limits : Limits) (fuel : Nat) : Prop where
  value : ∀ depth text, readValue limits fuel depth text =
    (readTree limits fuel depth text).map JsonValue.merged
  items : ∀ depth text, readItems limits fuel depth text =
    (readTreeItems limits fuel depth text).map (List.map JsonValue.merged)
  members : ∀ depth text, readMembers limits fuel depth text =
    (readTreeMembers limits fuel depth text).map
      (List.map fun member => (member.1, JsonValue.merged member.2))

theorem merges (limits : Limits) (fuel : Nat) : Merges limits fuel := by
  induction fuel with
  | zero => constructor <;> (intro depth text; rfl)
  | succ fuel ih =>
    constructor
    · intro depth text
      cases text with
      | nil => rfl
      | cons code rest =>
        rw [readValue.eq_def, readTree.eq_def]
        dsimp only
        split_ifs with quote brace bracket minus
        · rw [Read.map_map]
          rfl
        · cases depth with
          | zero => rfl
          | succ depth =>
            dsimp only
            cases skipBlanks rest with
            | nil => rfl
            | cons next after =>
              dsimp only
              split_ifs with close
              · rfl
              · rw [ih.members, Read.map_map, Read.map_map]
                congr 1
                funext members
                exact (JsonValue.rebuild_obj id assign members).symm
        · cases depth with
          | zero => rfl
          | succ depth =>
            dsimp only
            cases skipBlanks rest with
            | nil => rfl
            | cons next after =>
              dsimp only
              split_ifs with close
              · rfl
              · rw [ih.items, Read.map_map, Read.map_map]
                congr 1
                funext items
                exact (JsonValue.rebuild_arr id assign items).symm
        · rewrite [Read.map_of_forall fun _ _ read => (readScalar_isScalar read).merged, readScalar,
            if_pos minus]
          rfl
        · rewrite [Read.map_of_forall fun _ _ read => (readScalar_isScalar read).merged, readScalar,
            if_neg minus]
          rfl
    · intro depth text
      rw [readItems, readTreeItems, ih.value, Read.andThen_map, Read.map_andThen]
      congr 1
      funext item rest
      cases skipBlanks rest with
      | nil => rfl
      | cons code after =>
        dsimp only
        split_ifs with close comma
        · rfl
        · rw [ih.items, Read.map_map, Read.map_map]
          rfl
        · rfl
    · intro depth text
      rw [readMembers.eq_def, readTreeMembers.eq_def]
      cases text with
      | nil => rfl
      | cons mark rest =>
        dsimp only
        split_ifs with opened
        · rfl
        · rw [Read.map_andThen]
          congr 1
          funext key rest
          cases skipBlanks rest with
          | nil => rfl
          | cons colon after =>
            dsimp only
            split_ifs with other
            · rfl
            · rw [ih.value, Read.andThen_map, Read.map_andThen]
              congr 1
              funext value rest
              cases skipBlanks rest with
              | nil => rfl
              | cons code after =>
                dsimp only
                split_ifs with close comma
                · rfl
                · rw [ih.members, Read.map_map, Read.map_map]
                  rfl
                · rfl

theorem loads_eq_parse (limits : Limits) (text : Text) :
    loads limits text = (parse limits text).map JsonValue.merged := by
  unfold loads parse
  split_ifs with marked
  · rfl
  · rw [(merges limits _).value]
    cases readTree limits (2 * text.length + 2) limits.nesting (skipBlanks text) with
    | value result rest =>
      dsimp only [Read.map]
      split_ifs <;> rfl
    | _ => rfl

end Merging

section Reading

variable {limits : Limits} {text rest : Text}

def Scalars (text : Text) : Prop := ∀ code ∈ text, ¬ (0xD800 ≤ code.val ∧ code.val ≤ 0xDFFF)

theorem Scalars.suffix (scalars : Scalars text) (suffix : rest <:+ text) : Scalars rest :=
  fun code member => scalars code (suffix.subset member)

theorem suffix_skipBlanks (text : Text) : skipBlanks text <:+ text := List.dropWhile_suffix isBlank

/-- A piece that was no escape is no surrogate. -/
def Piece.Plain : Piece → Prop
  | .plain code => isHigh code.val = false ∧ isLow code.val = false
  | .unit _ => True

theorem plain_of_scalar {code : CodePoint} (scalar : ¬ (0xD800 ≤ code.val ∧ code.val ≤ 0xDFFF)) :
    Piece.Plain (.plain code) := by
  simp only [Piece.Plain, isHigh, isLow, decide_eq_false_iff_not]
  omega

theorem shortEscape_scalar {kind code : CodePoint} (escape : shortEscape kind = some code) :
    ¬ (0xD800 ≤ code.val ∧ code.val ≤ 0xDFFF) := by
  have member := mem_of_entryOf escape
  simp only [List.mem_cons, Prod.mk.injEq, List.not_mem_nil, or_false] at member
  rcases member with ⟨-, rfl⟩ | ⟨-, rfl⟩ | ⟨-, rfl⟩ | ⟨-, rfl⟩ | ⟨-, rfl⟩ | ⟨-, rfl⟩ | ⟨-, rfl⟩ |
    ⟨-, rfl⟩ <;> decide

theorem readPieces_plain {pieces : List Piece} (scalars : Scalars text)
    (h : readPieces text = some (pieces, rest)) :
    (∀ piece ∈ pieces, piece.Plain) ∧ rest <:+ text := by
  fun_induction readPieces text generalizing pieces rest with
  | case1 => cases h
  | case2 =>
    cases h
    exact ⟨List.forall_mem_nil _, List.suffix_cons _ _⟩
  | case3 first second third fourth after _ ih =>
    simp only [Option.bind_eq_bind, Option.bind_eq_some_iff] at h
    obtain ⟨value, _, ⟨read, after'⟩, htail, h⟩ := h
    cases h
    have suffix : after <:+ backslash :: CodePoint.ofChar 'u' :: first :: second :: third :: fourth :: after :=
      ⟨[backslash, CodePoint.ofChar 'u', first, second, third, fourth], rfl⟩
    obtain ⟨plain, inside⟩ := ih (scalars.suffix suffix) htail
    exact ⟨List.forall_mem_cons.mpr ⟨trivial, plain⟩, inside.trans suffix⟩
  | case4 => cases h
  | case5 kind after _ _ ih =>
    simp only [Option.bind_eq_bind, Option.bind_eq_some_iff] at h
    obtain ⟨escaped, hescape, ⟨read, after'⟩, htail, h⟩ := h
    cases h
    have suffix : after <:+ backslash :: kind :: after := ⟨[backslash, kind], rfl⟩
    obtain ⟨plain, inside⟩ := ih (scalars.suffix suffix) htail
    exact ⟨List.forall_mem_cons.mpr ⟨plain_of_scalar (shortEscape_scalar hescape), plain⟩,
      inside.trans suffix⟩
  | case6 => cases h
  | case7 => cases h
  | case8 code after _ _ _ ih =>
    simp only [Option.bind_eq_bind, Option.bind_eq_some_iff] at h
    obtain ⟨⟨read, after'⟩, htail, h⟩ := h
    cases h
    obtain ⟨plain, inside⟩ := ih (scalars.suffix (List.suffix_cons _ _)) htail
    exact ⟨List.forall_mem_cons.mpr ⟨plain_of_scalar (scalars code List.mem_cons_self), plain⟩,
      inside.trans (List.suffix_cons _ _)⟩

def Piece.code : Piece → CodePoint
  | .plain code => code
  | .unit value => Fin.ofNat 0x110000 value.val

theorem code_unit (value : Fin 0x10000) : (Piece.code (.unit value)).val = value.val :=
  Nat.mod_eq_of_lt (by omega)

theorem joined_cons {code : CodePoint} {text : Text}
    (single : ∀ low, text.head? = some low → (isHigh code.val && isLow low.val) = false) :
    joined (code :: text) = code :: joined text := by
  cases text with
  | nil => rfl
  | cons low text =>
    rw [joined, single low rfl]
    rfl

theorem joinPieces_eq_joined {pieces : List Piece} (plain : ∀ piece ∈ pieces, piece.Plain) :
    joinPieces pieces = joined (pieces.map Piece.code) := by
  fun_induction joinPieces pieces with
  | case1 => rfl
  | case2 code pieces ih =>
    obtain ⟨here, plain⟩ := List.forall_mem_cons.mp plain
    rw [ih plain, List.map_cons, joined_cons]
    · rfl
    · intro low _
      rw [show isHigh (Piece.code (.plain code)).val = false from here.1, Bool.false_and]
  | case3 => rfl
  | case4 high low pieces joins ih =>
    rw [ih fun piece member => plain piece (by simp [member]), List.map_cons, List.map_cons, joined,
      code_unit, code_unit, if_pos joins]
  | case5 high low pieces single ih =>
    have split : (Piece.unit high :: Piece.unit low :: pieces).map Piece.code =
        Piece.code (.unit high) :: (Piece.unit low :: pieces).map Piece.code := rfl
    rw [ih fun piece member => plain piece (List.mem_cons_of_mem _ member), split, joined_cons]
    · rfl
    · intro first same
      rw [List.map_cons, List.head?_cons, Option.some_inj] at same
      rw [← same, code_unit, code_unit]
      exact Bool.eq_false_iff.mpr single
  | case6 value code pieces ih =>
    obtain ⟨_, plain⟩ := List.forall_mem_cons.mp plain
    obtain ⟨here, plain⟩ := List.forall_mem_cons.mp plain
    rw [ih plain, List.map_cons, List.map_cons, joined_cons, joined_cons]
    · rfl
    · intro low _
      rw [show isHigh (Piece.code (.plain code)).val = false from here.1, Bool.false_and]
    · intro low same
      rw [List.head?_cons, Option.some_inj] at same
      rw [← same, show isLow (Piece.code (.plain code)).val = false from here.2, Bool.and_false]

/-- A string that is read has no pair of surrogates left to join. -/
theorem readString_pairless {value : Text} (scalars : Scalars text)
    (h : readString text = some (value, rest)) : Pairless value ∧ rest <:+ text := by
  obtain ⟨⟨pieces, after⟩, read, same⟩ := Option.map_eq_some_iff.mp h
  cases same
  obtain ⟨plain, suffix⟩ := readPieces_plain scalars read
  rw [joinPieces_eq_joined plain]
  exact ⟨pairless_joined _, suffix⟩

/-- What the reader makes sure of at every value: an integer's digits are within
the limit, and strings and names have no pair of surrogates. -/
def Regular (limits : Limits) : JsonValue → Prop
  | .int value => (decimal value.natAbs).length ≤ limits.digits
  | .str value => Pairless value
  | .obj members => ∀ member ∈ members, Pairless member.1
  | _ => True

theorem all_arr {p : JsonValue → Prop} {items : List JsonValue} :
    All JsonValue.children p (.arr items) ↔
      p (.arr items) ∧ ∀ item ∈ items, All JsonValue.children p item := all_iff

theorem all_obj {p : JsonValue → Prop} {members : List (Text × JsonValue)} :
    All JsonValue.children p (.obj members) ↔
      p (.obj members) ∧ ∀ member ∈ members, All JsonValue.children p member.2 := by
  rw [all_iff]
  simp only [JsonValue.children, List.forall_mem_map]

theorem digitsValue_lt {row : Text} (digits : ∀ code ∈ row, isDigit code = true) :
    digitsValue row < 10 ^ row.length := by
  induction row using List.reverseRecOn with
  | nil => simp [digitsValue]
  | append_singleton row code ih =>
    have less := ih fun other member => digits other (by simp [member])
    have digit := of_decide_eq_true (digits code (by simp))
    rw [digitsValue, List.foldl_concat, ← digitsValue, List.length_append, List.length_singleton,
      Nat.pow_succ]
    omega

theorem integral_digits (text : Text) : ∀ code ∈ (integral text).1, isDigit code = true := by
  unfold integral
  split
  · split_ifs with zero
    · intro code member
      rw [List.mem_singleton.mp member, zero]
      decide
    · exact fun code member => List.mem_takeWhile_imp member
  · exact List.forall_mem_nil _

theorem integral_suffix (text : Text) : (integral text).2 <:+ text := by
  unfold integral
  split
  · split_ifs with zero
    · exact List.suffix_cons _ _
    · exact List.dropWhile_suffix isDigit
  · exact List.suffix_rfl

theorem readNumber_regular {negative : Bool} {value : JsonValue}
    (h : readNumber limits negative text = .value value rest) :
    All JsonValue.children (Regular limits) value ∧ value.depth = 0 ∧ rest <:+ text := by
  have suffix := (exponent_suffix (fraction (integral text).2).2).trans
    ((fraction_suffix (integral text).2).trans (integral_suffix text))
  unfold readNumber at h
  dsimp only at h
  split_ifs at h with none whole long sign
  · cases h
    refine ⟨.leaf ?_ rfl, rfl, suffix⟩
    rw [Regular, Int.natAbs_neg, Int.natAbs_natCast]
    exact (length_decimal_le (List.length_pos_iff.mpr none) (digitsValue_lt (integral_digits text))).trans
      (Nat.not_lt.mp long)
  · cases h
    refine ⟨.leaf ?_ rfl, rfl, suffix⟩
    rw [Regular, Int.natAbs_natCast]
    exact (length_decimal_le (List.length_pos_iff.mpr none) (digitsValue_lt (integral_digits text))).trans
      (Nat.not_lt.mp long)
  · cases h
    exact ⟨.leaf trivial rfl, rfl, suffix⟩

theorem regular_words {word : Text × JsonValue} (member : word ∈ words) :
    All JsonValue.children (Regular limits) word.2 ∧ word.2.depth = 0 := by
  simp only [words, List.mem_cons, List.not_mem_nil, or_false] at member
  rcases member with rfl | rfl | rfl | rfl | rfl | rfl <;> exact ⟨.leaf trivial rfl, rfl⟩

theorem readScalar_regular {value : JsonValue} (h : readScalar limits text = .value value rest) :
    All JsonValue.children (Regular limits) value ∧ value.depth = 0 ∧ rest <:+ text := by
  unfold readScalar at h
  split at h
  · rename_i word after hword
    cases h
    obtain ⟨found, hfound, same⟩ := Option.map_eq_some_iff.mp hword
    cases same
    obtain ⟨regular, flat⟩ := @regular_words limits found (List.mem_of_find?_eq_some hfound)
    exact ⟨regular, flat, List.drop_suffix _ _⟩
  · split at h
    · cases h
    · split_ifs at h
      · obtain ⟨regular, flat, suffix⟩ := readNumber_regular h
        exact ⟨regular, flat, suffix.trans (List.suffix_cons _ _)⟩
      · exact readNumber_regular h

structure ReadsRegular (limits : Limits) (fuel : Nat) : Prop where
  value : ∀ depth text result rest, Scalars text →
    readTree limits fuel depth text = .value result rest →
    All JsonValue.children (Regular limits) result ∧ result.depth ≤ depth ∧ rest <:+ text
  items : ∀ depth text result rest, Scalars text →
    readTreeItems limits fuel depth text = .value result rest →
    (∀ item ∈ result, All JsonValue.children (Regular limits) item ∧ item.depth ≤ depth) ∧ rest <:+ text
  members : ∀ depth text result rest, Scalars text →
    readTreeMembers limits fuel depth text = .value result rest →
    (∀ member ∈ result, Pairless member.1 ∧ All JsonValue.children (Regular limits) member.2 ∧
      member.2.depth ≤ depth) ∧ rest <:+ text

theorem readsRegular (limits : Limits) (fuel : Nat) : ReadsRegular limits fuel := by
  induction fuel with
  | zero => constructor <;> (intro depth text result rest _ h; cases h)
  | succ fuel ih =>
    constructor
    · intro depth text result rest scalars h
      cases text with
      | nil => cases h
      | cons code after =>
        have tail := scalars.suffix (List.suffix_cons code after)
        have blank := suffix_skipBlanks after
        rw [readTree.eq_def] at h
        dsimp only at h
        split_ifs at h with quote brace bracket
        · obtain ⟨value, hvalue, rfl⟩ := Read.map_eq_value h
          obtain ⟨pairless, suffix⟩ := readString_pairless tail (Read.ofOption_eq_value hvalue)
          exact ⟨.leaf pairless rfl, Nat.zero_le _, suffix.trans (List.suffix_cons _ _)⟩
        · cases depth with
          | zero => cases h
          | succ depth =>
            dsimp only at h
            split at h
            · cases h
            · rename_i next last hskip
              rw [hskip] at blank
              split_ifs at h with close
              · cases h
                refine ⟨all_obj.mpr ⟨List.forall_mem_nil _, List.forall_mem_nil _⟩,
                  JsonValue.depth_obj_le.mpr (List.forall_mem_nil _), ?_⟩
                exact (List.suffix_cons _ _).trans (blank.trans (List.suffix_cons _ _))
              · obtain ⟨members, hmembers, rfl⟩ := Read.map_eq_value h
                obtain ⟨regular, suffix⟩ := ih.members _ _ _ _ (tail.suffix blank) hmembers
                exact ⟨all_obj.mpr ⟨fun member inside => (regular member inside).1,
                  fun member inside => (regular member inside).2.1⟩,
                  JsonValue.depth_obj_le.mpr fun member inside => (regular member inside).2.2,
                  suffix.trans (blank.trans (List.suffix_cons _ _))⟩
        · cases depth with
          | zero => cases h
          | succ depth =>
            dsimp only at h
            split at h
            · cases h
            · rename_i next last hskip
              rw [hskip] at blank
              split_ifs at h with close
              · cases h
                refine ⟨all_arr.mpr ⟨trivial, List.forall_mem_nil _⟩,
                  JsonValue.depth_arr_le.mpr (List.forall_mem_nil _), ?_⟩
                exact (List.suffix_cons _ _).trans (blank.trans (List.suffix_cons _ _))
              · obtain ⟨items, hitems, rfl⟩ := Read.map_eq_value h
                obtain ⟨regular, suffix⟩ := ih.items _ _ _ _ (tail.suffix blank) hitems
                exact ⟨all_arr.mpr ⟨trivial, fun item inside => (regular item inside).1⟩,
                  JsonValue.depth_arr_le.mpr fun item inside => (regular item inside).2,
                  suffix.trans (blank.trans (List.suffix_cons _ _))⟩
        · obtain ⟨regular, flat, suffix⟩ := readScalar_regular h
          exact ⟨regular, flat.trans_le (Nat.zero_le _), suffix⟩
    · intro depth text result rest scalars h
      rw [readTreeItems] at h
      obtain ⟨item, middle, hitem, h⟩ := Read.andThen_eq_value h
      obtain ⟨regular, shallow, suffix⟩ := ih.value _ _ _ _ scalars hitem
      have blank := (suffix_skipBlanks middle).trans suffix
      split at h
      · cases h
      · rename_i code after hskip
        rw [hskip] at blank
        have tail := (List.suffix_cons code after).trans blank
        split_ifs at h with close comma
        · cases h
          refine ⟨fun other member => ?_, tail⟩
          rw [List.mem_singleton.mp member]
          exact ⟨regular, shallow⟩
        · obtain ⟨items, hitems, rfl⟩ := Read.map_eq_value h
          have more := (suffix_skipBlanks after).trans tail
          obtain ⟨others, suffix'⟩ := ih.items _ _ _ _ (scalars.suffix more) hitems
          exact ⟨List.forall_mem_cons.mpr ⟨⟨regular, shallow⟩, others⟩, suffix'.trans more⟩
    · intro depth text result rest scalars h
      rw [readTreeMembers.eq_def] at h
      cases text with
      | nil => cases h
      | cons mark after =>
        dsimp only at h
        split at h
        · cases h
        · obtain ⟨key, middle, hkey, h⟩ := Read.andThen_eq_value h
          obtain ⟨pairless, suffix⟩ := readString_pairless (scalars.suffix (List.suffix_cons mark after))
            (Read.ofOption_eq_value hkey)
          have blank := (suffix_skipBlanks middle).trans (suffix.trans (List.suffix_cons mark after))
          split at h
          · cases h
          · rename_i colon back hskip
            rw [hskip] at blank
            split at h
            · cases h
            · obtain ⟨value, behind, hvalue, h⟩ := Read.andThen_eq_value h
              have start := (suffix_skipBlanks back).trans ((List.suffix_cons colon back).trans blank)
              obtain ⟨regular, shallow, suffix'⟩ := ih.value _ _ _ _ (scalars.suffix start) hvalue
              have blank' := (suffix_skipBlanks behind).trans (suffix'.trans start)
              split at h
              · cases h
              · rename_i code last hlast
                rw [hlast] at blank'
                have tail := (List.suffix_cons code last).trans blank'
                split_ifs at h with close comma
                · cases h
                  refine ⟨fun other member => ?_, tail⟩
                  rw [List.mem_singleton.mp member]
                  exact ⟨pairless, regular, shallow⟩
                · obtain ⟨members, hmembers, rfl⟩ := Read.map_eq_value h
                  have more := (suffix_skipBlanks last).trans tail
                  obtain ⟨others, suffix''⟩ := ih.members _ _ _ _ (scalars.suffix more) hmembers
                  exact ⟨List.forall_mem_cons.mpr ⟨⟨pairless, regular, shallow⟩, others⟩,
                    suffix''.trans more⟩

theorem parse_regular {value : JsonValue} (scalars : Scalars text)
    (h : parse limits text = .value value) :
    All JsonValue.children (Regular limits) value ∧ value.depth ≤ limits.nesting := by
  unfold parse at h
  split_ifs at h
  split at h
  · rename_i result rest hread
    split_ifs at h
    cases h
    obtain ⟨regular, shallow, _⟩ := (readsRegular limits _).value _ _ _ _
      (scalars.suffix (suffix_skipBlanks text)) hread
    exact ⟨regular, shallow⟩
  all_goals cases h

end Reading

end JsonCodec

end CodeCalc.Lib
