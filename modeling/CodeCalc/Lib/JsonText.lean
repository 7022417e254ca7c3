import Mathlib.Data.List.Sort
import CodeCalc.Lib.Text
import CodeCalc.Lib.Tree

/-! JSON documents and their compact text: no whitespace, non-ASCII characters
left alone, members of an object in the order of their keys.  The text
determines the document with its members sorted. -/
namespace CodeCalc.Lib

/-- A JSON document without floats; members keep the order they were given. -/
inductive Doc where
  | null
  | bool (value : Bool)
  | int (value : Int)
  | str (value : Text)
  | arr (items : List Doc)
  | obj (members : List (Text × Doc))

namespace Doc

/-- Induction with the hypothesis at every item and member. -/
@[induction_eliminator]
theorem induction {motive : Doc → Prop} (null : motive .null)
    (bool : ∀ value, motive (.bool value)) (int : ∀ value, motive (.int value))
    (str : ∀ value, motive (.str value))
    (arr : ∀ items, (∀ item ∈ items, motive item) → motive (.arr items))
    (obj : ∀ members, (∀ member ∈ members, motive member.2) → motive (.obj members)) :
    ∀ doc, motive doc
  | .null => null
  | .bool value => bool value
  | .int value => int value
  | .str value => str value
  | .arr items => arr items fun item _ => induction null bool int str arr obj item
  | .obj members => obj members fun member _ => induction null bool int str arr obj member.2
termination_by doc => sizeOf doc
decreasing_by
  · have hlt := List.sizeOf_lt_of_mem ‹item ∈ items›
    simp only [Doc.arr.sizeOf_spec]
    omega
  · have hlt := sizeOf_snd_lt_of_mem ‹member ∈ members›
    simp only [Doc.obj.sizeOf_spec]
    omega

end Doc

section Sorting

variable {ν μ : Type}

def keyLe (left right : Text × ν) : Prop := left.1 ≤ right.1

instance : DecidableRel (@keyLe ν) :=
  fun left right => inferInstanceAs (Decidable (left.1 ≤ right.1))

instance : Std.Total (@keyLe ν) := ⟨fun left right => le_total left.1 right.1⟩

instance : IsTrans (Text × ν) keyLe := ⟨fun _ _ _ first second => le_trans first second⟩

/-- Entries in the order of their keys, code point by code point. -/
def sortByKey (entries : List (Text × ν)) : List (Text × ν) := entries.insertionSort keyLe

theorem perm_sortByKey (entries : List (Text × ν)) : (sortByKey entries).Perm entries :=
  List.perm_insertionSort keyLe entries

theorem sortByKey_map (f : ν → μ) (entries : List (Text × ν)) :
    sortByKey (entries.map fun entry => (entry.1, f entry.2)) =
      (sortByKey entries).map fun entry => (entry.1, f entry.2) := by
  unfold sortByKey
  rw [List.map_insertionSort keyLe keyLe]
  intro left _ right _
  rfl

theorem sortByKey_eq_of_perm {entries others : List (Text × ν)} (perm : entries.Perm others)
    (distinct : (entries.map Prod.fst).Nodup) : sortByKey entries = sortByKey others := by
  have hperm : (sortByKey entries).Perm (sortByKey others) :=
    (perm_sortByKey entries).trans (perm.trans (perm_sortByKey others).symm)
  refine List.Perm.eq_of_pairwise ?_ (List.pairwise_insertionSort keyLe entries)
    (List.pairwise_insertionSort keyLe others) hperm
  intro left right hleft hright le ge
  have hkey : left.1 = right.1 := le_antisymm le ge
  exact List.inj_on_of_nodup_map distinct ((perm_sortByKey entries).mem_iff.mp hleft)
    (perm.mem_iff.mpr ((perm_sortByKey others).mem_iff.mp hright)) hkey

end Sorting

section Quoting

def doubleQuote : CodePoint := '"'

def hexDigit (value : Nat) : CodePoint :=
  if value < 10 then Fin.ofNat _ (48 + value) else Fin.ofNat _ (87 + value)

/-- One code point inside a string: the quote, the backslash and the control
characters below the space are escaped, nothing else is. -/
def escape (code : CodePoint) : Text :=
  if code = doubleQuote then ['\\', doubleQuote]
  else if code = '\\' then ['\\', '\\']
  else if code = '\n' then ['\\', 'n']
  else if code = '\r' then ['\\', 'r']
  else if code = '\t' then ['\\', 't']
  else if code.val = 12 then ['\\', 'f']
  else if code.val = 8 then ['\\', 'b']
  else if code.val < 32 then
    ['\\', 'u', '0', '0', hexDigit (code.val / 16), hexDigit (code.val % 16)]
  else [code]

def quote (text : Text) : Text := doubleQuote :: (text.flatMap escape ++ [doubleQuote])

private def hexValue (code : CodePoint) : Nat :=
  if code.val < 58 then code.val - 48 else code.val - 87

private theorem hexValue_hexDigit {value : Nat} (h : value < 16) :
    hexValue (hexDigit value) = value := by
  unfold hexDigit
  by_cases hten : value < 10
  · have hval : (Fin.ofNat 0x110000 (48 + value)).val = 48 + value := Nat.mod_eq_of_lt (by omega)
    rw [if_pos hten, hexValue, hval, if_pos (by omega)]
    omega
  · have hval : (Fin.ofNat 0x110000 (87 + value)).val = 87 + value := Nat.mod_eq_of_lt (by omega)
    rw [if_neg hten, hexValue, hval, if_neg (by omega)]
    omega

/-- The code point an escaped text begins with; the quote ends the string. -/
private def unescape : Text → Option (CodePoint × Text)
  | [] => none
  | mark :: rest =>
      if mark = doubleQuote then none
      else if mark.val = 92 then
        match rest with
        | kind :: rest =>
            if kind.val = 117 then
              match rest with
              | _ :: _ :: high :: low :: rest =>
                  some (Fin.ofNat _ (16 * hexValue high + hexValue low), rest)
              | _ => none
            else if kind.val = 110 then some (10, rest)
            else if kind.val = 114 then some (13, rest)
            else if kind.val = 116 then some (9, rest)
            else if kind.val = 102 then some (12, rest)
            else if kind.val = 98 then some (8, rest)
            else some (kind, rest)
        | [] => none
      else some (mark, rest)

private theorem unescape_escape (code : CodePoint) (rest : Text) :
    unescape (escape code ++ rest) = some (code, rest) := by
  unfold escape
  split_ifs with hquote hslash hnewline hreturn htab hfeed hback hcontrol
  · subst hquote
    rfl
  · subst hslash
    rfl
  · subst hnewline
    rfl
  · subst hreturn
    rfl
  · subst htab
    rfl
  · have hcode : code = 12 := Fin.ext hfeed
    subst hcode
    rfl
  · have hcode : code = 8 := Fin.ext hback
    subst hcode
    rfl
  · have hread : Fin.ofNat 0x110000 (16 * hexValue (hexDigit (code.val / 16)) +
        hexValue (hexDigit (code.val % 16))) = code := by
      rw [hexValue_hexDigit (by omega), hexValue_hexDigit (by omega), Nat.div_add_mod]
      exact Fin.ext (Nat.mod_eq_of_lt code.isLt)
    exact congrArg some (Prod.ext hread rfl)
  · have hval : code.val ≠ 92 := fun h => hslash (Fin.ext h)
    simp only [List.cons_append, List.nil_append, unescape]
    rw [if_neg hquote, if_neg hval]

theorem reads_quote (text : Text) : Reads quote (fun _ => True) text := by
  intro other rest rest' _ _ h
  simp only [quote, List.cons_append, List.append_assoc, List.nil_append, List.cons.injEq,
    true_and] at h
  induction text generalizing other with
  | nil =>
    cases other with
    | nil => exact ⟨rfl, (List.cons.inj h).2⟩
    | cons code other =>
      have hread := congrArg unescape h
      rw [List.flatMap_cons, List.append_assoc, unescape_escape] at hread
      cases hread
  | cons code text ih =>
    have hread := congrArg unescape h
    rw [List.flatMap_cons, List.append_assoc, unescape_escape] at hread
    cases other with
    | nil => cases hread
    | cons code' other =>
      rw [List.flatMap_cons, List.append_assoc, unescape_escape] at hread
      obtain ⟨rfl, htail⟩ := Prod.mk.inj (Option.some.inj hread)
      obtain ⟨rfl, hrest⟩ := ih other htail
      exact ⟨rfl, hrest⟩

end Quoting

def comma : CodePoint := ','

def colon : CodePoint := ':'

def enclosed (opening close : CodePoint) (texts : List Text) : Text :=
  opening :: (separated comma texts ++ [close])

namespace Doc

mutual

def print : Doc → Text
  | .null => Text.ofString "null"
  | .bool true => Text.ofString "true"
  | .bool false => Text.ofString "false"
  | .int value => integer value
  | .str value => quote value
  | .arr items => enclosed '[' ']' (printItems items)
  | .obj members => enclosed '\x7b' '\x7d' (printMembers members)

def printItems : List Doc → List Text
  | [] => []
  | item :: items => item.print :: printItems items

def printMembers : List (Text × Doc) → List Text
  | [] => []
  | (key, value) :: members => (quote key ++ colon :: value.print) :: printMembers members

end

def printMember (member : Text × Doc) : Text := quote member.1 ++ colon :: member.2.print

theorem printItems_eq_map (items : List Doc) : printItems items = items.map print := by
  induction items with
  | nil => rfl
  | cons item items ih => rw [printItems, ih, List.map_cons]

theorem printMembers_eq_map (members : List (Text × Doc)) :
    printMembers members = members.map printMember := by
  induction members with
  | nil => rfl
  | cons member members ih =>
    obtain ⟨key, value⟩ := member
    rw [printMembers, ih, List.map_cons, printMember]

/-- What the first code point of a text says about the document. -/
inductive Opening where
  | null
  | bool (value : Bool)
  | int
  | str
  | arr
  | obj

def opening : Doc → Opening
  | .null => .null
  | .bool value => .bool value
  | .int _ => .int
  | .str _ => .str
  | .arr _ => .arr
  | .obj _ => .obj

private def openingOf (code : CodePoint) : Option Opening :=
  if code = '-' ∨ isDigit code = true then some .int
  else if code = 'n' then some .null
  else if code = 't' then some (.bool true)
  else if code = 'f' then some (.bool false)
  else if code = '"' then some .str
  else if code = '[' then some .arr
  else if code = '\x7b' then some .obj
  else none

private theorem print_head (doc : Doc) :
    ∃ code rest, doc.print = code :: rest ∧ openingOf code = some doc.opening := by
  cases doc with
  | null => exact ⟨'n', _, rfl, rfl⟩
  | bool value => cases value <;> exact ⟨_, _, rfl, rfl⟩
  | int value =>
    obtain ⟨code, rest, h, hcode⟩ := integer_head value
    exact ⟨code, rest, by rw [print, h], if_pos hcode⟩
  | str value => exact ⟨'"', _, rfl, rfl⟩
  | arr items => exact ⟨'[', _, rfl, rfl⟩
  | obj members => exact ⟨'\x7b', _, rfl, rfl⟩

private theorem opening_eq_of_print {doc other : Doc} {rest rest' : Text}
    (h : doc.print ++ rest = other.print ++ rest') : doc.opening = other.opening := by
  obtain ⟨code, tail, hdoc, hopening⟩ := print_head doc
  obtain ⟨code', tail', hother, hopening'⟩ := print_head other
  rw [hdoc, hother] at h
  apply Option.some.inj
  rw [← hopening, ← hopening', (List.cons.inj h).1]

private theorem print_ne_close (doc : Doc) (rest rest' : Text) :
    doc.print ++ rest ≠ CodePoint.ofChar ']' :: rest' := by
  intro h
  obtain ⟨code, tail, hdoc, hopening⟩ := print_head doc
  rw [hdoc] at h
  rw [(List.cons.inj h).1] at hopening
  cases hopening

private theorem reads_printMember {member : Text × Doc}
    (reads : Reads print StopsNumeral member.2) : Reads printMember StopsNumeral member := by
  intro other rest rest' stops stops' h
  obtain ⟨key, value⟩ := member
  obtain ⟨key', value'⟩ := other
  simp only [printMember, List.append_assoc, List.cons_append] at h
  obtain ⟨rfl, hvalue⟩ := reads_quote key key' _ _ trivial trivial h
  obtain ⟨hsame, hrest⟩ := reads value' rest rest' stops stops' (List.cons.inj hvalue).2
  exact ⟨Prod.ext rfl hsame, hrest⟩

private theorem reads_enclosed {α : Type} {printOne : α → Text} {close : CodePoint}
    (distinct : comma ≠ close) (stops : isDigit close = false)
    (opens : ∀ value rest rest', printOne value ++ rest ≠ close :: rest') (items : List α)
    (reads : ∀ item ∈ items, Reads printOne StopsNumeral item) (others : List α)
    (rest rest' : Text) (first : CodePoint)
    (h : enclosed first close (items.map printOne) ++ rest =
      enclosed first close (others.map printOne) ++ rest') : items = others ∧ rest = rest' :=
  reads_separated distinct (fun _ => stopsNumeral_cons _ (by decide))
    (fun _ => stopsNumeral_cons _ stops) opens items reads others rest rest' trivial trivial
    (List.cons.inj h).2

theorem reads_print (doc : Doc) : Reads print StopsNumeral doc := by
  induction doc with
  | null =>
    intro other rest rest' _ _ h
    cases other
    case null => exact ⟨rfl, List.append_cancel_left h⟩
    all_goals cases opening_eq_of_print h
  | bool value =>
    intro other rest rest' _ _ h
    cases other
    case bool other =>
      cases opening_eq_of_print h
      exact ⟨rfl, List.append_cancel_left h⟩
    all_goals cases opening_eq_of_print h
  | int value =>
    intro other rest rest' stops stops' h
    cases other
    case int other =>
      obtain ⟨rfl, hrest⟩ := reads_integer value other rest rest' stops stops' h
      exact ⟨rfl, hrest⟩
    all_goals cases opening_eq_of_print h
  | str value =>
    intro other rest rest' _ _ h
    cases other
    case str other =>
      obtain ⟨rfl, hrest⟩ := reads_quote value other rest rest' trivial trivial h
      exact ⟨rfl, hrest⟩
    all_goals cases opening_eq_of_print h
  | arr items ih =>
    intro other rest rest' _ _ h
    cases other
    case arr others =>
      simp only [print, printItems_eq_map] at h
      obtain ⟨rfl, hrest⟩ := reads_enclosed (by decide) (by decide) print_ne_close items ih
        others rest rest' _ h
      exact ⟨rfl, hrest⟩
    all_goals cases opening_eq_of_print h
  | obj members ih =>
    intro other rest rest' _ _ h
    cases other
    case obj others =>
      simp only [print, printMembers_eq_map] at h
      have opens (member : Text × Doc) (rest rest' : Text) :
          printMember member ++ rest ≠ CodePoint.ofChar '\x7d' :: rest' := by
        intro same
        exact absurd (List.cons.inj same).1 (by decide)
      obtain ⟨rfl, hrest⟩ := reads_enclosed (by decide) (by decide) opens members
        (fun member hmember => reads_printMember (ih member hmember)) others rest rest' _ h
      exact ⟨rfl, hrest⟩
    all_goals cases opening_eq_of_print h

theorem print_injective : Function.Injective print := fun doc _ same =>
  (reads_print doc).eq_of_print_eq stopsNumeral_nil same

mutual

/-- `sort_keys=True`, at every level. -/
def sortKeys : Doc → Doc
  | .arr items => .arr (sortItems items)
  | .obj members => .obj (sortByKey (sortMembers members))
  | .null => .null
  | .bool value => .bool value
  | .int value => .int value
  | .str value => .str value

def sortItems : List Doc → List Doc
  | [] => []
  | item :: items => item.sortKeys :: sortItems items

def sortMembers : List (Text × Doc) → List (Text × Doc)
  | [] => []
  | (key, value) :: members => (key, value.sortKeys) :: sortMembers members

end

theorem sortItems_eq_map (items : List Doc) : sortItems items = items.map sortKeys := by
  induction items with
  | nil => rfl
  | cons item items ih => rw [sortItems, ih, List.map_cons]

theorem sortMembers_eq_map (members : List (Text × Doc)) :
    sortMembers members = members.map fun member => (member.1, member.2.sortKeys) := by
  induction members with
  | nil => rfl
  | cons member members ih =>
    obtain ⟨key, value⟩ := member
    rw [sortMembers, ih, List.map_cons]

def compact (doc : Doc) : Text := doc.sortKeys.print

theorem compact_eq_iff {doc other : Doc} :
    doc.compact = other.compact ↔ doc.sortKeys = other.sortKeys :=
  print_injective.eq_iff

mutual

/-- The integers of a document, in the order they are printed. -/
def ints : Doc → List Int
  | .int value => [value]
  | .arr items => intsOfItems items
  | .obj members => intsOfMembers members
  | .null => []
  | .bool _ => []
  | .str _ => []

def intsOfItems : List Doc → List Int
  | [] => []
  | item :: items => item.ints ++ intsOfItems items

def intsOfMembers : List (Text × Doc) → List Int
  | [] => []
  | (_, value) :: members => value.ints ++ intsOfMembers members

end

end Doc

end CodeCalc.Lib
