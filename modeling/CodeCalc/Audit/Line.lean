import CodeCalc.Audit.Emit

/-! What the cells of a line spell: the JSON text of an event as it stands in the
line, and of an event with parts of its strings replaced. -/
namespace CodeCalc.Audit

open Lib Lib.JsonCodec

section Writing

/-- Cells of a string: none of the JSON around it. -/
def Loose (cells : List Cell) : Prop := ∀ code, .fixed code ∉ cells

theorem loose_cellsOf (text : Text) : Loose (cellsOf text) := by
  intro code member
  obtain ⟨_, _, same⟩ := List.mem_map.mp member
  cases same

theorem read_cellsOf (text : Text) : (cellsOf text).flatMap Cell.read = joined text := by
  rw [cellsOf, List.flatMap_map]
  exact List.flatMap_singleton' _

theorem write_of_loose {cells : List Cell} (loose : Loose cells) :
    cells.flatMap Cell.write = (cells.flatMap Cell.read).flatMap escapeAscii := by
  induction cells with
  | nil => rfl
  | cons cell cells ih =>
    have htail : Loose cells := fun code member => loose code (List.mem_cons_of_mem _ member)
    rw [List.flatMap_cons, List.flatMap_cons, List.flatMap_append, ih htail]
    cases cell with
    | fixed code => exact absurd List.mem_cons_self (loose code)
    | own code => exact congrArg (· ++ _) (List.append_nil _).symm
    | redacted => rfl

theorem write_quoted {cells : List Cell} {text : Text}
    (same : cells.flatMap Cell.write = text.flatMap escapeAscii) :
    (quoted cells).flatMap Cell.write = asciiQuote text := by
  rw [quoted, List.flatMap_cons, List.flatMap_append, same]
  rfl

structure WrittenAs (cells : List Cell × Option (List Cell)) (member : Text × Doc) : Prop where
  key : cells.1.flatMap Cell.write = member.1.flatMap escapeAscii
  value : (fieldCells cells.2).flatMap Cell.write = dumps member.2

theorem write_memberCells {members : List (List Cell × Option (List Cell))}
    {docs : List (Text × Doc)} (written : List.Forall₂ WrittenAs members docs) :
    (memberCells members).flatMap Cell.write = dumpsMembers docs := by
  induction written with
  | nil => rfl
  | @cons cells member rest docs first later ih =>
    obtain ⟨key, value⟩ := cells
    obtain ⟨name, doc⟩ := member
    have hkey := write_quoted first.key
    have hvalue := first.value
    cases later with
    | nil =>
      simp only [memberCells, dumpsMembers, List.flatMap_append, List.flatMap_cons, hkey, hvalue]
      simp [Cell.write]
    | cons second later =>
      rw [memberCells, dumpsMembers, List.flatMap_append, List.flatMap_cons, List.flatMap_cons,
        List.flatMap_append, List.flatMap_cons, List.flatMap_cons, hkey, hvalue, ih]
      simp [Cell.write]

theorem write_document {members : List (List Cell × Option (List Cell))}
    {docs : List (Text × Doc)} (written : List.Forall₂ WrittenAs members docs) :
    (document members).flatMap Cell.write = dumps (.obj docs) := by
  rw [document, List.flatMap_cons, write_memberCells written]
  rfl

theorem write_page (event : Event) :
    (document (page event)).flatMap Cell.write = serialized event := by
  apply write_document
  rw [page, List.forall₂_map_left_iff, List.forall₂_map_right_iff, List.forall₂_same]
  intro entry _
  have hcells (text : Text) : (cellsOf text).flatMap Cell.write = text.flatMap escapeAscii := by
    rw [write_of_loose (loose_cellsOf text), read_cellsOf, escape_joined]
  refine ⟨hcells entry.1, ?_⟩
  cases entry.2 with
  | none => rfl
  | some text => exact write_quoted (hcells text)

end Writing

section Masking

def patterns (secrets : List Text) : List (List Cell) := secrets.map fun secret => secret.map .own

abbrev Redacts (secrets : List Text) : List Cell → List Cell → Prop :=
  Masks (patterns secrets) .redacted

variable {secrets : List Text} {right masked : List Cell}

theorem unmarked_pattern (secret : Text) : Cell.redacted ∉ secret.map Cell.own := by simp

theorem fixed_not_mem_patterns {word : List Cell} (listed : word ∈ patterns secrets)
    (code : CodePoint) : Cell.fixed code ∉ word := by
  obtain ⟨secret, _, rfl⟩ := List.mem_map.mp listed
  simp

private theorem redacts_fixed (codes : Text)
    (masks : Redacts secrets (codes.map .fixed ++ right) masked) :
    ∃ right', masked = codes.map .fixed ++ right' ∧ Redacts secrets right right' := by
  apply masks.fixed_front
  intro word listed fixed member
  obtain ⟨code, _, rfl⟩ := List.mem_map.mp member
  exact fixed_not_mem_patterns listed code

private theorem redacts_quoted {cells : List Cell}
    (masks : Redacts secrets (quoted cells ++ right) masked) :
    ∃ cells' right', masked = quoted cells' ++ right' ∧ Redacts secrets cells cells' ∧
      Redacts secrets right right' := by
  rw [quoted, List.cons_append, List.append_assoc] at masks
  obtain ⟨inner, rfl, hinner⟩ := redacts_fixed [quoteMark] masks
  obtain ⟨cells', right', rfl, hcells, hright⟩ :=
    hinner.split fun word listed => fixed_not_mem_patterns listed quoteMark
  refine ⟨cells', right', ?_, hcells, hright⟩
  rw [quoted, List.cons_append, List.append_assoc]
  rfl

private theorem redacts_fieldCells {value : Option (List Cell)}
    (masks : Redacts secrets (fieldCells value ++ right) masked) :
    ∃ value' right', masked = fieldCells value' ++ right' ∧
      Option.Rel (Redacts secrets) value value' ∧ Redacts secrets right right' := by
  cases value with
  | none =>
    obtain ⟨right', rfl, hright⟩ := redacts_fixed _ masks
    exact ⟨none, right', rfl, .none, hright⟩
  | some cells =>
    obtain ⟨cells', right', rfl, hcells, hright⟩ := redacts_quoted masks
    exact ⟨some cells', right', rfl, .some hcells, hright⟩

/-- A member with parts of its strings replaced. -/
structure MemberRedacts (secrets : List Text) (before after : List Cell × Option (List Cell)) :
    Prop where
  key : Redacts secrets before.1 after.1
  value : Option.Rel (Redacts secrets) before.2 after.2

private theorem redacts_member {key : List Cell} {value : Option (List Cell)}
    (masks : Redacts secrets
      (quoted key ++ .fixed ':' :: .fixed ' ' :: (fieldCells value ++ right)) masked) :
    ∃ key' value' right',
      masked = quoted key' ++ .fixed ':' :: .fixed ' ' :: (fieldCells value' ++ right') ∧
      MemberRedacts secrets (key, value) (key', value') ∧ Redacts secrets right right' := by
  obtain ⟨key', rest, rfl, hkey, hrest⟩ := redacts_quoted masks
  obtain ⟨inner, rfl, hinner⟩ := redacts_fixed [':', ' '] hrest
  obtain ⟨value', right', rfl, hvalue, hright⟩ := redacts_fieldCells hinner
  exact ⟨key', value', right', rfl, ⟨hkey, hvalue⟩, hright⟩

private theorem redacts_memberCells {members : List (List Cell × Option (List Cell))}
    (masks : Redacts secrets (memberCells members) masked) :
    ∃ members', masked = memberCells members' ∧
      List.Forall₂ (MemberRedacts secrets) members members' := by
  induction members generalizing masked with
  | nil =>
    obtain ⟨right', rfl, hright⟩ := redacts_fixed ['\x7d'] masks
    rw [hright.eq_nil]
    exact ⟨[], rfl, .nil⟩
  | cons member members ih =>
    obtain ⟨key, value⟩ := member
    cases members with
    | nil =>
      obtain ⟨key', value', right', rfl, hmember, hright⟩ := redacts_member masks
      obtain ⟨last, rfl, hlast⟩ := redacts_fixed ['\x7d'] hright
      rw [hlast.eq_nil]
      exact ⟨[(key', value')], rfl, .cons hmember .nil⟩
    | cons next members =>
      obtain ⟨key', value', right', rfl, hmember, hright⟩ := redacts_member masks
      obtain ⟨later, rfl, hlater⟩ := redacts_fixed [',', ' '] hright
      obtain ⟨members', rfl, hmembers⟩ := ih hlater
      cases hmembers with
      | cons first rest => exact ⟨_ :: _ :: _, rfl, .cons hmember (.cons first rest)⟩

/-- Replacing in the cells of a line replaces in the strings of its members. -/
theorem redacts_document {members : List (List Cell × Option (List Cell))}
    (masks : Redacts secrets (document members) masked) :
    ∃ members', masked = document members' ∧
      List.Forall₂ (MemberRedacts secrets) members members' := by
  obtain ⟨inner, rfl, hinner⟩ := redacts_fixed ['\x7b'] masks
  obtain ⟨members', rfl, hmembers⟩ := redacts_memberCells hinner
  exact ⟨members', rfl, hmembers⟩

def strings (member : List Cell × Option (List Cell)) : List (List Cell) :=
  member.1 :: member.2.toList

private theorem infix_quoted (cells : List Cell) : cells <:+: quoted cells :=
  List.infix_cons (List.prefix_append cells _).isInfix

private theorem infix_memberCells {members : List (List Cell × Option (List Cell))}
    {member : List Cell × Option (List Cell)} {cells : List Cell} (listed : member ∈ members)
    (inside : cells ∈ strings member) : cells <:+: memberCells members := by
  induction members with
  | nil => cases listed
  | cons first members ih =>
    obtain ⟨key, value⟩ := first
    have hfirst (tail : List Cell) (here : cells ∈ strings (key, value)) :
        cells <:+: quoted key ++ .fixed ':' :: .fixed ' ' :: (fieldCells value ++ tail) := by
      cases List.mem_cons.mp here with
      | inl same =>
        rw [same]
        exact (infix_quoted key).trans (List.prefix_append _ _).isInfix
      | inr same =>
        obtain rfl := Option.mem_toList.mp same
        apply (infix_quoted cells).trans
        apply (List.prefix_append (quoted cells) tail).isInfix.trans
        exact (List.infix_cons (List.infix_cons List.infix_rfl)).trans (List.suffix_append _ _).isInfix
    cases members with
    | nil =>
      obtain rfl := List.mem_singleton.mp listed
      exact hfirst _ inside
    | cons next members =>
      cases List.mem_cons.mp listed with
      | inl same =>
        subst same
        exact hfirst _ inside
      | inr later =>
        apply (ih later).trans
        apply (List.infix_cons (List.infix_cons List.infix_rfl)).trans
        apply (List.suffix_append (fieldCells value) _).isInfix.trans
        exact (List.infix_cons (List.infix_cons List.infix_rfl)).trans (List.suffix_append _ _).isInfix

theorem infix_document {members : List (List Cell × Option (List Cell))}
    {member : List Cell × Option (List Cell)} {cells : List Cell} (listed : member ∈ members)
    (inside : cells ∈ strings member) : cells <:+: document members :=
  List.infix_cons (infix_memberCells listed inside)

end Masking

end CodeCalc.Audit
