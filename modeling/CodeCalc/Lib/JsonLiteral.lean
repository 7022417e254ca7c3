import CodeCalc.Lib.JsonIndent

/-! What a document means, its numbers as their values and its members in their
order, and when decoding and printing it again leaves that alone. -/
namespace CodeCalc.Lib

/-- A document up to the way its numbers and strings are written. -/
inductive Literal where
  | null
  | bool (value : Bool)
  | number (value : ℚ)
  | nan
  | infinity (negative : Bool)
  | str (value : Text)
  | arr (items : List Literal)
  | obj (members : List (Text × Literal))

namespace JsonValue

open JsonCodec

section Literal

mutual

def literal : JsonValue → Literal
  | .null => .null
  | .bool value => .bool value
  | .int value => .number value
  | .float value => .number value.value
  | .nan => .nan
  | .infinity negative => .infinity negative
  | .str value => .str value
  | .arr items => .arr (literalItems items)
  | .obj members => .obj (literalMembers members)

def literalItems : List JsonValue → List Literal
  | [] => []
  | item :: rest => literal item :: literalItems rest

def literalMembers : List (Text × JsonValue) → List (Text × Literal)
  | [] => []
  | (name, value) :: rest => (name, literal value) :: literalMembers rest

end

theorem literalMembers_eq (members : List (Text × JsonValue)) :
    literalMembers members = members.map fun member => (member.1, member.2.literal) := by
  induction members with
  | nil => rfl
  | cons member rest ih => rw [literalMembers, ih, List.map_cons]

theorem literal_arr (items : List JsonValue) :
    (JsonValue.arr items).literal = .arr (items.map literal) := by
  have same : literalItems items = items.map literal := by
    induction items with
    | nil => rfl
    | cons item rest ih => rw [literalItems, ih, List.map_cons]
  rw [literal, same]

theorem literal_obj (members : List (Text × JsonValue)) :
    (JsonValue.obj members).literal =
      .obj (members.map fun member => (member.1, member.2.literal)) := by
  rw [literal, literalMembers_eq]

end Literal

section Distinct

/-- No object names a member twice. -/
def Distinct : JsonValue → Prop
  | .obj members => (members.map Prod.fst).Nodup
  | _ => True

/-- Strings and names have no pair of surrogates to join. -/
def Joined : JsonValue → Prop
  | .str value => Pairless value
  | .obj members => ∀ member ∈ members, Pairless member.1
  | _ => True

/-- Names have no pair of surrogates to join. -/
def Named : JsonValue → Prop
  | .obj members => ∀ member ∈ members, Pairless member.1
  | _ => True

theorem named_of_joined {value : JsonValue} (joined : Joined value) : Named value := by
  cases value <;> first | exact trivial | exact joined

theorem merged_arr (items : List JsonValue) : (JsonValue.arr items).merged = .arr (items.map merged) :=
  rebuild_arr _ _ items

theorem merged_obj (members : List (Text × JsonValue)) :
    (JsonValue.obj members).merged =
      .obj (assign (members.map fun member => (member.1, member.2.merged))) :=
  rebuild_obj _ _ members

theorem nodup_assign (members : List (Text × JsonValue)) : ((assign members).map Prod.fst).Nodup := by
  have fold (before : List (Text × JsonValue)) (distinct : (before.map Prod.fst).Nodup) :
      ((members.foldl (fun entries next => setEntry next.1 next.2 entries) before).map
        Prod.fst).Nodup := by
    induction members generalizing before with
    | nil => exact distinct
    | cons next rest ih => exact ih _ (nodup_setEntry next.1 next.2 before distinct)
  exact fold [] List.nodup_nil

theorem merged_of_distinct {value : JsonValue} (distinct : All children Distinct value) :
    value.merged = value := by
  induction value with
  | arr items ih =>
    have inside := (all_arr.mp distinct).2
    rw [merged_arr, List.map_congr_left fun item member => ih item member (inside item member),
      List.map_id']
  | obj members ih =>
    obtain ⟨here, inside⟩ := all_obj.mp distinct
    have same : (members.map fun member => (member.1, member.2.merged)) = members := by
      rw [List.map_congr_left fun member given =>
        congrArg (Prod.mk member.1) (ih member given (inside member given))]
      exact List.map_id' members
    rw [merged_obj, same, assign_of_nodup here]
  | _ => rfl

theorem distinct_merged (value : JsonValue) : All children Distinct value.merged := by
  induction value with
  | arr items ih =>
    rw [merged_arr]
    exact all_arr.mpr ⟨trivial, List.forall_mem_map.mpr ih⟩
  | obj members ih =>
    rw [merged_obj]
    refine all_obj.mpr ⟨nodup_assign _, fun member inside => ?_⟩
    obtain ⟨original, given, rfl⟩ := List.mem_map.mp (mem_of_mem_assign inside)
    exact ih original given
  | _ => exact .leaf trivial rfl

theorem reread_cases (numeral : Numeral) :
    (∃ other, reread numeral = .float other) ∨ ∃ negative, reread numeral = .infinity negative := by
  unfold reread
  split
  · exact .inl ⟨_, rfl⟩
  · exact .inr ⟨_, rfl⟩

theorem written_obj_of_joined {members : List (Text × JsonValue)}
    (joined : ∀ member ∈ members, Pairless member.1) :
    (JsonValue.obj members).written =
      .obj (members.map fun member => (member.1, member.2.written)) := by
  rw [written_obj]
  congr 1
  apply List.map_congr_left
  intro member inside
  rw [joined_of_pairless (joined member inside)]

theorem distinct_written {value : JsonValue} (distinct : All children Distinct value)
    (named : All children Named value) : All children Distinct value.written := by
  induction value with
  | float numeral =>
    have same : (JsonValue.float numeral).written = reread numeral := rfl
    rw [same]
    rcases reread_cases numeral with ⟨other, same⟩ | ⟨negative, same⟩ <;>
      exact same ▸ .leaf trivial rfl
  | arr items ih =>
    have here := (all_arr.mp distinct).2
    have there := (all_arr.mp named).2
    rw [written_arr]
    refine all_arr.mpr ⟨trivial, List.forall_mem_map.mpr fun item member => ?_⟩
    exact ih item member (here item member) (there item member)
  | obj members ih =>
    have here := all_obj.mp distinct
    have there := all_obj.mp named
    rw [written_obj_of_joined there.1]
    refine all_obj.mpr ⟨?_, List.forall_mem_map.mpr fun member inside => ?_⟩
    · rw [Distinct, List.map_map]
      exact here.1
    · exact ih member inside (here.2 member inside) (there.2 member inside)
  | _ => exact .leaf trivial rfl

end Distinct

section Lossless

/-- No member is lost to another of its name, and a float is the number of the
decimal it is printed as. -/
def Lossless : JsonValue → Prop
  | .float numeral => (reread numeral).literal = .number numeral.value
  | .obj members => (members.map Prod.fst).Nodup
  | _ => True

theorem map_fst_literal (members : List (Text × JsonValue)) :
    (members.map fun member => (member.1, member.2.literal)).map Prod.fst =
      members.map Prod.fst := by
  rw [List.map_map]
  rfl

theorem names_of_assign {members : List (Text × JsonValue)}
    (joined : ∀ member ∈ members, Pairless member.1) (member : Text × JsonValue)
    (given : member ∈ assign (members.map fun member => (member.1, member.2.merged))) :
    Pairless member.1 := by
  obtain ⟨original, inside, rfl⟩ := List.mem_map.mp (mem_of_mem_assign given)
  exact joined original inside

/-- A document decoded and printed means the same exactly when nothing in it is lost. -/
theorem literal_rewritten_iff {value : JsonValue} (joined : All children Joined value) :
    value.merged.written.literal = value.literal ↔ All children Lossless value := by
  induction value with
  | float numeral => exact ⟨fun same => .leaf same rfl, All.here⟩
  | str value =>
    have same : (JsonValue.str value).merged.written = .str value :=
      congrArg JsonValue.str (joined_of_pairless joined.here)
    rw [same]
    exact iff_of_true rfl (.leaf trivial rfl)
  | arr items ih =>
    have inside := (all_arr.mp joined).2
    rw [merged_arr, written_arr, literal_arr, literal_arr, List.map_map, List.map_map, all_arr,
      Literal.arr.injEq, List.map_inj_left]
    simp only [Lossless, true_and, Function.comp_apply]
    exact forall₂_congr fun item member => ih item member (inside item member)
  | obj members ih =>
    obtain ⟨names, inside⟩ := all_obj.mp joined
    rw [merged_obj, written_obj_of_joined (names_of_assign names), literal_obj, literal_obj, all_obj,
      Literal.obj.injEq]
    have pointwise (distinct : (members.map Prod.fst).Nodup) :
        ((assign (members.map fun member => (member.1, member.2.merged))).map fun member =>
            (member.1, member.2.written)).map (fun member => (member.1, member.2.literal)) =
          members.map (fun member => (member.1, member.2.literal)) ↔
        ∀ member ∈ members, All children Lossless member.2 := by
      rw [assign_of_nodup (by rw [List.map_map]; exact distinct), List.map_map, List.map_map,
        List.map_inj_left]
      refine forall₂_congr fun member given => ?_
      rw [Function.comp_apply, Function.comp_apply, Prod.mk.injEq, and_iff_right rfl]
      exact ih member given (inside member given)
    constructor
    · intro same
      have distinct : (members.map Prod.fst).Nodup := by
        have kept := congrArg (List.map Prod.fst) same
        rw [map_fst_literal, map_fst_literal, List.map_map] at kept
        exact kept ▸ nodup_assign _
      exact ⟨distinct, (pointwise distinct).mp same⟩
    · intro kept
      exact (pointwise kept.1).mpr kept.2
  | _ => exact iff_of_true rfl (.leaf trivial rfl)

end Lossless

section Alike

structure Alike (left right : JsonValue) : Prop where
  text : ∀ level, indented level left = indented level right
  depth : left.depth = right.depth

abbrev AlikeMembers : List (Text × JsonValue) → List (Text × JsonValue) → Prop :=
  List.Forall₂ fun left right => left.1 = right.1 ∧ Alike left.2 right.2

theorem alike_refl (value : JsonValue) : Alike value value := ⟨fun _ => rfl, rfl⟩

theorem alikeMembers_map {f : JsonValue → JsonValue} {members : List (Text × JsonValue)}
    (alike : ∀ member ∈ members, Alike (f member.2) member.2) :
    AlikeMembers (members.map fun member => (member.1, f member.2)) members := by
  rw [AlikeMembers, List.forall₂_map_left_iff, List.forall₂_same]
  exact fun member inside => ⟨rfl, alike member inside⟩

theorem alike_arr {items others : List JsonValue} (alike : List.Forall₂ Alike items others) :
    Alike (.arr items) (.arr others) := by
  constructor
  · intro level
    rw [indented, indented]
    congr 1
    induction alike with
    | nil => rfl
    | cons first rest ih =>
      cases rest with
      | nil => rw [indentedItems, indentedItems, first.text]
      | cons second rest => rw [indentedItems, indentedItems, first.text, ih]
  · rw [depth, depth]
    congr 1
    induction alike with
    | nil => rfl
    | cons first rest ih => rw [depthItems, depthItems, first.depth, ih]

theorem alike_obj {members others : List (Text × JsonValue)} (alike : AlikeMembers members others) :
    Alike (.obj members) (.obj others) := by
  constructor
  · intro level
    rw [indented, indented]
    congr 1
    induction alike with
    | nil => rfl
    | @cons left right _ _ first rest ih =>
      obtain ⟨name, value⟩ := left
      obtain ⟨name', value'⟩ := right
      obtain ⟨rfl, first⟩ := first
      cases rest with
      | nil => rw [indentedMembers, indentedMembers, first.text]
      | cons second rest => rw [indentedMembers, indentedMembers, first.text, ih]
  · rw [depth, depth]
    congr 1
    induction alike with
    | nil => rfl
    | @cons left right _ _ first rest ih =>
      obtain ⟨name, value⟩ := left
      obtain ⟨name', value'⟩ := right
      rw [depthMembers, depthMembers, first.2.depth, ih]

theorem nearest_printedDecimal {numeral : Numeral} {double : ℚ}
    (nearest : nearestDouble numeral.magnitude = some double) :
    nearestDouble ((printedDecimal double).1 * 10 ^ (printedDecimal double).2) = some double := by
  obtain ⟨nonneg, own⟩ := nearest_own nearest
  unfold printedDecimal
  split_ifs with zero
  · rw [Nat.cast_zero, zero_mul, ← zero]
    exact zero ▸ own
  · exact (shortest_spec (nonneg.lt_of_ne' zero) own).reads

theorem alike_reread (numeral : Numeral) : Alike (reread numeral) (.float numeral) := by
  cases nearest : nearestDouble numeral.magnitude with
  | none =>
    rw [reread, nearest]
    refine ⟨fun level => ?_, rfl⟩
    dsimp only
    rw [indented.eq_def, indented.eq_def]
    dsimp only
    rw [floatText, nearest]
    cases numeral.negative <;> rfl
  | some double =>
    have again := nearest_printedDecimal nearest
    have sign : (rereadDecimal numeral.negative (printedDecimal double).1
        (printedDecimal double).2).negative = numeral.negative := by
      unfold rereadDecimal
      dsimp only
      split_ifs <;> rfl
    rw [reread, nearest]
    refine ⟨fun level => ?_, rfl⟩
    rw [indented, indented, floatText, floatText, magnitude_rereadDecimal, again, nearest, sign]

theorem alike_written {value : JsonValue} (joined : All children Joined value) :
    Alike value.written value := by
  induction value with
  | float numeral => exact alike_reread numeral
  | str value =>
    have same : (JsonValue.str value).written = .str value :=
      congrArg JsonValue.str (joined_of_pairless joined.here)
    rw [same]
    exact alike_refl _
  | arr items ih =>
    rw [written_arr]
    apply alike_arr
    rw [List.forall₂_map_left_iff, List.forall₂_same]
    exact fun item member => ih item member ((all_arr.mp joined).2 item member)
  | obj members ih =>
    obtain ⟨names, inside⟩ := all_obj.mp joined
    rw [written_obj_of_joined names]
    exact alike_obj (alikeMembers_map fun member given => ih member given (inside member given))
  | _ => exact alike_refl _

end Alike

section Merged

variable {limits : Limits}

/-- What every decoded array and object inherits from the tree holds everywhere in
the decoded value. -/
theorem all_merged {p : JsonValue → Prop} {value : JsonValue}
    (row : ∀ items, p (.arr items) → p (.arr (items.map merged)))
    (object : ∀ members, p (.obj members) →
      p (.obj (assign (members.map fun member => (member.1, member.2.merged)))))
    (all : All children p value) : All children p value.merged := by
  induction value with
  | arr items ih =>
    obtain ⟨here, inside⟩ := all_arr.mp all
    rw [merged_arr]
    exact all_arr.mpr ⟨row items here, List.forall_mem_map.mpr fun item member =>
      ih item member (inside item member)⟩
  | obj members ih =>
    obtain ⟨here, inside⟩ := all_obj.mp all
    rw [merged_obj]
    refine all_obj.mpr ⟨object members here, fun member given => ?_⟩
    obtain ⟨original, there, rfl⟩ := List.mem_map.mp (mem_of_mem_assign given)
    exact ih original there (inside original there)
  | _ => exact all

theorem regular_merged {value : JsonValue} (regular : All children (Regular limits) value) :
    All children (Regular limits) value.merged :=
  all_merged (fun _ _ => trivial) (fun _ => names_of_assign) regular

theorem depth_merged_le {value : JsonValue} {bound : Nat} (shallow : value.depth ≤ bound) :
    value.merged.depth ≤ bound := by
  induction value generalizing bound with
  | arr items ih =>
    obtain ⟨bound, rfl⟩ : ∃ less, bound = less + 1 := by
      rw [JsonValue.depth] at shallow
      exact ⟨bound - 1, by omega⟩
    rw [merged_arr, depth_arr_le]
    exact List.forall_mem_map.mpr fun item member => ih item member (depth_arr_le.mp shallow item member)
  | obj members ih =>
    obtain ⟨bound, rfl⟩ : ∃ less, bound = less + 1 := by
      rw [JsonValue.depth] at shallow
      exact ⟨bound - 1, by omega⟩
    rw [merged_obj, depth_obj_le]
    intro member given
    obtain ⟨original, there, rfl⟩ := List.mem_map.mp (mem_of_mem_assign given)
    exact ih original there (depth_obj_le.mp shallow original there)
  | _ => exact shallow

theorem joined_of_regular {value : JsonValue} (regular : Regular limits value) : Joined value := by
  cases value <;> first | exact trivial | exact regular

theorem intsWithin_of_regular {value : JsonValue} (regular : Regular limits value) :
    IntsWithin limits value := by
  cases value <;> first | exact trivial | exact regular

end Merged

section Assigned

/-- Dropping a name and assigning the members of the others go past each other. -/
theorem dropEntry_assign (name : Text) (members : List (Text × JsonValue)) :
    dropEntry name (assign members) = assign (dropEntry name members) := by
  have fold (before : List (Text × JsonValue)) :
      dropEntry name (members.foldl (fun entries next => setEntry next.1 next.2 entries) before) =
        (dropEntry name members).foldl (fun entries next => setEntry next.1 next.2 entries)
          (dropEntry name before) := by
    induction members generalizing before with
    | nil => rfl
    | cons next rest ih =>
      obtain ⟨head, value⟩ := next
      rw [List.foldl_cons, ih, dropEntry_cons]
      split_ifs with same
      · subst same
        rw [dropEntry_setEntry]
      · rw [dropEntry_setEntry_of_ne same, List.foldl_cons]
  exact fold []

end Assigned

end JsonValue

end CodeCalc.Lib
