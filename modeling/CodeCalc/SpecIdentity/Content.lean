import CodeCalc.Lib.Effect
import CodeCalc.SpecIdentity.Encoding

/-! What a canonical document says about a value: the value without the kind of
its byte strings and sequences, without the order of its keys, with an instance
reduced to its fields and a name-hashed field to its names.  The document of a
value is its content written out, and the bytes of a document determine it. -/
namespace CodeCalc.SpecIdentity
open Lib

section Values

/-- Induction with the hypothesis at every field, entry and item. -/
@[induction_eliminator]
theorem Value.induction {motive : Value → Prop} (none : motive .none)
    (bool : ∀ value, motive (.bool value)) (int : ∀ value, motive (.int value))
    (str : ∀ text, motive (.str text)) (float : motive .float)
    (bytes : ∀ kind content, motive (.bytes kind content))
    (enum : ∀ typeName value, motive value → motive (.enum typeName value))
    (inst : ∀ cls fields, (∀ field ∈ fields, motive field.2) → motive (.inst cls fields))
    (map : ∀ entries, (∀ entry ∈ entries, motive entry.2) → motive (.map entries))
    (seq : ∀ kind items, (∀ item ∈ items, motive item) → motive (.seq kind items))
    (other : ∀ typeName, motive (.other typeName)) : ∀ value, motive value
  | .none => none
  | .bool value => bool value
  | .int value => int value
  | .str text => str text
  | .float => float
  | .bytes kind content => bytes kind content
  | .enum typeName value => enum typeName value
      (Value.induction none bool int str float bytes enum inst map seq other value)
  | .inst cls fields => inst cls fields fun field _ =>
      Value.induction none bool int str float bytes enum inst map seq other field.2
  | .map entries => map entries fun entry _ =>
      Value.induction none bool int str float bytes enum inst map seq other entry.2
  | .seq kind items => seq kind items fun item _ =>
      Value.induction none bool int str float bytes enum inst map seq other item
  | .other typeName => other typeName
termination_by value => sizeOf value
decreasing_by
  · simp only [Value.enum.sizeOf_spec]
    omega
  · have hlt := sizeOf_snd_lt_of_mem ‹field ∈ fields›
    simp only [Value.inst.sizeOf_spec]
    omega
  · have hlt := sizeOf_snd_lt_of_mem ‹entry ∈ entries›
    simp only [Value.map.sizeOf_spec]
    omega
  · have hlt := List.sizeOf_lt_of_mem ‹item ∈ items›
    simp only [Value.seq.sizeOf_spec]
    omega

def Value.children : Value → List Value
  | .enum _ value => [value]
  | .inst _ fields => fields.map Prod.snd
  | .map entries => entries.map Prod.snd
  | .seq _ items => items
  | _ => []

/-- A property of a value and of everything inside it. -/
abbrev Value.All (p : Value → Prop) (value : Value) : Prop := Lib.All Value.children p value

/-- The entries of a mapping whose keys are strings. -/
def textEntries (entries : List (Key × Value)) : List (Text × Value) :=
  entries.filterMap fun entry => entry.1.name.map fun name => (name, entry.2)

/-- Python keeps the keys of a mapping and the fields of a class distinct. -/
def Value.DistinctNames : Value → Prop
  | .inst _ fields => (fields.map Prod.fst).Nodup
  | .map entries => ((textEntries entries).map Prod.fst).Nodup
  | _ => True

/-- No field of the instance takes the reserved key of the bytes encoding. -/
def Value.Untagged : Value → Prop
  | .inst _ fields => bytesTag ∉ fields.map Prod.fst
  | _ => True

/-- A Python object that can be asked for its canonical bytes. -/
structure Object where
  value : Value
  distinctNames : value.All Value.DistinctNames

end Values

section Contents

inductive Content where
  | none
  | bool (value : Bool)
  | int (value : Int)
  | str (text : Text)
  | bytes (content : List UInt8)
  | seq (items : List Content)
  /-- The members in the order of their keys. -/
  | record (members : List (Text × Content))

@[induction_eliminator]
theorem Content.induction {motive : Content → Prop} (none : motive .none)
    (bool : ∀ value, motive (.bool value)) (int : ∀ value, motive (.int value))
    (str : ∀ text, motive (.str text)) (bytes : ∀ content, motive (.bytes content))
    (seq : ∀ items, (∀ item ∈ items, motive item) → motive (.seq items))
    (record : ∀ members, (∀ member ∈ members, motive member.2) → motive (.record members)) :
    ∀ content, motive content
  | .none => none
  | .bool value => bool value
  | .int value => int value
  | .str text => str text
  | .bytes content => bytes content
  | .seq items => seq items fun item _ =>
      Content.induction none bool int str bytes seq record item
  | .record members => record members fun member _ =>
      Content.induction none bool int str bytes seq record member.2
termination_by content => sizeOf content
decreasing_by
  · have hlt := List.sizeOf_lt_of_mem ‹item ∈ items›
    simp only [Content.seq.sizeOf_spec]
    omega
  · have hlt := sizeOf_snd_lt_of_mem ‹member ∈ members›
    simp only [Content.record.sizeOf_spec]
    omega

def Content.name : Content → Option Text
  | .str text => some text
  | _ => .none

def Content.names : Content → Content
  | .record members => .seq ((sortNames (members.map Prod.fst)).map .str)
  | .seq items => .seq ((sortNames (items.filterMap Content.name)).map .str)
  | content => content

mutual

/-- The content of a value; one without an encoding counts as nothing. -/
def Value.content : Value → Content
  | .none => .none
  | .bool value => .bool value
  | .int value => .int value
  | .str text => .str text
  | .float => .none
  | .bytes _ content => .bytes content
  | .enum _ value => value.content
  | .inst cls fields => .record (sortByKey (contentFields cls fields))
  | .map entries => .record (sortByKey (contentEntries entries))
  | .seq _ items => .seq (contentItems items)
  | .other _ => .none

def contentFields (cls : DataClass) : List (Text × Value) → List (Text × Content)
  | [] => []
  | (name, value) :: fields =>
      (name, if name ∈ cls.hashByNameFields then value.content.names else value.content) ::
        contentFields cls fields

def contentEntries : List (Key × Value) → List (Text × Content)
  | [] => []
  | (.str key, value) :: entries => (key, value.content) :: contentEntries entries
  | (.other _, _) :: entries => contentEntries entries

def contentItems : List Value → List Content
  | [] => []
  | item :: items => item.content :: contentItems items

end

def fieldContent (cls : DataClass) (field : Text × Value) : Content :=
  if field.1 ∈ cls.hashByNameFields then field.2.content.names else field.2.content

theorem contentFields_eq_map (cls : DataClass) (fields : List (Text × Value)) :
    contentFields cls fields = fields.map fun field => (field.1, fieldContent cls field) := by
  induction fields with
  | nil => rfl
  | cons field fields ih =>
    obtain ⟨name, value⟩ := field
    rw [contentFields, ih, List.map_cons, fieldContent]

theorem contentEntries_eq_map (entries : List (Key × Value)) :
    contentEntries entries =
      (textEntries entries).map fun entry => (entry.1, entry.2.content) := by
  induction entries with
  | nil => rfl
  | cons entry entries ih =>
    obtain ⟨key, value⟩ := entry
    cases key with
    | str key =>
      rw [contentEntries, ih]
      rfl
    | other repr =>
      rw [contentEntries, ih]
      rfl

theorem contentItems_eq_map (items : List Value) :
    contentItems items = items.map Value.content := by
  induction items with
  | nil => rfl
  | cons item items ih => rw [contentItems, ih, List.map_cons]

mutual

/-- A content written out as a document. -/
def Content.doc : Content → Doc
  | .none => .null
  | .bool value => .bool value
  | .int value => .int value
  | .str text => .str text
  | .bytes content => .obj [(bytesTag, .str (Base64.encode content))]
  | .seq items => .arr (docsOfItems items)
  | .record members => .obj (docsOfMembers members)

def docsOfItems : List Content → List Doc
  | [] => []
  | item :: items => item.doc :: docsOfItems items

def docsOfMembers : List (Text × Content) → List (Text × Doc)
  | [] => []
  | (key, content) :: members => (key, content.doc) :: docsOfMembers members

end

theorem docsOfItems_eq_map (items : List Content) : docsOfItems items = items.map Content.doc := by
  induction items with
  | nil => rfl
  | cons item items ih => rw [docsOfItems, ih, List.map_cons]

theorem docsOfMembers_eq_map (members : List (Text × Content)) :
    docsOfMembers members = members.map fun member => (member.1, member.2.doc) := by
  induction members with
  | nil => rfl
  | cons member members ih =>
    obtain ⟨key, content⟩ := member
    rw [docsOfMembers, ih, List.map_cons]

end Contents

section Documents

/-- `value` has `doc` for its encoding, wherever it stands. -/
def Encodes (value : Value) (doc : Doc) : Prop := ∃ path, encode value path = .ok doc

def EncodesNames (value : Value) (doc : Doc) : Prop := ∃ path, encodeNamesOnly value path = .ok doc

example (path : Text) (index : Nat) : encodeItems [] path index = .ok [] := by
  rw [encodeItems]

/-- The encoding of an item, an entry or a field stands at its own place. -/
theorem encodeItems_ok {items : List Value} {path : Text} {index : Nat} {docs : List Doc}
    (h : encodeItems items path index = .ok docs) : List.Forall₂ Encodes items docs := by
  induction items generalizing index docs with
  | nil =>
    cases h
    exact .nil
  | cons item items ih =>
    rw [encodeItems] at h
    split at h
    · cases h
    · rename_i doc hdoc
      obtain ⟨docs, hdocs, rfl⟩ := except_map_ok h
      exact .cons ⟨_, hdoc⟩ (ih hdocs)

def EncodesEntry (entry : Key × Value) (member : Text × Doc) : Prop :=
  entry.1 = .str member.1 ∧ member.1 ≠ bytesTag ∧ Encodes entry.2 member.2

theorem encodeEntries_ok {entries : List (Key × Value)} {path : Text}
    {members : List (Text × Doc)} (h : encodeEntries entries path = .ok members) :
    List.Forall₂ EncodesEntry entries members := by
  induction entries generalizing members with
  | nil =>
    cases h
    exact .nil
  | cons entry entries ih =>
    obtain ⟨key, item⟩ := entry
    cases key with
    | other repr => cases h
    | str key =>
      rw [encodeEntries] at h
      split_ifs at h with htag hsecret
      split at h
      · cases h
      · rename_i doc hdoc
        obtain ⟨members, hmembers, rfl⟩ := except_map_ok h
        exact .cons ⟨rfl, htag, _, hdoc⟩ (ih hmembers)

def EncodesField (cls : DataClass) (field : Text × Value) (member : Text × Doc) : Prop :=
  member.1 = field.1 ∧
    if field.1 ∈ cls.hashByNameFields then EncodesNames field.2 member.2
    else Encodes field.2 member.2

theorem encodeDataclass_ok {cls : DataClass} {fields : List (Text × Value)} {path : Text}
    {members : List (Text × Doc)} (h : encodeDataclass cls fields path = .ok members) :
    List.Forall₂ (EncodesField cls) fields members := by
  induction fields generalizing members with
  | nil =>
    cases h
    exact .nil
  | cons field fields ih =>
    obtain ⟨name, value⟩ := field
    rw [encodeDataclass] at h
    split at h
    · cases h
    · rename_i doc hdoc
      obtain ⟨members, hmembers, rfl⟩ := except_map_ok h
      refine .cons ⟨rfl, ?_⟩ (ih hmembers)
      split_ifs at hdoc ⊢ with hname
      · exact ⟨_, hdoc⟩
      · exact ⟨_, hdoc⟩

namespace Encodes

variable {doc : Doc}

theorem of_enum {typeName : Text} {value : Value} (h : Encodes (.enum typeName value) doc) :
    Encodes value doc := by
  obtain ⟨path, h⟩ := h
  rw [encode] at h
  exact ⟨path, h⟩

theorem fields_of_inst {cls : DataClass} {fields : List (Text × Value)}
    (h : Encodes (.inst cls fields) doc) :
    ∃ members, List.Forall₂ (EncodesField cls) fields members ∧ doc = .obj members := by
  obtain ⟨path, h⟩ := h
  rw [encode] at h
  obtain ⟨members, hmembers, hdoc⟩ := except_map_ok h
  exact ⟨members, encodeDataclass_ok hmembers, hdoc⟩

theorem entries_of_map {entries : List (Key × Value)} (h : Encodes (.map entries) doc) :
    ∃ members, List.Forall₂ EncodesEntry entries members ∧ doc = .obj members := by
  obtain ⟨path, h⟩ := h
  rw [encode] at h
  obtain ⟨members, hmembers, hdoc⟩ := except_map_ok h
  exact ⟨members, encodeEntries_ok hmembers, hdoc⟩

theorem items_of_seq {kind : SeqKind} {items : List Value} (h : Encodes (.seq kind items) doc) :
    ∃ docs, List.Forall₂ Encodes items docs ∧ doc = .arr docs := by
  obtain ⟨path, h⟩ := h
  rw [encode] at h
  obtain ⟨docs, hdocs, hdoc⟩ := except_map_ok h
  exact ⟨docs, encodeItems_ok hdocs, hdoc⟩

end Encodes

theorem mapM_id_eq_some {names : List (Option Text)} {texts : List Text}
    (h : names.mapM id = some texts) : names = texts.map some := by
  induction names generalizing texts with
  | nil =>
    cases h
    rfl
  | cons name names ih =>
    simp only [List.mapM_cons, id, Option.bind_eq_bind, Option.bind_eq_some_iff] at h
    obtain ⟨text, rfl, rest, hrest, h⟩ := h
    cases h
    rw [ih hrest, List.map_cons]

theorem encodesNames_cases {value : Value} {doc : Doc} (h : EncodesNames value doc) :
    (value = .none ∧ doc = .null) ∨
      ∃ names, value.listedNames = some (names.map some) ∧
        doc = .arr ((sortNames names).map .str) := by
  obtain ⟨path, h⟩ := h
  unfold encodeNamesOnly at h
  split at h
  · cases h
    exact .inl ⟨rfl, rfl⟩
  · split at h
    · cases h
    · rename_i names hnames
      split at h
      · cases h
      · rename_i texts htexts
        cases h
        exact .inr ⟨texts, by rw [hnames, mapM_id_eq_some htexts], rfl⟩

theorem sortNames_eq_of_perm {names others : List Text} (perm : names.Perm others) :
    sortNames names = sortNames others := by
  have hperm : (sortNames names).Perm (sortNames others) :=
    (List.perm_insertionSort _ names).trans (perm.trans (List.perm_insertionSort _ others).symm)
  exact List.Perm.eq_of_pairwise (fun _ _ _ _ => le_antisymm)
    (List.pairwise_insertionSort _ names) (List.pairwise_insertionSort _ others) hperm

theorem map_fst_textEntries {entries : List (Key × Value)} {names : List Text}
    (h : entries.map (fun entry => entry.1.name) = names.map some) :
    (textEntries entries).map Prod.fst = names := by
  induction entries generalizing names with
  | nil =>
    cases names with
    | nil => rfl
    | cons name names => cases h
  | cons entry entries ih =>
    cases names with
    | nil => cases h
    | cons name names =>
      obtain ⟨hname, hrest⟩ := List.cons.inj h
      have hcons : textEntries (entry :: entries) = (name, entry.2) :: textEntries entries := by
        simp [textEntries, hname]
      rw [hcons, List.map_cons, ih hrest]

private theorem filterMap_name_content {items : List Value} {names : List Text}
    (h : items.map Value.name = names.map some) :
    (items.map Value.content).filterMap Content.name = names := by
  induction items generalizing names with
  | nil =>
    cases names with
    | nil => rfl
    | cons name names => cases h
  | cons item items ih =>
    cases names with
    | nil => cases h
    | cons name names =>
      obtain ⟨hname, hrest⟩ := List.cons.inj h
      have hitem : item = .str name := by
        cases item
        case str text => exact congrArg Value.str (Option.some.inj hname)
        all_goals cases hname
      subst hitem
      rw [List.map_cons, Value.content, List.filterMap_cons, Content.name, ih hrest]

theorem names_content {value : Value} {names : List Text}
    (h : value.listedNames = some (names.map some)) :
    value.content.names = .seq ((sortNames names).map .str) := by
  match value, h with
  | .map entries, h =>
    have hkeys := map_fst_textEntries (Option.some.inj h)
    have hperm : ((sortByKey (contentEntries entries)).map Prod.fst).Perm names := by
      rw [← hkeys, contentEntries_eq_map]
      refine ((perm_sortByKey _).map Prod.fst).trans ?_
      rw [List.map_map]
      exact List.Perm.refl _
    rw [Value.content, Content.names, sortNames_eq_of_perm hperm]
  | .seq .list items, h | .seq .tuple items, h =>
    rw [Value.content, Content.names, contentItems_eq_map,
      filterMap_name_content (Option.some.inj h)]

theorem sortKeys_of_encodesNames {value : Value} {doc : Doc} (h : EncodesNames value doc) :
    doc.sortKeys = value.content.names.doc := by
  rcases encodesNames_cases h with ⟨rfl, rfl⟩ | ⟨names, hnames, rfl⟩
  · rfl
  · rw [names_content hnames, Doc.sortKeys, Doc.sortItems_eq_map, Content.doc, docsOfItems_eq_map,
      List.map_map, List.map_map]
    exact congrArg Doc.arr (List.map_congr_left fun name _ => by
      rw [Function.comp, Function.comp, Doc.sortKeys, Content.doc])

private theorem map_eq_of_forall₂ {α β γ : Type} {R : α → β → Prop} {f : β → γ} {g : α → γ}
    {left : List α} {right : List β} (related : List.Forall₂ R left right)
    (agree : ∀ a ∈ left, ∀ b, R a b → f b = g a) : right.map f = left.map g := by
  induction related with
  | nil => rfl
  | cons head _ ih =>
    rw [List.map_cons, List.map_cons, agree _ (by simp) _ head,
      ih fun a member => agree a (by simp [member])]

private theorem textEntries_of_forall₂ {entries : List (Key × Value)}
    {members : List (Text × Doc)} (related : List.Forall₂ EncodesEntry entries members) :
    List.Forall₂ (fun entry member => entry.1 = member.1 ∧ member.1 ≠ bytesTag ∧
      Encodes entry.2 member.2) (textEntries entries) members := by
  induction related with
  | nil => exact .nil
  | @cons entry member entries members head _ ih =>
    have hcons : textEntries (entry :: entries) = (member.1, entry.2) :: textEntries entries := by
      simp [textEntries, head.1, Key.name]
    rw [hcons]
    exact .cons ⟨rfl, head.2⟩ ih

theorem sortKeys_of_encodes {value : Value} {doc : Doc} (h : Encodes value doc) :
    doc.sortKeys = value.content.doc := by
  induction value generalizing doc with
  | none | bool | int | str =>
    obtain ⟨path, h⟩ := h
    cases h
    rfl
  | float | other =>
    obtain ⟨path, h⟩ := h
    cases h
  | bytes kind content =>
    obtain ⟨path, h⟩ := h
    cases h
    rfl
  | enum typeName value ih =>
    rw [ih h.of_enum, Value.content]
  | inst cls fields ih =>
    obtain ⟨members, hmembers, rfl⟩ := h.fields_of_inst
    have hmap : (members.map fun member => (member.1, member.2.sortKeys)) =
        fields.map fun field => (field.1, (fieldContent cls field).doc) := by
      refine map_eq_of_forall₂ hmembers ?_
      intro field hfield member hmember
      obtain ⟨hname, hdoc⟩ := hmember
      rw [hname, fieldContent]
      split_ifs at hdoc ⊢ with hlisted
      · rw [sortKeys_of_encodesNames hdoc]
      · rw [ih field hfield hdoc]
    rw [Doc.sortKeys, Doc.sortMembers_eq_map, hmap, Value.content, Content.doc,
      docsOfMembers_eq_map, ← sortByKey_map, contentFields_eq_map, List.map_map]
    rfl
  | map entries ih =>
    obtain ⟨members, hmembers, rfl⟩ := h.entries_of_map
    have hmap : (members.map fun member => (member.1, member.2.sortKeys)) =
        (textEntries entries).map fun entry => (entry.1, entry.2.content.doc) := by
      refine map_eq_of_forall₂ (textEntries_of_forall₂ hmembers) ?_
      intro entry hentry member hmember
      obtain ⟨hname, -, hdoc⟩ := hmember
      obtain ⟨source, hsource, hname'⟩ := List.mem_filterMap.mp hentry
      obtain ⟨name, -, rfl⟩ := Option.map_eq_some_iff.mp hname'
      rw [← hname, ih source hsource hdoc]
    rw [Doc.sortKeys, Doc.sortMembers_eq_map, hmap, Value.content, Content.doc,
      docsOfMembers_eq_map, ← sortByKey_map, contentEntries_eq_map, List.map_map]
    rfl
  | seq kind items ih =>
    obtain ⟨docs, hdocs, rfl⟩ := h.items_of_seq
    have hmap : docs.map Doc.sortKeys = items.map fun item => item.content.doc :=
      map_eq_of_forall₂ hdocs fun item hitem doc hdoc => ih item hitem hdoc
    rw [Doc.sortKeys, Doc.sortItems_eq_map, hmap, Value.content, Content.doc,
      docsOfItems_eq_map, contentItems_eq_map, List.map_map]
    rfl

example : Text.ofString "name" ≠ bytesTag := by decide +kernel

end Documents

section Injectivity

inductive Content.Untagged : Content → Prop
  | none : Content.Untagged .none
  | bool (value : Bool) : Content.Untagged (.bool value)
  | int (value : Int) : Content.Untagged (.int value)
  | str (text : Text) : Content.Untagged (.str text)
  | bytes (content : List UInt8) : Content.Untagged (.bytes content)
  | seq {items : List Content} (inside : ∀ item ∈ items, Content.Untagged item) :
      Content.Untagged (.seq items)
  | record {members : List (Text × Content)} (keys : ∀ member ∈ members, member.1 ≠ bytesTag)
      (inside : ∀ member ∈ members, Content.Untagged member.2) :
      Content.Untagged (.record members)

private theorem map_inj_on {α β : Type} {f : α → β} {left right : List α}
    (inj : ∀ a ∈ left, ∀ b ∈ right, f a = f b → a = b) (same : left.map f = right.map f) :
    left = right := by
  induction left generalizing right with
  | nil =>
    cases right with
    | nil => rfl
    | cons b right => cases same
  | cons a left ih =>
    cases right with
    | nil => cases same
    | cons b right =>
      obtain ⟨hhead, htail⟩ := List.cons.inj same
      rw [inj a (by simp) b (by simp) hhead,
        ih (fun a ha b hb => inj a (by simp [ha]) b (by simp [hb])) htail]

private theorem record_doc_ne_bytes {members : List (Text × Content)} {content : List UInt8}
    (keys : ∀ member ∈ members, member.1 ≠ bytesTag) :
    (Content.record members).doc ≠ (Content.bytes content).doc := by
  intro same
  rw [Content.doc, Content.doc, docsOfMembers_eq_map] at same
  have hkeys := congrArg (List.map Prod.fst) (Doc.obj.inj same)
  rw [List.map_map] at hkeys
  obtain ⟨member, hmember, hkey⟩ := List.mem_map.mp
    (show bytesTag ∈ members.map (Prod.fst ∘ fun member => (member.1, member.2.doc)) by
      rw [hkeys]
      simp)
  exact keys member hmember hkey

/-- Contents that stay clear of the reserved key have documents of their own. -/
theorem Content.doc_inj {left right : Content} (hleft : left.Untagged) (hright : right.Untagged)
    (same : left.doc = right.doc) : left = right := by
  induction left generalizing right with
  | none | bool | int | str =>
    cases right
    all_goals cases same
    all_goals rfl
  | bytes content =>
    cases right
    case bytes content' =>
      have htext := Doc.str.inj (Prod.mk.inj (List.cons.inj (Doc.obj.inj same)).1).2
      rw [Base64.encode_injective htext]
    case record members =>
      cases hright with
      | record keys _ => exact absurd same.symm (record_doc_ne_bytes keys)
    all_goals cases same
  | seq items ih =>
    cases right
    case seq items' =>
      cases hleft with
      | seq inside =>
        cases hright with
        | seq inside' =>
          rw [doc, doc, docsOfItems_eq_map, docsOfItems_eq_map] at same
          rw [map_inj_on (fun item hitem item' hitem' =>
            ih item hitem (inside item hitem) (inside' item' hitem')) (Doc.arr.inj same)]
    all_goals cases same
  | record members ih =>
    cases right
    case record members' =>
      cases hleft with
      | record _ inside =>
        cases hright with
        | record _ inside' =>
          rw [doc, doc, docsOfMembers_eq_map, docsOfMembers_eq_map] at same
          refine congrArg Content.record (map_inj_on ?_ (Doc.obj.inj same))
          intro member hmember member' hmember' hpair
          obtain ⟨hkey, hdoc⟩ := Prod.mk.inj hpair
          exact Prod.ext hkey (ih member hmember (inside member hmember)
            (inside' member' hmember') hdoc)
    case bytes content =>
      cases hleft with
      | record keys _ => exact absurd same (record_doc_ne_bytes keys)
    all_goals cases same

private theorem untagged_names {value : Value} {doc : Doc} (h : EncodesNames value doc) :
    value.content.names.Untagged := by
  rcases encodesNames_cases h with ⟨rfl, -⟩ | ⟨names, hnames, -⟩
  · exact .none
  · rw [names_content hnames]
    refine .seq fun item hitem => ?_
    obtain ⟨name, -, rfl⟩ := List.mem_map.mp hitem
    exact .str name

theorem exists_of_forall₂ {α β : Type} {R : α → β → Prop} {left : List α} {right : List β}
    (related : List.Forall₂ R left right) {a : α} (member : a ∈ left) : ∃ b, R a b := by
  induction related with
  | nil => cases member
  | cons head _ ih =>
    rcases List.mem_cons.mp member with rfl | member
    · exact ⟨_, head⟩
    · exact ih member

/-- Mappings are checked for the reserved key, instances are assumed to do
without it. -/
theorem untagged_content {value : Value} {doc : Doc} (h : Encodes value doc)
    (untagged : value.All Value.Untagged) : value.content.Untagged := by
  induction value generalizing doc with
  | none => exact .none
  | bool value => exact .bool value
  | int value => exact .int value
  | str text => exact .str text
  | float | other =>
    obtain ⟨path, h⟩ := h
    cases h
  | bytes kind content => exact .bytes content
  | enum typeName value ih =>
    rw [Value.content]
    exact ih h.of_enum (untagged.inside (by simp [Value.children]))
  | inst cls fields ih =>
    obtain ⟨members, hmembers, -⟩ := h.fields_of_inst
    have hkeys : bytesTag ∉ fields.map Prod.fst := untagged.here
    rw [Value.content, contentFields_eq_map]
    have source {entry : Text × Content}
        (hentry : entry ∈ sortByKey (fields.map fun field => (field.1, fieldContent cls field))) :
        ∃ field ∈ fields, (field.1, fieldContent cls field) = entry :=
      List.mem_map.mp ((perm_sortByKey _).mem_iff.mp hentry)
    refine .record (fun entry hentry => ?_) (fun entry hentry => ?_)
    · obtain ⟨field, hfield, rfl⟩ := source hentry
      intro htag
      exact hkeys (htag ▸ List.mem_map_of_mem hfield)
    · obtain ⟨field, hfield, rfl⟩ := source hentry
      obtain ⟨member, -, hdoc⟩ := exists_of_forall₂ hmembers hfield
      rw [fieldContent]
      split_ifs at hdoc ⊢ with hlisted
      · exact untagged_names hdoc
      · exact ih field hfield hdoc (untagged.inside (List.mem_map_of_mem hfield))
  | map entries ih =>
    obtain ⟨members, hentries, -⟩ := h.entries_of_map
    rw [Value.content, contentEntries_eq_map]
    have source {entry : Text × Content}
        (hentry : entry ∈ sortByKey
          ((textEntries entries).map fun entry => (entry.1, entry.2.content))) :
        ∃ value, (Key.str entry.1, value) ∈ entries ∧ value.content = entry.2 := by
      obtain ⟨named, hnamed, rfl⟩ := List.mem_map.mp ((perm_sortByKey _).mem_iff.mp hentry)
      obtain ⟨⟨key, value⟩, hsource, hname⟩ := List.mem_filterMap.mp hnamed
      obtain ⟨name, hkey, rfl⟩ := Option.map_eq_some_iff.mp hname
      cases key with
      | str key =>
        cases hkey
        exact ⟨value, hsource, rfl⟩
      | other repr => cases hkey
    refine .record (fun entry hentry => ?_) (fun entry hentry => ?_)
    · obtain ⟨value, hvalue, -⟩ := source hentry
      obtain ⟨member, hkey, htag, -⟩ := exists_of_forall₂ hentries hvalue
      rw [Key.str.inj hkey]
      exact htag
    · obtain ⟨value, hvalue, hcontent⟩ := source hentry
      obtain ⟨member, -, -, hdoc⟩ := exists_of_forall₂ hentries hvalue
      rw [← hcontent]
      exact ih _ hvalue hdoc (untagged.inside (List.mem_map_of_mem hvalue))
  | seq kind items ih =>
    obtain ⟨docs, hdocs, -⟩ := h.items_of_seq
    rw [Value.content, contentItems_eq_map]
    refine .seq fun item hitem => ?_
    obtain ⟨source, hsource, rfl⟩ := List.mem_map.mp hitem
    obtain ⟨doc, hdoc⟩ := exists_of_forall₂ hdocs hsource
    exact ih source hsource hdoc (untagged.inside hsource)

end Injectivity

end CodeCalc.SpecIdentity
