import CodeCalc.SpecIdentity.Content

/-! The canonical bytes as an identity.  Two objects have the same bytes exactly
when one can be turned into the other by the identifications the encoder makes:
the kind of a byte string or a sequence, the order of the keys of a mapping, an
instance for the mapping of its fields, the names for the content of a field
that is hashed by name, and the value for an enum member. -/
namespace CodeCalc.SpecIdentity
open Lib

section Identifications

/-- The least congruence that forgets the kind of byte strings and sequences
and the order of mapping keys, and makes the `extra` identifications. -/
inductive Same (extra : Value → Value → Prop) : Value → Value → Prop
  | refl (value : Value) : Same extra value value
  | symm {left right : Value} (h : Same extra left right) : Same extra right left
  | trans {left middle right : Value} (first : Same extra left middle)
      (second : Same extra middle right) : Same extra left right
  | bytesKind (kind kind' : BytesKind) (content : List UInt8) :
      Same extra (.bytes kind content) (.bytes kind' content)
  | seqKind (kind kind' : SeqKind) (items : List Value) :
      Same extra (.seq kind items) (.seq kind' items)
  | keyOrder {entries others : List (Key × Value)}
      (distinct : ((textEntries entries).map Prod.fst).Nodup) (perm : entries.Perm others) :
      Same extra (.map entries) (.map others)
  | item (kind : SeqKind) (before after : List Value) {left right : Value}
      (h : Same extra left right) :
      Same extra (.seq kind (before ++ left :: after)) (.seq kind (before ++ right :: after))
  | entry (key : Key) (before after : List (Key × Value)) {left right : Value}
      (h : Same extra left right) :
      Same extra (.map (before ++ (key, left) :: after)) (.map (before ++ (key, right) :: after))
  | field (cls : DataClass) (name : Text) (before after : List (Text × Value))
      {left right : Value} (h : Same extra left right) :
      Same extra (.inst cls (before ++ (name, left) :: after))
        (.inst cls (before ++ (name, right) :: after))
  | extra {left right : Value} (h : extra left right) : Same extra left right

/-- A field that can be hashed by name: nothing, or strings. -/
def Value.Named (value : Value) : Prop :=
  value = .none ∨ ∃ names : List Text, value.listedNames = some (names.map some)

def Value.namesOnly (value : Value) : Value :=
  match value.listedNames with
  | some names => .seq .list ((sortNames (names.filterMap id)).map .str)
  | .none => value

/-- The mapping an instance stands for. -/
def DataClass.entries (cls : DataClass) (fields : List (Text × Value)) : List (Key × Value) :=
  fields.map fun field =>
    (.str field.1, if field.1 ∈ cls.hashByNameFields then field.2.namesOnly else field.2)

/-- What the encoder identifies beyond the kinds and the order of keys. -/
inductive ByDesign : Value → Value → Prop
  | dataclass (cls : DataClass) (fields : List (Text × Value))
      (named : ∀ field ∈ fields, field.1 ∈ cls.hashByNameFields → field.2.Named) :
      ByDesign (.inst cls fields) (.map (cls.entries fields))
  | enumMember (typeName : Text) (value : Value) : ByDesign (.enum typeName value) value

end Identifications

section Contents

theorem namesOnly_eq {value : Value} {names : List Text}
    (h : value.listedNames = some (names.map some)) :
    value.namesOnly = .seq .list ((sortNames names).map .str) := by
  have hnames : (names.map some).filterMap id = names := by
    simp [List.filterMap_map]
  unfold Value.namesOnly
  simp only [h]
  rw [hnames]

private theorem content_seq_str (names : List Text) :
    (Value.seq .list (names.map .str)).content = .seq (names.map .str) := by
  rw [Value.content, contentItems_eq_map, List.map_map]
  exact congrArg Content.seq (List.map_congr_left fun name _ => by
    rw [Function.comp, Value.content])

theorem content_namesOnly {value : Value} (named : value.Named) :
    value.namesOnly.content = value.content.names := by
  rcases named with rfl | ⟨names, h⟩
  · rfl
  · rw [namesOnly_eq h, names_content h, content_seq_str]

theorem textEntries_strKeys {α : Type} (name : α → Text) (value : α → Value) (items : List α) :
    textEntries (items.map fun item => (Key.str (name item), value item)) =
      items.map fun item => (name item, value item) := by
  induction items with
  | nil => rfl
  | cons item items ih =>
    rw [List.map_cons, List.map_cons, ← ih]
    rfl

theorem content_entries {cls : DataClass} {fields : List (Text × Value)}
    (named : ∀ field ∈ fields, field.1 ∈ cls.hashByNameFields → field.2.Named) :
    (Value.inst cls fields).content = (Value.map (cls.entries fields)).content := by
  rw [Value.content, Value.content, contentFields_eq_map, contentEntries_eq_map,
    DataClass.entries, textEntries_strKeys, List.map_map]
  refine congrArg (fun members => Content.record (sortByKey members)) ?_
  refine List.map_congr_left fun field hfield => ?_
  rw [fieldContent, Function.comp]
  refine Prod.ext rfl ?_
  split_ifs with hlisted
  · exact (content_namesOnly (named field hfield hlisted)).symm
  · rfl

theorem content_eq_of_same {left right : Value} (h : Same ByDesign left right) :
    left.content = right.content := by
  induction h with
  | refl => rfl
  | symm _ ih => exact ih.symm
  | trans _ _ first second => exact first.trans second
  | bytesKind => rfl
  | seqKind => rw [Value.content, Value.content]
  | keyOrder distinct perm =>
    rw [Value.content, Value.content, contentEntries_eq_map, contentEntries_eq_map]
    have hperm := ((perm.filterMap fun entry : Key × Value =>
      entry.1.name.map fun name => (name, entry.2)).map fun entry => (entry.1, entry.2.content))
    refine congrArg Content.record (sortByKey_eq_of_perm hperm ?_)
    rw [List.map_map]
    exact distinct
  | item kind before after _ ih =>
    simp only [Value.content, contentItems_eq_map, List.map_append, List.map_cons, ih]
  | entry key before after _ ih =>
    cases key with
    | str key =>
      simp only [Value.content, contentEntries_eq_map, textEntries, List.filterMap_append,
        List.filterMap_cons, Key.name, Option.map_some, List.map_append, List.map_cons, ih]
    | other repr =>
      simp only [Value.content, contentEntries_eq_map, textEntries, List.filterMap_append,
        List.filterMap_cons, Key.name, Option.map_none]
  | field cls name before after _ ih =>
    simp only [Value.content, contentFields_eq_map, List.map_append, List.map_cons, fieldContent,
      ih]
  | extra h =>
    cases h with
    | dataclass cls fields named => exact content_entries named
    | enumMember typeName value => rw [Value.content]

end Contents

section Representatives

mutual

def Content.value : Content → Value
  | .none => .none
  | .bool value => .bool value
  | .int value => .int value
  | .str text => .str text
  | .bytes content => .bytes .bytes content
  | .seq items => .seq .list (valuesOfItems items)
  | .record members => .map (valuesOfMembers members)

def valuesOfItems : List Content → List Value
  | [] => []
  | item :: items => item.value :: valuesOfItems items

def valuesOfMembers : List (Text × Content) → List (Key × Value)
  | [] => []
  | (key, content) :: members => (.str key, content.value) :: valuesOfMembers members

end

theorem valuesOfItems_eq_map (items : List Content) :
    valuesOfItems items = items.map Content.value := by
  induction items with
  | nil => rfl
  | cons item items ih => rw [valuesOfItems, ih, List.map_cons]

theorem valuesOfMembers_eq_map (members : List (Text × Content)) :
    valuesOfMembers members = members.map fun member => (.str member.1, member.2.value) := by
  induction members with
  | nil => rfl
  | cons member members ih =>
    obtain ⟨key, content⟩ := member
    rw [valuesOfMembers, ih, List.map_cons]

variable {extra : Value → Value → Prop} {α : Type}

theorem same_items (kind : SeqKind) {left right : α → Value} (before : List Value)
    (items : List α) (same : ∀ item ∈ items, Same extra (left item) (right item)) :
    Same extra (.seq kind (before ++ items.map left)) (.seq kind (before ++ items.map right)) := by
  induction items generalizing before with
  | nil => exact .refl _
  | cons item items ih =>
    have first : Same extra (.seq kind (before ++ left item :: items.map left))
        (.seq kind (before ++ right item :: items.map left)) :=
      .item kind before _ (same item (by simp))
    have rest := ih (before ++ [right item]) fun other member => same other (by simp [member])
    simp only [List.append_assoc, List.singleton_append] at rest
    exact first.trans rest

theorem same_entries (name : α → Key) {left right : α → Value} (before : List (Key × Value))
    (items : List α) (same : ∀ item ∈ items, Same extra (left item) (right item)) :
    Same extra (.map (before ++ items.map fun item => (name item, left item)))
      (.map (before ++ items.map fun item => (name item, right item))) := by
  induction items generalizing before with
  | nil => exact .refl _
  | cons item items ih =>
    have first : Same extra
        (.map (before ++ (name item, left item) :: items.map fun item => (name item, left item)))
        (.map (before ++ (name item, right item) ::
          items.map fun item => (name item, left item))) :=
      .entry (name item) before _ (same item (by simp))
    have rest := ih (before ++ [(name item, right item)]) fun other member =>
      same other (by simp [member])
    simp only [List.append_assoc, List.singleton_append] at rest
    exact first.trans rest

/-- A mapping of represented values is the representative of its record. -/
theorem same_record (name : α → Text) {value : α → Value} {content : α → Content}
    (items : List α) (distinct : (items.map name).Nodup)
    (same : ∀ item ∈ items, Same extra (value item) (content item).value) :
    Same extra (.map (items.map fun item => (.str (name item), value item)))
      (Content.record (sortByKey (items.map fun item => (name item, content item)))).value := by
  refine (same_entries (fun item => .str (name item)) [] items same).trans ?_
  rw [List.nil_append, Content.value, valuesOfMembers_eq_map]
  have hperm := ((perm_sortByKey (items.map fun item => (name item, content item))).symm.map
    fun member => (Key.str member.1, member.2.value))
  rw [List.map_map] at hperm
  refine .keyOrder ?_ hperm
  rw [textEntries_strKeys, List.map_map]
  exact distinct

private theorem same_names {value : Value} (named : value.Named) :
    Same extra value.namesOnly value.content.names.value := by
  rcases named with rfl | ⟨names, h⟩
  · exact .refl _
  · rw [namesOnly_eq h, names_content h, Content.value, valuesOfItems_eq_map, List.map_map]
    have hvalue : (sortNames names).map (Content.value ∘ Content.str) =
        (sortNames names).map Value.str :=
      List.map_congr_left fun name _ => by rw [Function.comp, Content.value]
    rw [hvalue]
    exact .refl _

theorem named_of_encodesNames {value : Value} {doc : Doc} (h : EncodesNames value doc) :
    value.Named := by
  rcases encodesNames_cases h with ⟨rfl, -⟩ | ⟨names, hnames, -⟩
  · exact .inl rfl
  · exact .inr ⟨names, hnames⟩

theorem entries_eq_of_encodes {entries : List (Key × Value)} {members : List (Text × Doc)}
    (related : List.Forall₂ EncodesEntry entries members) :
    entries = (textEntries entries).map fun entry => (.str entry.1, entry.2) := by
  induction related with
  | nil => rfl
  | @cons entry member entries members head _ ih =>
    obtain ⟨key, value⟩ := entry
    obtain ⟨rfl, -⟩ := head
    have hcons : textEntries ((.str member.1, value) :: entries) =
        (member.1, value) :: textEntries entries := rfl
    rw [hcons, List.map_cons, ← ih]

theorem same_value_content {value : Value} {doc : Doc} (h : Encodes value doc)
    (distinct : value.All Value.DistinctNames) : Same ByDesign value value.content.value := by
  induction value generalizing doc with
  | none | bool | int | str => exact .refl _
  | float | other =>
    obtain ⟨path, h⟩ := h
    cases h
  | bytes kind content => exact .bytesKind kind .bytes content
  | enum typeName value ih =>
    refine (Same.extra (.enumMember typeName value)).trans ?_
    exact ih h.of_enum (distinct.inside (by simp [Value.children]))
  | inst cls fields ih =>
    obtain ⟨members, hmembers, -⟩ := h.fields_of_inst
    have source {field : Text × Value} (hfield : field ∈ fields) :=
      exists_of_forall₂ hmembers hfield
    have named (field : Text × Value) (hfield : field ∈ fields)
        (hlisted : field.1 ∈ cls.hashByNameFields) : field.2.Named := by
      obtain ⟨member, -, hdoc⟩ := source hfield
      rw [if_pos hlisted] at hdoc
      exact named_of_encodesNames hdoc
    refine (Same.extra (.dataclass cls fields named)).trans ?_
    rw [Value.content, contentFields_eq_map]
    refine same_record Prod.fst fields distinct.here fun field hfield => ?_
    obtain ⟨member, -, hdoc⟩ := source hfield
    rw [fieldContent]
    split_ifs at hdoc ⊢ with hlisted
    · exact same_names (named field hfield hlisted)
    · exact ih field hfield hdoc (distinct.inside (List.mem_map_of_mem hfield))
  | map entries ih =>
    obtain ⟨members, hentries, -⟩ := h.entries_of_map
    have hrecord : Same ByDesign
        (.map ((textEntries entries).map fun entry => (.str entry.1, entry.2)))
        (Content.record (sortByKey
          ((textEntries entries).map fun entry => (entry.1, entry.2.content)))).value := by
      refine same_record Prod.fst (textEntries entries) distinct.here fun entry hentry => ?_
      obtain ⟨⟨key, value⟩, hsource, hname⟩ := List.mem_filterMap.mp hentry
      obtain ⟨name, -, rfl⟩ := Option.map_eq_some_iff.mp hname
      obtain ⟨member, -, -, hdoc⟩ := exists_of_forall₂ hentries hsource
      exact ih _ hsource hdoc (distinct.inside (List.mem_map_of_mem hsource))
    rw [Value.content, contentEntries_eq_map]
    rwa [← entries_eq_of_encodes hentries] at hrecord
  | seq kind items ih =>
    obtain ⟨docs, hdocs, -⟩ := h.items_of_seq
    rw [Value.content, Content.value, valuesOfItems_eq_map, contentItems_eq_map, List.map_map]
    refine Same.trans ?_ (.seqKind kind .list _)
    have hitems : Same ByDesign (.seq kind ([] ++ items.map id))
        (.seq kind ([] ++ items.map (Content.value ∘ Value.content))) := by
      refine same_items kind [] items fun item hitem => ?_
      obtain ⟨doc, hdoc⟩ := exists_of_forall₂ hdocs hitem
      exact ih item hitem hdoc (distinct.inside hitem)
    rwa [List.nil_append, List.nil_append, List.map_id] at hitems

end Representatives

section Bytes

/-- The wrapper around the encoded fields; its two keys are in order already. -/
def wrapped (doc : Doc) : Doc :=
  .obj [(Text.ofString "schema_version", .str computationSpecVersion), (Text.ofString "spec", doc)]

theorem sortKeys_wrapped (doc : Doc) : (wrapped doc).sortKeys = wrapped doc.sortKeys := by
  rfl

theorem canonicalDocument_ok {value : Value} {doc : Doc} (h : canonicalDocument value = .ok doc) :
    ∃ inner, Encodes value inner ∧ doc = wrapped inner := by
  cases value
  case inst cls fields =>
    obtain ⟨members, hmembers, rfl⟩ := except_map_ok h
    refine ⟨.obj members, ⟨[], ?_⟩, rfl⟩
    rw [encode, hmembers]
    rfl
  all_goals cases h

theorem canonicalBytes_ok {value : Value} {bytes : ByteArray}
    (h : canonicalBytes value = .ok bytes) :
    ∃ doc, Encodes value doc ∧ (wrapped doc).compact.utf8 = some bytes := by
  unfold canonicalBytes at h
  cases hdocument : canonicalDocument value with
  | error failure =>
    rw [hdocument] at h
    cases h
  | ok document =>
    obtain ⟨doc, hdoc, rfl⟩ := canonicalDocument_ok hdocument
    refine ⟨doc, hdoc, ?_⟩
    rw [hdocument] at h
    change (dumps (wrapped doc)).bind encodeUtf8 = .ok bytes at h
    unfold dumps at h
    split at h
    · change encodeUtf8 (wrapped doc).compact = .ok bytes at h
      unfold encodeUtf8 at h
      split at h
      · rename_i encoded hencoded
        cases h
        exact hencoded
      · cases h
    · cases h

theorem sortKeys_eq_of_wrapped {doc other : Doc}
    (h : (wrapped doc).compact = (wrapped other).compact) : doc.sortKeys = other.sortKeys := by
  rw [Doc.compact_eq_iff, sortKeys_wrapped, sortKeys_wrapped] at h
  have hmembers := (List.cons.inj (Doc.obj.inj h)).2
  exact (Prod.mk.inj (List.cons.inj hmembers).1).2

/-- Canonical bytes are a faithful identity up to what the encoder leaves out
by design. -/
theorem canonical_bytes_eq_iff_same (left right : Object) {bytes bytes' : ByteArray}
    (hleft : canonicalBytes left.value = .ok bytes)
    (hright : canonicalBytes right.value = .ok bytes')
    (untagged : left.value.All Value.Untagged) (untagged' : right.value.All Value.Untagged) :
    bytes = bytes' ↔ Same ByDesign left.value right.value := by
  obtain ⟨doc, hdoc, htext⟩ := canonicalBytes_ok hleft
  obtain ⟨doc', hdoc', htext'⟩ := canonicalBytes_ok hright
  constructor
  · rintro rfl
    have hkeys := sortKeys_eq_of_wrapped (Text.utf8_injective htext htext')
    rw [sortKeys_of_encodes hdoc, sortKeys_of_encodes hdoc'] at hkeys
    have hcontent := Content.doc_inj (untagged_content hdoc untagged)
      (untagged_content hdoc' untagged') hkeys
    have representative := same_value_content hdoc' right.distinctNames
    rw [← hcontent] at representative
    exact (same_value_content hdoc left.distinctNames).trans representative.symm
  · intro same
    have hkeys : doc.sortKeys = doc'.sortKeys := by
      rw [sortKeys_of_encodes hdoc, sortKeys_of_encodes hdoc', content_eq_of_same same]
    have hcompact : (wrapped doc).compact = (wrapped doc').compact := by
      rw [Doc.compact_eq_iff, sortKeys_wrapped, sortKeys_wrapped, hkeys]
    rw [hcompact, htext'] at htext
    exact (Option.some.inj htext).symm

/-- `ComputationSpec("python", "1", no_net=noNet)` with the other defaults. -/
def requestValue (noNet : Value) : Value :=
  .inst ⟨Text.ofString "ComputationSpec", [], []⟩
    [(Text.ofString "language", .str (Text.ofString "python")),
      (Text.ofString "code", .str (Text.ofString "1")), (Text.ofString "stdin", .str []),
      (Text.ofString "timeout", .int 10), (Text.ofString "workdir", .none),
      (Text.ofString "max_memory_mb", .int 0), (Text.ofString "max_output_kb", .int 0),
      (Text.ofString "max_cpu", .int 0), (Text.ofString "no_net", noNet)]

private theorem all_requestValue {p : Value → Prop} {noNet : Value}
    (here : p (requestValue noNet)) (leaves : ∀ value ∈ (requestValue noNet).children, p value)
    (leaf : noNet.children = []) : (requestValue noNet).All p := by
  refine .intro here fun child member => All.leaf (leaves child member) ?_
  simp only [requestValue, Value.children, List.map_cons, List.map_nil, List.mem_cons,
    List.not_mem_nil, or_false] at member
  rcases member with rfl | rfl | rfl | rfl | rfl | rfl | rfl | rfl | rfl
  all_goals first | rfl | exact leaf

private theorem distinct_requestFields (noNet : Value) : (requestValue noNet).DistinctNames := by
  unfold requestValue Value.DistinctNames
  simp only [List.map_cons, List.map_nil]
  decide

private theorem untagged_requestFields (noNet : Value) : (requestValue noNet).Untagged := by
  unfold requestValue Value.Untagged
  simp only [List.map_cons, List.map_nil]
  decide

def requestOffline : Object where
  value := requestValue (.bool true)
  distinctNames := all_requestValue (distinct_requestFields _)
    (by simp [requestValue, Value.children, Value.DistinctNames]) rfl

def requestCounted : Object where
  value := requestValue (.int 1)
  distinctNames := all_requestValue (distinct_requestFields _)
    (by simp [requestValue, Value.children, Value.DistinctNames]) rfl

/-- `no_net=True` and `no_net=1` are different requests. -/
theorem requestOffline_ne_requestCounted : ∃ bytes bytes',
    canonicalBytes requestOffline.value = .ok bytes ∧
      canonicalBytes requestCounted.value = .ok bytes' ∧ bytes ≠ bytes' ∧
      ¬ Same ByDesign requestOffline.value requestCounted.value := by
  let bytes (noNet : String) : ByteArray :=
    ("\x7b\"schema_version\":\"1.0.0\",\"spec\":\x7b\"code\":\"1\",\"language\":\"python\"," ++
      "\"max_cpu\":0,\"max_memory_mb\":0,\"max_output_kb\":0,\"no_net\":" ++ noNet ++
      ",\"stdin\":\"\",\"timeout\":10,\"workdir\":null\x7d\x7d").toUTF8
  have offline : canonicalBytes requestOffline.value = .ok (bytes "true") := by decide +kernel
  have counted : canonicalBytes requestCounted.value = .ok (bytes "1") := by decide +kernel
  have different : bytes "true" ≠ bytes "1" := by decide +kernel
  have iff := canonical_bytes_eq_iff_same requestOffline requestCounted offline counted
    (all_requestValue (untagged_requestFields _)
      (by simp [requestValue, Value.children, Value.Untagged]) rfl)
    (all_requestValue (untagged_requestFields _)
      (by simp [requestValue, Value.children, Value.Untagged]) rfl)
  exact ⟨_, _, offline, counted, different, fun same => different (iff.mpr same)⟩

end Bytes

section HashedByName

/-- Whether a string stands somewhere in a value that is no string itself
depends on what is inside. -/
theorem all_ne_str_congr {text : Text} {left right : Value} (hleft : left ≠ .str text)
    (hright : right ≠ .str text)
    (inside : (∀ child ∈ left.children, child.All (· ≠ .str text)) ↔
      ∀ child ∈ right.children, child.All (· ≠ .str text)) :
    left.All (· ≠ .str text) ↔ right.All (· ≠ .str text) := by
  rw [Value.All, Value.All, all_iff, all_iff]
  constructor
  · intro all
    exact ⟨hright, inside.mp all.2⟩
  · intro all
    exact ⟨hleft, inside.mpr all.2⟩

/-- Without the identifications made by design a string that stands somewhere
in a value stands in every value identified with it. -/
theorem all_ne_str_iff {text : Text} {left right : Value}
    (same : Same (fun _ _ => False) left right) :
    left.All (· ≠ .str text) ↔ right.All (· ≠ .str text) := by
  induction same with
  | refl => rfl
  | symm _ ih => exact ih.symm
  | trans _ _ first second => exact first.trans second
  | bytesKind kind kind' content =>
    apply all_ne_str_congr (by simp) (by simp)
    rfl
  | seqKind kind kind' items =>
    apply all_ne_str_congr (by simp) (by simp)
    rfl
  | keyOrder _ perm =>
    apply all_ne_str_congr (by simp) (by simp)
    exact forall_congr' fun child => imp_congr_left (perm.map Prod.snd).mem_iff
  | item kind before after _ ih =>
    apply all_ne_str_congr (by simp) (by simp)
    simp only [Value.children, List.forall_mem_append, List.forall_mem_cons, ih]
  | entry key before after _ ih =>
    apply all_ne_str_congr (by simp) (by simp)
    simp only [Value.children, List.map_append, List.map_cons, List.forall_mem_append,
      List.forall_mem_cons, ih]
  | field cls name before after _ ih =>
    apply all_ne_str_congr (by simp) (by simp)
    simp only [Value.children, List.map_append, List.map_cons, List.forall_mem_append,
      List.forall_mem_cons, ih]
  | extra h => exact h.elim

/-- `_ByNameSpec(code="x", env={"TOKEN": secret})`, whose `env` is hashed by
name. -/
def byNameValue (secret : String) : Value :=
  .inst ⟨Text.ofString "_ByNameSpec", [Text.ofString "env"], []⟩
    [(Text.ofString "code", .str (Text.ofString "x")),
      (Text.ofString "env",
        .map [(.str (Text.ofString "TOKEN"), .str (Text.ofString secret))])]

private theorem all_byNameValue {p : Value → Prop} {secret : String}
    (here : p (byNameValue secret)) (code : p (.str (Text.ofString "x")))
    (env : p (.map [(.str (Text.ofString "TOKEN"), .str (Text.ofString secret))]))
    (token : p (.str (Text.ofString secret))) : (byNameValue secret).All p := by
  refine .intro here fun child member => ?_
  simp only [byNameValue, Value.children, List.map_cons, List.map_nil, List.mem_cons,
    List.not_mem_nil, or_false] at member
  rcases member with rfl | rfl
  · exact All.leaf code rfl
  · refine .intro env fun child member => ?_
    simp only [Value.children, List.map_cons, List.map_nil, List.mem_singleton] at member
    subst member
    exact All.leaf token rfl

def byNameSpec (secret : String) : Object where
  value := byNameValue secret
  distinctNames := by
    refine all_byNameValue ?_ trivial ?_ trivial
    · unfold byNameValue Value.DistinctNames
      simp only [List.map_cons, List.map_nil]
      decide
    · exact List.nodup_singleton _

/-- A value hashed by name can change without changing the bytes. -/
theorem canonical_bytes_hide_named_values : ∃ bytes,
    canonicalBytes (byNameSpec "a").value = .ok bytes ∧
      canonicalBytes (byNameSpec "b").value = .ok bytes ∧
      ¬ Same (fun _ _ => False) (byNameSpec "a").value (byNameSpec "b").value := by
  let bytes : ByteArray := ("\x7b\"schema_version\":\"1.0.0\",\"spec\":" ++
    "\x7b\"code\":\"x\",\"env\":[\"TOKEN\"]\x7d\x7d").toUTF8
  refine ⟨bytes, by decide, by decide, fun same => ?_⟩
  have absent : (byNameValue "b").All (· ≠ .str (Text.ofString "a")) := by
    have hx : Text.ofString "x" ≠ Text.ofString "a" := by decide
    have hb : Text.ofString "b" ≠ Text.ofString "a" := by decide
    exact all_byNameValue (by simp [byNameValue]) (by simp [hx]) (by simp) (by simp [hb])
  have present := (all_ne_str_iff same).mpr absent
  have env : (Value.map [(.str (Text.ofString "TOKEN"), .str (Text.ofString "a"))]).All
      (· ≠ .str (Text.ofString "a")) :=
    present.inside (by simp [byNameSpec, byNameValue, Value.children])
  have token : (Value.str (Text.ofString "a")).All (· ≠ .str (Text.ofString "a")) :=
    env.inside (by simp [Value.children])
  exact token.here rfl

end HashedByName

end CodeCalc.SpecIdentity
