import CodeCalc.Setup.Merge

/-! What `write_config` keeps of a configuration file: the documents before and
after are compared as trees, in which a repeated name and a long literal are still
there, with the entry of the server taken out. -/
namespace CodeCalc.Setup

open Lib JsonCodec Utf8 JsonValue

namespace Machine

section Statement

variable (machine : Machine) (path : Text) (client : Client)

def withoutEntry : JsonValue → JsonValue
  | .obj entries => .obj (dropEntry codecalc entries)
  | value => value

def stripped (member : Text × JsonValue) : Text × JsonValue :=
  (member.1, if member.1 = client.key then withoutEntry member.2 else member.2)

/-- The members outside the client's entry of the server; the section that has to
hold it is there, if empty. -/
def outside (members : Members) : Members :=
  members.map (stripped client) ++
    if client.key ∈ members.map Prod.fst then [] else [(client.key, .obj [])]

/-- Outside the entry the two files hold the same members with the same literal
values, in the same order. -/
def Kept (before after : Bytes) : Prop :=
  ∃ original replaced, machine.document before = some original ∧
    machine.document after = some replaced ∧
    (JsonValue.obj (outside client replaced)).literal = (JsonValue.obj (outside client original)).literal

/-- What a user is promised of a run. -/
def Preserves (bytes : Bytes) (backup : Option Bytes) : Prop :=
  match machine.writeConfig path client ⟨some bytes, backup⟩ with
  | (.raised _, _) => False
  | (.returned result, files) =>
    if result.ok then
      (∃ after, files.config = some after ∧ machine.Kept client bytes after) ∧
        files.backup = some bytes ∧ (machine.writeConfig path client files).2.config = files.config
    else files = ⟨some bytes, backup⟩

structure Survives (text : Text) (members : Members) : Prop where
  lineEnds : machine.lineEnds.Own text
  present : (client.key, JsonValue.null) ∉ members
  lossless : All children Lossless (.obj (outside client members))
  shallow : (JsonValue.obj (outside client members)).depth ≤ machine.printNesting

/-- The file is UTF-8, no limit of the decoder is in its way, and it is refused or
survives. -/
def Preservable (bytes : Bytes) : Prop :=
  ∃ text, strict bytes = some text ∧
    match machine.tree (LineEnds.translate text) with
    | .failed _ => False
    | .value (.obj members) =>
        validateClientSection client (loaded members) = none → machine.Survives client text members
    | _ => True

end Statement

section Outside

variable {machine : Machine} {client : Client} {members : Members}

theorem outside_of_present (present : client.key ∈ members.map Prod.fst) :
    outside client members = members.map (stripped client) := by
  rw [outside, if_pos present, List.append_nil]

theorem map_stripped_of_absent (absent : client.key ∉ members.map Prod.fst) :
    members.map (stripped client) = members := by
  conv_rhs => rw [← List.map_id members]
  apply List.map_congr_left
  intro member inside
  have other : member.1 ≠ client.key := fun same => absent (List.mem_map.mpr ⟨member, inside, same⟩)
  rw [stripped, if_neg other]
  rfl

theorem outside_of_absent (absent : client.key ∉ members.map Prod.fst) :
    outside client members = members ++ [(client.key, .obj [])] := by
  rw [outside, if_neg absent, map_stripped_of_absent absent]

theorem map_fst_stripped (members : Members) :
    (members.map (stripped client)).map Prod.fst = members.map Prod.fst := by
  rw [List.map_map]
  rfl

theorem nodup_outside_iff :
    ((outside client members).map Prod.fst).Nodup ↔ (members.map Prod.fst).Nodup := by
  by_cases present : client.key ∈ members.map Prod.fst
  · rw [outside_of_present present, map_fst_stripped]
  · rw [outside_of_absent present, List.map_append, List.nodup_append]
    constructor
    · exact fun both => both.1
    · intro distinct
      refine ⟨distinct, List.nodup_singleton _, fun name inside other last => ?_⟩
      rintro rfl
      have same : name = client.key := List.mem_singleton.mp last
      exact present (same ▸ inside)

theorem mem_outside {member : Text × JsonValue} (inside : member ∈ outside client members) :
    (∃ original ∈ members, stripped client original = member) ∨ member = (client.key, .obj []) := by
  rw [outside, List.mem_append, List.mem_map] at inside
  refine inside.imp_right fun last => ?_
  split_ifs at last
  · cases last
  · exact List.mem_singleton.mp last

theorem all_withoutEntry {p : JsonValue → Prop} {value : JsonValue}
    (drop : ∀ entries, p (.obj entries) → p (.obj (dropEntry codecalc entries)))
    (all : All children p value) : All children p (withoutEntry value) := by
  cases value with
  | obj entries =>
    obtain ⟨here, inside⟩ := all_obj.mp all
    exact all_obj.mpr ⟨drop entries here, fun member given => inside member (mem_dropEntry.mp given).1⟩
  | _ => exact all

theorem joined_outside (all : All children Joined (.obj members)) :
    All children Joined (.obj (outside client members)) := by
  obtain ⟨here, inside⟩ := all_obj.mp all
  refine all_obj.mpr ⟨fun member given => ?_, fun member given => ?_⟩
  · rcases mem_outside given with ⟨original, there, rfl⟩ | rfl
    · exact here original there
    · exact pairless_key client
  · rcases mem_outside given with ⟨original, there, rfl⟩ | rfl
    · rw [stripped]
      dsimp only
      split_ifs
      · refine all_withoutEntry (fun entries named => ?_) (inside original there)
        exact fun other found => named other (mem_dropEntry.mp found).1
      · exact inside original there
    · exact all_obj.mpr ⟨List.forall_mem_nil _, List.forall_mem_nil _⟩

/-- Each member decoded; no two of them are merged. -/
def eachMerged (members : Members) : Members := members.map fun member => (member.1, member.2.merged)

theorem map_fst_eachMerged (members : Members) : (eachMerged members).map Prod.fst = members.map Prod.fst := by
  rw [eachMerged, List.map_map]
  rfl

theorem loaded_of_nodup (distinct : (members.map Prod.fst).Nodup) : loaded members = eachMerged members :=
  assign_of_nodup (by rwa [← map_fst_eachMerged] at distinct)

theorem dropEntry_loaded (name : Text) (entries : Members) :
    dropEntry name (loaded entries) = loaded (dropEntry name entries) := by
  rw [loaded, loaded, dropEntry_assign, dropEntry_map]

theorem withoutEntry_set (value : JsonValue) (entries : Members) :
    withoutEntry (.obj (setEntry codecalc value (loaded entries))) =
      (withoutEntry (.obj entries)).merged := by
  rw [withoutEntry, withoutEntry, dropEntry_setEntry, dropEntry_loaded, loaded_eq]

end Outside

section Comparison

variable {machine : Machine} {client : Client} {members : Members}

theorem section_of_valid {value : JsonValue} (distinct : (members.map Prod.fst).Nodup)
    (given : (client.key, value) ∈ members)
    (valid : validateClientSection client (loaded members) = none) (present : value ≠ .null) :
    ∃ entries, value = .obj entries ∧ sectionOf client (loaded members) = loaded entries := by
  have found : entryOf client.key (loaded members) = some value.merged := by
    rw [loaded_of_nodup distinct]
    have names := (map_fst_eachMerged members).symm ▸ distinct
    exact (Dict.get_eq_some_iff ⟨eachMerged members, names⟩ _ _).mpr (List.mem_map.mpr ⟨_, given, rfl⟩)
  rw [validateClientSection, found] at valid
  cases value with
  | null => exact absurd rfl present
  | obj entries =>
    refine ⟨entries, rfl, ?_⟩
    rw [sectionOf, found, ← loaded_eq]
  | _ => cases valid

theorem outside_mergeConfig (valid : validateClientSection client (loaded members) = none)
    (distinct : (members.map Prod.fst).Nodup) (present : (client.key, JsonValue.null) ∉ members) :
    outside client (machine.mergeConfig client (loaded members)) = eachMerged (outside client members) := by
  have names : ((eachMerged members).map Prod.fst).Nodup := (map_fst_eachMerged members).symm ▸ distinct
  obtain ⟨new, hnew⟩ : ∃ new, new = entered machine client (loaded members) := ⟨_, rfl⟩
  rw [mergeConfig_eq, ← hnew]
  by_cases key : client.key ∈ members.map Prod.fst
  · have there : client.key ∈ (loaded members).map Prod.fst := by
      rwa [loaded_of_nodup distinct, map_fst_eachMerged]
    have merged : client.key ∈
        (setEntry client.key (JsonValue.obj new) (loaded members)).map Prod.fst := by
      rwa [keys_setEntry_of_mem _ _ _ there]
    rw [outside_of_present merged, outside_of_present key,
      setEntry_eq_map _ (loaded_of_nodup distinct ▸ names) there, loaded_of_nodup distinct, eachMerged,
      eachMerged, List.map_map, List.map_map, List.map_map]
    apply List.map_congr_left
    rintro ⟨name, value⟩ given
    rw [Function.comp_apply, Function.comp_apply, Function.comp_apply, stripped, stripped]
    dsimp only
    by_cases same : name = client.key
    · subst same
      have solid : value ≠ .null := fun same => present (same ▸ given)
      obtain ⟨entries, rfl, own⟩ := section_of_valid distinct given valid solid
      rw [if_pos rfl, if_pos rfl]
      dsimp only
      rw [if_pos rfl, hnew, entered, own, withoutEntry_set]
    · rw [if_neg same, if_neg same]
      dsimp only
      rw [if_neg same]
  · have absent : client.key ∉ (loaded members).map Prod.fst := by
      rwa [loaded_of_nodup distinct, map_fst_eachMerged]
    have missing : sectionOf client (loaded members) = [] := by
      rcases sectionOf_cases client (loaded members) with none | found
      · exact none
      · exact absurd (List.mem_map_of_mem found) absent
    have last : stripped client (client.key, .obj (setEntry codecalc machine.buildServerEntry [])) =
        (client.key, .obj []) := by
      rw [stripped, if_pos rfl, withoutEntry, dropEntry_setEntry]
      rfl
    rw [setEntry_of_not_mem _ _ _ absent, outside_of_present (by simp), outside_of_absent key,
      List.map_append, map_stripped_of_absent absent, hnew, entered, missing, List.map_singleton, last,
      loaded_of_nodup distinct, eachMerged, eachMerged, List.map_append, List.map_singleton]
    rfl

theorem withoutEntry_written {value : JsonValue} (named : All children Named value) :
    withoutEntry value.written = (withoutEntry value).written := by
  cases value with
  | obj entries =>
    have fewer : All children Named (.obj (dropEntry codecalc entries)) :=
      all_withoutEntry (fun _ here other found => here other (mem_dropEntry.mp found).1) named
    rw [written_obj_of_named named, withoutEntry, withoutEntry, written_obj_of_named fewer, rewritten,
      rewritten, dropEntry_map]
  | float numeral =>
    have same : (JsonValue.float numeral).written = reread numeral := rfl
    have plain : withoutEntry (.float numeral) = .float numeral := rfl
    rw [plain, same]
    rcases reread_cases numeral with ⟨other, same⟩ | ⟨negative, same⟩
    · rw [same]
      rfl
    · rw [same]
      rfl
  | arr items =>
    have plain (others : List JsonValue) : withoutEntry (.arr others) = .arr others := rfl
    rw [plain, written_arr, plain]
  | _ => rfl

theorem outside_rewritten (named : All children Named (.obj members)) :
    outside client (rewritten members) = rewritten (outside client members) := by
  have keys : (rewritten members).map Prod.fst = members.map Prod.fst := by
    rw [rewritten, List.map_map]
    rfl
  have each : (rewritten members).map (stripped client) = rewritten (members.map (stripped client)) := by
    rw [rewritten, rewritten, List.map_map, List.map_map]
    apply List.map_congr_left
    intro member given
    rw [Function.comp_apply, Function.comp_apply, stripped, stripped]
    dsimp only
    split_ifs
    · rw [withoutEntry_written ((all_obj.mp named).2 member given)]
    · rfl
  rw [outside, outside, keys, each]
  split_ifs
  · rw [List.append_nil, List.append_nil]
  · rw [rewritten, rewritten, List.map_append, List.map_singleton]
    rfl

/-- The literal value of the two documents outside the entry is the same exactly when
decoding and printing the first loses nothing of it. -/
theorem kept_iff (joined : All children Joined (.obj members)) (held : Existing machine (loaded members))
    (valid : validateClientSection client (loaded members) = none) :
    (JsonValue.obj (outside client
        (rewritten (machine.mergeConfig client (loaded members))))).literal =
      (JsonValue.obj (outside client members)).literal ↔
    (client.key, JsonValue.null) ∉ members ∧ All children Lossless (.obj (outside client members)) := by
  have rewriting : outside client (rewritten (machine.mergeConfig client (loaded members))) =
      rewritten (outside client (machine.mergeConfig client (loaded members))) :=
    outside_rewritten (named_mergeConfig held.named)
  have lossless (distinct : (members.map Prod.fst).Nodup)
      (present : (client.key, JsonValue.null) ∉ members) :
      (JsonValue.obj (outside client
          (rewritten (machine.mergeConfig client (loaded members))))).literal =
        (JsonValue.obj (outside client members)).literal ↔
      All children Lossless (.obj (outside client members)) := by
    have all : All children Joined (.obj (outside client members)) := joined_outside joined
    have names := all.here
    rw [← literal_rewritten_iff all, merged_obj, written_obj_of_joined (names_of_assign names),
      assign_of_nodup (by rw [List.map_map]; exact nodup_outside_iff.mpr distinct), rewriting,
      outside_mergeConfig valid distinct present, rewritten, eachMerged]
  constructor
  · intro same
    have literals := same
    rw [literal_obj, literal_obj, Literal.obj.injEq] at literals
    have distinct : (members.map Prod.fst).Nodup := by
      have kept := congrArg (List.map Prod.fst) literals
      rw [map_fst_literal, map_fst_literal] at kept
      rw [← @nodup_outside_iff client members, ← kept, nodup_outside_iff, rewritten, List.map_map]
      exact (distinct_mergeConfig held.distinct).here
    have present : (client.key, JsonValue.null) ∉ members := by
      intro given
      have here : (client.key, Literal.null) ∈
          (outside client members).map fun member => (member.1, member.2.literal) := by
        refine List.mem_map.mpr ⟨(client.key, .null), ?_, rfl⟩
        rw [outside_of_present (List.mem_map_of_mem given)]
        refine List.mem_map.mpr ⟨_, given, ?_⟩
        rw [stripped, if_pos rfl]
        rfl
      rw [← literals] at here
      obtain ⟨⟨name, value⟩, there, same⟩ := List.mem_map.mp here
      obtain ⟨rfl, null⟩ := Prod.mk.inj same
      rw [rewritten_mergeConfig held.named] at there
      rcases mem_outside there with ⟨⟨name, original⟩, given, same⟩ | same
      · obtain ⟨rfl, rfl⟩ := Prod.mk.inj same
        have keys : ((rewritten (loaded members)).map Prod.fst).Nodup := by
          rw [rewritten, List.map_map]
          exact held.distinct.here
        have own := mem_setEntry keys given
        dsimp only at own null
        rw [own, if_pos rfl, withoutEntry, literal_obj] at null
        cases null
      · rw [(Prod.mk.inj same).2, literal_obj] at null
        cases null
    exact ⟨present, (lossless distinct present).mp same⟩
  · rintro ⟨present, kept⟩
    exact (lossless (nodup_outside_iff.mp kept.here) present).mpr kept

theorem kept_payload_iff {bytes : Bytes} (before : machine.document bytes = some members)
    (held : Existing machine (loaded members)) :
    machine.Kept client bytes (payload machine client (loaded members)) ↔
      (JsonValue.obj (outside client
          (rewritten (machine.mergeConfig client (loaded members))))).literal =
        (JsonValue.obj (outside client members)).literal := by
  constructor
  · rintro ⟨original, replaced, hbefore, hafter, same⟩
    rw [before] at hbefore
    rw [document_replaced held] at hafter
    cases hbefore
    cases hafter
    exact same
  · exact fun same => ⟨_, _, before, document_replaced held, same⟩

end Comparison

section Depth

variable {machine : Machine} {client : Client} {members : Members}

theorem Lossless.distinct {value : JsonValue} (lossless : Lossless value) : Distinct value := by
  cases value <;> first | exact trivial | exact lossless

theorem depth_outside_iff {bound : Nat} (enough : 4 ≤ bound)
    (distinct : All children Distinct (.obj members)) :
    (JsonValue.obj (outside client (machine.mergeConfig client members))).depth ≤ bound ↔
      (JsonValue.obj (machine.mergeConfig client members)).depth ≤ bound := by
  obtain ⟨bound, rfl⟩ : ∃ less, bound = less + 2 := ⟨bound - 2, by omega⟩
  have entry := depth_buildServerEntry machine
  have inSection : ((sectionOf client members).map Prod.fst).Nodup :=
    (all_sectionOf List.nodup_nil distinct).here
  rw [depth_obj_le, depth_obj_le]
  constructor
  · rintro shallow ⟨name, value⟩ given
    have here := shallow (stripped client (name, value)) (by
      rw [outside]
      exact List.mem_append_left _ (List.mem_map_of_mem given))
    rw [stripped] at here
    dsimp only at here ⊢
    by_cases same : name = client.key
    · subst same
      rw [mem_setEntry distinct.here given] at here ⊢
      rw [if_pos rfl, withoutEntry, depth_obj_le] at here
      refine depth_obj_le.mpr fun other found => ?_
      by_cases own : other.1 = codecalc
      · have value : other.2 = machine.buildServerEntry := mem_setEntry inSection (own ▸ found)
        rw [value]
        omega
      · exact here other (mem_dropEntry.mpr ⟨found, own⟩)
    · rwa [if_neg same] at here
  · rintro shallow ⟨name, value⟩ given
    rcases mem_outside given with ⟨⟨other, original⟩, there, same⟩ | same
    · obtain ⟨rfl, rfl⟩ := Prod.mk.inj same
      have here := shallow _ there
      dsimp only at here ⊢
      split_ifs
      · cases original with
        | obj entries =>
          rw [withoutEntry]
          refine depth_obj_le.mpr fun member found => ?_
          exact depth_obj_le.mp here member (mem_dropEntry.mp found).1
        | _ => exact here
      · exact here
    · rw [(Prod.mk.inj same).2]
      exact depth_obj_le.mpr (List.forall_mem_nil _)

/-- A file that loses nothing is printed just as deep as it stood there. -/
theorem depth_merge_iff (held : Existing machine (loaded members))
    (valid : validateClientSection client (loaded members) = none)
    (present : (client.key, JsonValue.null) ∉ members)
    (lossless : All children Lossless (.obj (outside client members))) :
    (JsonValue.obj (machine.mergeConfig client (loaded members))).depth ≤ machine.printNesting ↔
      (JsonValue.obj (outside client members)).depth ≤ machine.printNesting := by
  have distinct : All children Distinct (.obj (outside client members)) :=
    lossless.and_imp lossless fun _ here _ => Lossless.distinct here
  have same : JsonValue.obj (eachMerged (outside client members)) = .obj (outside client members) := by
    rw [← loaded_of_nodup distinct.here, loaded_eq, merged_of_distinct distinct]
  rw [← depth_outside_iff machine.prints held.distinct,
    outside_mergeConfig valid (nodup_outside_iff.mp distinct.here) present, same]

end Depth

section Main

variable (machine : Machine) (path : Text) (client : Client)

theorem storable_translate {text : Text} (scalars : Storable text) :
    Storable (LineEnds.translate text) := by
  intro code member
  rcases LineEnds.mem_translate member with inside | rfl
  · exact scalars code inside
  · decide

theorem storable_written {text : Text} (scalars : Storable text) :
    Storable (machine.lineEnds.written text) := by
  intro code member
  rcases LineEnds.mem_written member with inside | rfl
  · exact scalars code inside
  · decide

/-- The backup holds what the file held exactly when its line ends are the platform's. -/
theorem backup_iff {bytes : Bytes} {text : Text} (decoded : strict bytes = some text) :
    machine.writeText (LineEnds.translate text) = bytes ↔ machine.lineEnds.Own text := by
  obtain ⟨rfl, scalars⟩ := strict_spec decoded
  rw [← LineEnds.written_translate_iff]
  constructor
  · exact encodeText_inj (storable_written machine (storable_translate scalars)) scalars
  · exact congrArg encodeText

theorem writeConfig_of_text {bytes : Bytes} {text : Text} (decoded : strict bytes = some text)
    (backup : Option Bytes) :
    machine.writeConfig path client ⟨some bytes, backup⟩ =
      match machine.tree (LineEnds.translate text) with
      | .malformed => (refused path (machine.notJson (LineEnds.translate text)), ⟨some bytes, backup⟩)
      | .failed .recursion => (.raised .recursionError, ⟨some bytes, backup⟩)
      | .failed .digits => (.raised .valueError, ⟨some bytes, backup⟩)
      | .value (.obj members) =>
        match validateClientSection client (loaded members) with
        | some error => (refused path error, ⟨some bytes, backup⟩)
        | none =>
          machine.replace path client (loaded members) (some (backupPath path))
            ⟨some bytes, some (machine.writeText (LineEnds.translate text))⟩
      | .value _ => (refused path notObject, ⟨some bytes, backup⟩) := by
  rw [writeConfig]
  dsimp only
  rw [readText, decoded, Option.map_some]
  dsimp only
  rw [existing_eq]
  cases machine.tree (LineEnds.translate text) with
  | malformed => rfl
  | failed failure => cases failure <;> rfl
  | value value =>
    cases value with
    | obj members =>
      rewrite [Decoded.map, ← loaded_eq]
      rfl
    | arr items =>
      rw [Decoded.map, merged_arr]
    | _ => rfl

/-- A run on a file that is UTF-8 keeps its promise exactly when it is refused or
survives. -/
theorem preserves_text_iff {bytes : Bytes} {text : Text} (decoded : strict bytes = some text)
    (backup : Option Bytes) :
    machine.Preserves path client bytes backup ↔
      match machine.tree (LineEnds.translate text) with
      | .failed _ => False
      | .value (.obj members) =>
          validateClientSection client (loaded members) = none → machine.Survives client text members
      | _ => True := by
  have scalars := (strict_spec decoded).2
  rw [Preserves, writeConfig_of_text machine path client decoded]
  cases found : machine.tree (LineEnds.translate text) with
  | malformed => exact iff_of_true rfl trivial
  | failed failure => cases failure <;> exact Iff.rfl
  | value value =>
    cases value with
    | obj members =>
      obtain ⟨regular, shallow⟩ := regular_tree (storable_translate scalars) found
      have held := existing_loaded regular shallow
      have joined : All children Joined (.obj members) :=
        regular.and_imp regular fun _ here _ => joined_of_regular here
      have before : machine.document bytes = some members := by
        rw [document, readText, decoded, Option.map_some, Option.map_some, found]
      dsimp only
      cases valid : validateClientSection client (loaded members) with
      | some error => exact iff_of_true rfl fun same => by cases same
      | none =>
        have kept := kept_iff joined held valid
        rw [imp_iff_right rfl]
        dsimp only
        by_cases prints :
            (JsonValue.obj (machine.mergeConfig client (loaded members))).depth ≤ machine.printNesting
        · rw [replace_eq _ _ _ prints]
          dsimp only
          rw [if_pos rfl, replaced_again held _ _ prints]
          simp only [Option.some.injEq, exists_eq_left', and_true]
          rw [kept_payload_iff before held, kept, backup_iff machine decoded]
          constructor
          · rintro ⟨⟨present, lossless⟩, own⟩
            exact ⟨own, present, lossless, (depth_merge_iff held valid present lossless).mp prints⟩
          · intro survives
            exact ⟨⟨survives.present, survives.lossless⟩, survives.lineEnds⟩
        · rw [replace, if_pos (not_le.mp prints)]
          refine iff_of_false id fun survives => prints ?_
          exact (depth_merge_iff held valid survives.present survives.lossless).mpr survives.shallow
    | _ => exact iff_of_true rfl trivial

theorem writeConfig_of_undecoded {bytes : Bytes} (undecoded : strict bytes = none) (backup : Option Bytes) :
    machine.writeConfig path client ⟨some bytes, backup⟩ =
      (.raised .unicodeDecodeError, ⟨some bytes, backup⟩) := by
  rw [writeConfig]
  dsimp only
  rw [readText, undecoded]
  rfl

/-- A run keeps its promise exactly on the files that are refused or survive. -/
theorem writeConfig_preserves_iff (bytes : Bytes) (backup : Option Bytes) :
    machine.Preserves path client bytes backup ↔ machine.Preservable client bytes := by
  rw [Preservable]
  cases decoded : strict bytes with
  | none =>
    rw [Preserves, writeConfig_of_undecoded machine path client decoded]
    simp
  | some text =>
    rw [preserves_text_iff machine path client decoded]
    simp only [Option.some.injEq, exists_eq_left']

theorem four_le_thousand : 4 ≤ 1000 := by decide

/-- CPython on Linux, with no `codecalc` on the path. -/
def posixMachine : Machine where
  lineEnds := .posix
  limits := ⟨1000, 4300⟩
  printNesting := 1000
  nests := four_le_thousand
  prints := four_le_thousand
  decodeError _ := []
  isSourceCheckout := false
  root := []
  executable := []
  which := none

/-- Two members of one name. -/
def twice : Members := [(Text.ofString "a", .int 1), (Text.ofString "a", .int 2)]

/-- A byte that is no UTF-8 raises, and of two members of one name one is lost. -/
theorem writeConfig_loses :
    ¬ posixMachine.Preserves [] .cursor [0xFF] none ∧
      ¬ posixMachine.Preserves [] .cursor
        (posixMachine.writeText (indented 0 (.obj twice) ++ [newline])) none := by
  constructor
  · intro preserves
    have undecoded : strict [0xFF] = none := by
      rw [strict]
      rfl
    rw [Preserves, writeConfig_of_undecoded _ _ _ undecoded] at preserves
    exact preserves
  · intro preserves
    have typed := typed_payload (.obj twice)
    rw [preserves_text_iff _ _ _ (strict_writeText _ typed),
      LineEnds.translate_written _ (carriage_notMem_typed typed)] at preserves
    have within (value : Int) (digits : (decimal value.natAbs).length ≤ 4300) :
        All children (IntsWithin posixMachine.limits) (.int value) := .leaf digits rfl
    have all : All children (IntsWithin posixMachine.limits) (.obj twice) :=
      all_obj.mpr ⟨trivial, List.forall_mem_cons.mpr ⟨within 1 (by decide),
        List.forall_mem_cons.mpr ⟨within 2 (by decide), List.forall_mem_nil _⟩⟩⟩
    have shallow : (JsonValue.obj twice).depth ≤ posixMachine.limits.nesting := by decide
    have named : All children Named (.obj twice) :=
      all_obj.mpr ⟨(by decide : ∀ member ∈ twice, Pairless member.1),
        List.forall_mem_cons.mpr ⟨.leaf trivial rfl,
          List.forall_mem_cons.mpr ⟨.leaf trivial rfl, List.forall_mem_nil _⟩⟩⟩
    rw [tree_payload _ all shallow, written_obj_of_named named] at preserves
    have survives := preserves rfl
    have distinct : ([Text.ofString "a", Text.ofString "a"] : List Text).Nodup :=
      nodup_outside_iff.mp survives.lossless.here
    exact absurd distinct (by decide)

end Main

section Safety

variable (machine : Machine) (path : Text) (client : Client)

/-- The server's entry is where the client looks for it, and every other setting and
every other server is the value `json.loads` gave it, as it is read back. -/
structure Merges (before after : Members) : Prop where
  entry : ∃ entries, entryOf client.key after = some (.obj entries) ∧
    entryOf codecalc entries = some machine.buildServerEntry.written ∧
    ∀ name, name ≠ codecalc → entryOf name entries = (entryOf name (sectionOf client before)).map written
  others : ∀ name, name ≠ client.key → entryOf name after = (entryOf name before).map written

/-- What `json.loads` gives for a file; nothing for a file that is not there. -/
def Holds (config : Option Bytes) (before : Members) : Prop :=
  match config with
  | none => before = []
  | some bytes => ∃ members, machine.document bytes = some members ∧ before = loaded members

variable {machine path client} {members : Members}

theorem entryOf_rewritten (name : Text) (members : Members) :
    entryOf name (rewritten members) = (entryOf name members).map written :=
  entryOf_map written name members

theorem merges_rewritten (held : Existing machine members) :
    Merges machine client members (rewritten (machine.mergeConfig client members)) where
  entry := by
    refine ⟨rewritten (entered machine client members), ?_, ?_, fun name other => ?_⟩
    · rw [rewritten_mergeConfig held.named, entryOf_setEntry, if_pos rfl]
    · rw [entryOf_rewritten, entered, entryOf_setEntry, if_pos rfl]
      rfl
    · rw [entryOf_rewritten, entered, entryOf_setEntry, if_neg other]
  others name other := by
    rw [entryOf_rewritten, mergeConfig_eq, entryOf_setEntry, if_neg other]

/-- What a run leaves behind, however it ends. -/
def Safe (machine : Machine) (path : Text) (client : Client) (files : Files) (run : Outcome × Files) :
    Prop :=
  match run with
  | (.raised _, after) => after.config = files.config
  | (.returned result, after) =>
    if result.ok then
      ∃ bytes before members, after.config = some bytes ∧ Holds machine files.config before ∧
        machine.document bytes = some members ∧ Merges machine client before members ∧
        ∀ backup, machine.writeConfig path client ⟨some bytes, backup⟩ =
          (.returned { ok := true, path := path, backup := some (backupPath path), error := none },
            ⟨some bytes, some bytes⟩)
    else after = files

theorem safe_replace {files after : Files} (held : Existing machine members)
    (holds : Holds machine files.config members) (same : after.config = files.config) (backup : Option Text) :
    Safe machine path client files (machine.replace path client members backup after) := by
  by_cases prints : (JsonValue.obj (machine.mergeConfig client members)).depth ≤ machine.printNesting
  · rw [replace_eq _ _ _ prints, Safe, if_pos rfl]
    exact ⟨_, members, _, rfl, holds, document_replaced held, merges_rewritten held,
      fun other => replaced_again held path other prints⟩
  · rw [replace, if_pos (not_le.mp prints)]
    exact same

/-- A run that raises leaves the configuration as it was, a refusal leaves the backup
as well, and a file that was written holds the entry beside all other settings and is
left alone by the next run. -/
theorem writeConfig_safe (machine : Machine) (path : Text) (client : Client) (files : Files) :
    Safe machine path client files (machine.writeConfig path client files) := by
  obtain ⟨config, backup⟩ := files
  cases config with
  | none =>
    have holds : Holds machine none [] := rfl
    exact @safe_replace machine path client [] ⟨none, backup⟩ _ (existing_nil machine) holds rfl none
  | some bytes =>
    cases decoded : strict bytes with
    | none =>
      rw [writeConfig_of_undecoded machine path client decoded]
      exact rfl
    | some text =>
      have scalars := (strict_spec decoded).2
      rw [writeConfig_of_text machine path client decoded]
      cases found : machine.tree (LineEnds.translate text) with
      | malformed => exact rfl
      | failed failure => cases failure <;> exact rfl
      | value value =>
        cases value with
        | obj members =>
          obtain ⟨regular, shallow⟩ := regular_tree (storable_translate scalars) found
          have before : machine.document bytes = some members := by
            rw [document, readText, decoded, Option.map_some, Option.map_some, found]
          dsimp only
          cases validateClientSection client (loaded members) with
          | some error => exact rfl
          | none =>
            have holds : Holds machine (some bytes) (loaded members) := ⟨members, before, rfl⟩
            dsimp only
            exact @safe_replace machine path client _ ⟨some bytes, backup⟩ ⟨some bytes, some _⟩
              (existing_loaded regular shallow) holds rfl (some (backupPath path))
        | _ => exact rfl

end Safety

end Machine

end CodeCalc.Setup
