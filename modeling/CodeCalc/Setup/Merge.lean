import CodeCalc.Setup.Config

/-! The merge of the server entry into a document that was read: what it leaves of
the document, and what a second run makes of the file it wrote. -/
namespace CodeCalc.Setup

open Lib JsonCodec Utf8 JsonValue

namespace Machine

section Documents

variable (machine : Machine)

/-- The document of a text as it stands there; a blank text is an empty object. -/
def tree (raw : Text) : Decoded :=
  if stripSpace raw = [] then .value (.obj []) else parse machine.limits raw

def document (bytes : Bytes) : Option Members :=
  match (readText bytes).map machine.tree with
  | some (.value (.obj members)) => some members
  | _ => none

/-- What `json.loads` makes of the members of an object. -/
def loaded (members : Members) : Members := assign (members.map fun member => (member.1, member.2.merged))

variable {machine : Machine} {members : Members} {raw : Text}

theorem existing_eq (machine : Machine) (raw : Text) :
    machine.existing raw = (machine.tree raw).map JsonValue.merged := by
  unfold existing tree
  split_ifs
  · rfl
  · exact loads_eq_parse _ _

theorem regular_tree {value : JsonValue} (scalars : Scalars raw)
    (found : machine.tree raw = .value value) :
    All children (Regular machine.limits) value ∧ value.depth ≤ machine.limits.nesting := by
  have nests := machine.nests
  unfold tree at found
  split_ifs at found
  · cases found
    refine ⟨all_obj.mpr ⟨List.forall_mem_nil _, List.forall_mem_nil _⟩, ?_⟩
    rw [JsonValue.depth, JsonValue.depthMembers]
    omega
  · exact parse_regular scalars found

theorem loaded_eq (members : Members) : JsonValue.obj (loaded members) = (JsonValue.obj members).merged :=
  (merged_obj members).symm

end Documents

section Entry

variable {machine : Machine} {client : Client} {members : Members}

theorem pairless_key (client : Client) : Pairless client.key := by
  cases client <;> decide

theorem pairless_codecalc : Pairless codecalc := by decide

theorem resolveCommand_env (machine : Machine) : machine.resolveCommand.env = [] ∨
    ∃ root, machine.resolveCommand.env = [(Text.ofString "PYTHONPATH", root)] := by
  unfold resolveCommand
  split_ifs with source
  · exact .inr ⟨_, rfl⟩
  · left
    split <;> rfl

theorem buildServerEntry_cases (machine : Machine) :
    (∃ command, ∃ args : List Text, machine.buildServerEntry =
      .obj [(Text.ofString "command", .str command), (Text.ofString "args", .arr (args.map .str))]) ∨
    ∃ command, ∃ args : List Text, ∃ root, machine.buildServerEntry =
      .obj [(Text.ofString "command", .str command), (Text.ofString "args", .arr (args.map .str)),
        (Text.ofString "env", .obj [(Text.ofString "PYTHONPATH", .str root)])] := by
  unfold buildServerEntry
  dsimp only
  rcases resolveCommand_env machine with none | ⟨root, some⟩
  · rw [none, if_pos rfl]
    exact .inl ⟨_, _, rfl⟩
  · rw [some, if_neg (List.cons_ne_nil _ _)]
    exact .inr ⟨_, _, _, rfl⟩

theorem all_strings {p : JsonValue → Prop} (string : ∀ text, p (.str text)) (row : ∀ items, p (.arr items))
    (texts : List Text) : All children p (.arr (texts.map .str)) :=
  all_arr.mpr ⟨row _, List.forall_mem_map.mpr fun text _ => .leaf (string text) rfl⟩

def entryNames : List (List Text) :=
  [["command", "args"], ["command", "args", "env"], ["PYTHONPATH"]].map (List.map Text.ofString)

/-- What holds of strings, arrays and objects of those names holds everywhere in the
entry. -/
theorem all_buildServerEntry {p : JsonValue → Prop} (string : ∀ text, p (.str text))
    (row : ∀ items, p (.arr items))
    (object : ∀ entries : Members, entries.map Prod.fst ∈ entryNames → p (.obj entries))
    (machine : Machine) : All children p machine.buildServerEntry := by
  have leaf (text : Text) : All children p (.str text) := .leaf (string text) rfl
  rcases buildServerEntry_cases machine with ⟨command, args, same⟩ | ⟨command, args, root, same⟩ <;>
    rw [same, all_obj]
  · refine ⟨object _ (by simp [entryNames]), List.forall_mem_cons.mpr ⟨leaf command,
      List.forall_mem_cons.mpr ⟨all_strings string row args, List.forall_mem_nil _⟩⟩⟩
  · refine ⟨object _ (by simp [entryNames]), List.forall_mem_cons.mpr ⟨leaf command,
      List.forall_mem_cons.mpr ⟨all_strings string row args,
        List.forall_mem_cons.mpr ⟨?_, List.forall_mem_nil _⟩⟩⟩⟩
    exact all_obj.mpr ⟨object _ (by simp [entryNames]),
      List.forall_mem_cons.mpr ⟨leaf root, List.forall_mem_nil _⟩⟩

theorem depth_buildServerEntry (machine : Machine) : machine.buildServerEntry.depth ≤ 2 := by
  have flat (args : List Text) : (JsonValue.arr (args.map .str)).depth ≤ 1 :=
    depth_arr_le.mpr (List.forall_mem_map.mpr fun _ _ => le_rfl)
  rcases buildServerEntry_cases machine with ⟨command, args, same⟩ | ⟨command, args, root, same⟩ <;>
    rw [same, depth_obj_le]
  · exact List.forall_mem_cons.mpr ⟨Nat.zero_le _, List.forall_mem_cons.mpr ⟨flat args,
      List.forall_mem_nil _⟩⟩
  · refine List.forall_mem_cons.mpr ⟨Nat.zero_le _, List.forall_mem_cons.mpr ⟨flat args,
      List.forall_mem_cons.mpr ⟨?_, List.forall_mem_nil _⟩⟩⟩
    exact depth_obj_le.mpr (List.forall_mem_cons.mpr ⟨le_rfl, List.forall_mem_nil _⟩)

end Entry

section Existing

variable {machine : Machine} {client : Client} {members : Members}

/-- Members as `json.loads` gives them. -/
structure Existing (machine : Machine) (members : Members) : Prop where
  regular : All children (Regular machine.limits) (.obj members)
  distinct : All children Distinct (.obj members)
  shallow : (JsonValue.obj members).depth ≤ machine.limits.nesting

theorem existing_nil (machine : Machine) : Existing machine [] where
  regular := all_obj.mpr ⟨List.forall_mem_nil _, List.forall_mem_nil _⟩
  distinct := all_obj.mpr ⟨List.nodup_nil, List.forall_mem_nil _⟩
  shallow := by
    have := machine.nests
    rw [JsonValue.depth, JsonValue.depthMembers]
    omega

theorem existing_loaded (regular : All children (Regular machine.limits) (.obj members))
    (shallow : (JsonValue.obj members).depth ≤ machine.limits.nesting) :
    Existing machine (loaded members) where
  regular := loaded_eq members ▸ regular_merged regular
  distinct := loaded_eq members ▸ distinct_merged _
  shallow := loaded_eq members ▸ depth_merged_le shallow

theorem Existing.joined (held : Existing machine members) : All children Joined (.obj members) :=
  held.regular.and_imp held.regular fun _ here _ => joined_of_regular here

theorem Existing.named (held : Existing machine members) : All children Named (.obj members) :=
  held.regular.and_imp held.regular fun _ here _ => named_of_joined (joined_of_regular here)

theorem sectionOf_cases (client : Client) (members : Members) :
    sectionOf client members = [] ∨ (client.key, .obj (sectionOf client members)) ∈ members := by
  unfold sectionOf
  split
  · exact .inr (mem_of_entryOf (by assumption))
  · exact .inl rfl

/-- What holds everywhere in a document holds in the client's section of it. -/
theorem all_sectionOf {p : JsonValue → Prop} (empty : p (.obj [])) (all : All children p (.obj members)) :
    All children p (.obj (sectionOf client members)) := by
  rcases sectionOf_cases client members with none | found
  · rw [none]
    exact all_obj.mpr ⟨empty, List.forall_mem_nil _⟩
  · exact (all_obj.mp all).2 _ found

def entered (machine : Machine) (client : Client) (members : Members) : Members :=
  setEntry codecalc machine.buildServerEntry (sectionOf client members)

theorem mergeConfig_eq (machine : Machine) (client : Client) (members : Members) :
    machine.mergeConfig client members =
      setEntry client.key (.obj (entered machine client members)) members := rfl

theorem mem_mergeConfig (machine : Machine) (client : Client) (members : Members) :
    (client.key, .obj (entered machine client members)) ∈ machine.mergeConfig client members := by
  apply mem_of_entryOf
  rw [mergeConfig_eq, entryOf_setEntry, if_pos rfl]

/-- What an assignment keeps of an object, and the entry has, holds everywhere in the
merge. -/
theorem all_mergeConfig {p : JsonValue → Prop} (empty : p (.obj []))
    (assigned : ∀ name ∈ [codecalc, client.key], ∀ value entries, p (.obj entries) →
      p (.obj (setEntry name value entries)))
    (entry : All children p machine.buildServerEntry) (all : All children p (.obj members)) :
    All children p (.obj (machine.mergeConfig client members)) := by
  have client_section := all_obj.mp (@all_sectionOf client members _ empty all)
  have here := all_obj.mp all
  refine all_obj.mpr ⟨assigned client.key (by simp) _ _ here.1, fun member given => ?_⟩
  rcases mem_of_mem_setEntry given with rfl | given
  · refine all_obj.mpr ⟨assigned codecalc (by simp) _ _ client_section.1, fun other found => ?_⟩
    rcases mem_of_mem_setEntry found with rfl | found
    · exact entry
    · exact client_section.2 other found
  · exact here.2 member given

theorem named_mergeConfig (all : All children Named (.obj members)) :
    All children Named (.obj (machine.mergeConfig client members)) := by
  refine all_mergeConfig (List.forall_mem_nil _) ?_
    (all_buildServerEntry (fun _ => trivial) (fun _ => trivial) ?_ machine) all
  · intro name listed value entries here member given
    rcases mem_of_mem_setEntry given with rfl | given
    · rcases List.mem_pair.mp listed with rfl | rfl
      · exact pairless_codecalc
      · exact pairless_key client
    · exact here member given
  · intro entries listed member given
    have constant : ∀ names ∈ entryNames, ∀ name ∈ names, Pairless name := by decide
    exact constant _ listed _ (List.mem_map_of_mem given)

theorem distinct_mergeConfig (all : All children Distinct (.obj members)) :
    All children Distinct (.obj (machine.mergeConfig client members)) := by
  refine all_mergeConfig List.nodup_nil (fun name _ value entries here => nodup_setEntry name value _ here)
    (all_buildServerEntry (fun _ => trivial) (fun _ => trivial) ?_ machine) all
  intro entries listed
  have constant : ∀ names ∈ entryNames, names.Nodup := by decide
  exact constant _ listed

theorem intsWithin_mergeConfig {limits : Limits} (all : All children (IntsWithin limits) (.obj members)) :
    All children (IntsWithin limits) (.obj (machine.mergeConfig client members)) :=
  all_mergeConfig trivial (fun _ _ _ _ _ => trivial)
    (all_buildServerEntry (fun _ => trivial) (fun _ => trivial) (fun _ _ => trivial) machine) all

theorem depth_mergeConfig_le {bound : Nat} (enough : 4 ≤ bound)
    (shallow : (JsonValue.obj members).depth ≤ bound) :
    (JsonValue.obj (machine.mergeConfig client members)).depth ≤ bound := by
  obtain ⟨bound, rfl⟩ : ∃ less, bound = less + 2 := ⟨bound - 2, by omega⟩
  have entry := depth_buildServerEntry machine
  have inside := depth_obj_le.mp shallow
  refine depth_obj_le.mpr fun member given => ?_
  rcases mem_of_mem_setEntry given with rfl | given
  · refine depth_obj_le.mpr fun other found => ?_
    rcases mem_of_mem_setEntry found with rfl | found
    · exact entry.trans (by omega)
    · rcases sectionOf_cases client members with none | listed
      · rw [none] at found
        cases found
      · exact depth_obj_le.mp (inside _ listed) other found
  · exact inside member given

end Existing

section Rewriting

variable {machine : Machine} {client : Client} {members : Members}

/-- Members as they are read back. -/
def rewritten (members : Members) : Members := members.map fun member => (member.1, member.2.written)

theorem written_obj_of_named (named : All children Named (.obj members)) :
    (JsonValue.obj members).written = .obj (rewritten members) :=
  written_obj_of_joined named.here

theorem rewritten_setEntry (name : Text) (value : JsonValue) (members : Members) :
    rewritten (setEntry name value members) = setEntry name value.written (rewritten members) :=
  (setEntry_map written name value members).symm

theorem rewritten_mergeConfig (named : All children Named (.obj members)) :
    rewritten (machine.mergeConfig client members) =
      setEntry client.key (.obj (rewritten (entered machine client members))) (rewritten members) := by
  have merged := (all_obj.mp (named_mergeConfig named)).2 _ (mem_mergeConfig machine client members)
  rw [mergeConfig_eq, rewritten_setEntry, written_obj_of_named merged]

/-- The second merge changes nothing of the first but the spelling of its entry. -/
theorem mergeConfig_rewritten (named : All children Named (.obj members)) :
    machine.mergeConfig client (rewritten (machine.mergeConfig client members)) =
      setEntry client.key
        (.obj (setEntry codecalc machine.buildServerEntry (rewritten (sectionOf client members))))
        (rewritten members) := by
  have own : sectionOf client (rewritten (machine.mergeConfig client members)) =
      rewritten (entered machine client members) := by
    rw [rewritten_mergeConfig named, sectionOf, entryOf_setEntry, if_pos rfl]
  rw [mergeConfig_eq machine client (rewritten _), entered, own, rewritten_mergeConfig named,
    setEntry_setEntry, entered, rewritten_setEntry, setEntry_setEntry]

theorem alike_rewritten (joined : All children Joined (.obj members)) :
    AlikeMembers (rewritten members) members :=
  alikeMembers_map fun member given => alike_written ((all_obj.mp joined).2 member given)

theorem alike_mergeConfig (joined : All children Joined (.obj members)) :
    Alike (.obj (machine.mergeConfig client (rewritten (machine.mergeConfig client members))))
      (.obj (machine.mergeConfig client members)) := by
  rw [mergeConfig_rewritten (joined.and_imp joined fun _ here _ => named_of_joined here)]
  apply alike_obj
  apply setEntry_related _ _ (alike_rewritten joined)
  apply alike_obj
  exact setEntry_related codecalc (alike_refl _)
    (alike_rewritten (all_sectionOf (List.forall_mem_nil _) joined))

end Rewriting

section Payload

variable {machine : Machine} {client : Client} {members : Members} {value : JsonValue}

/-- What `json.dumps(merged, indent=2) + "\n"` puts into the file. -/
def payload (machine : Machine) (client : Client) (members : Members) : Bytes :=
  machine.writeText (indented 0 (.obj (machine.mergeConfig client members)) ++ [newline])

theorem typed_payload (value : JsonValue) : Typed (indented 0 value ++ [newline]) :=
  typed_append.mpr ⟨typed_indented value 0, typed_cons.mpr ⟨.inr rfl, List.forall_mem_nil _⟩⟩

theorem val_of_typed {text : Text} (typed : Typed text) {code : CodePoint} (member : code ∈ text) :
    32 ≤ code.val ∧ code.val ≤ 126 ∨ code = newline :=
  (typed code member).imp_left of_decide_eq_true

theorem carriage_notMem_typed {text : Text} (typed : Typed text) : LineEnds.carriage ∉ text := by
  intro member
  rcases val_of_typed typed member with within | same
  · revert within
    decide
  · revert same
    decide

/-- What is printed is ASCII. -/
theorem strict_writeText (machine : Machine) {text : Text} (typed : Typed text) :
    strict (machine.writeText text) = some (machine.lineEnds.written text) := by
  have ascii : Ascii (machine.lineEnds.written text) := by
    intro code member
    rcases LineEnds.mem_written member with inside | rfl
    · rcases val_of_typed typed inside with within | rfl
      · omega
      · decide
    · decide
  rw [writeText, encodeText_ascii ascii, strict_asciiBytes ascii]

theorem readText_writeText (machine : Machine) {text : Text} (typed : Typed text) :
    readText (machine.writeText text) = some text := by
  rw [readText, strict_writeText machine typed, Option.map_some,
    LineEnds.translate_written _ (carriage_notMem_typed typed)]

theorem stripSpace_ne_nil {code : CodePoint} {rest : Text} (solid : isSpace code = false) :
    stripSpace (code :: rest) ≠ [] := by
  rw [stripSpace, List.dropWhile_cons, if_neg (by simp [solid]), ne_eq, List.rdropWhile_eq_nil_iff]
  intro all
  exact absurd (all code List.mem_cons_self) (by simp [solid])

theorem tree_payload (machine : Machine) (within : All children (IntsWithin machine.limits) (.obj members))
    (shallow : (JsonValue.obj members).depth ≤ machine.limits.nesting) :
    machine.tree (indented 0 (.obj members) ++ [newline]) = .value (JsonValue.obj members).written := by
  rw [tree, if_neg, parse_indented within shallow]
  rw [indented, List.cons_append]
  exact stripSpace_ne_nil (by decide)

theorem replace_eq (path : Text) (backup : Option Text) (files : Files)
    (prints : (JsonValue.obj (machine.mergeConfig client members)).depth ≤ machine.printNesting) :
    machine.replace path client members backup files =
      (.returned { ok := true, path := path, backup := backup, error := none },
        { files with config := some (payload machine client members) }) :=
  if_neg (not_lt.mpr prints)

variable (held : Existing machine members)
include held

theorem tree_replaced :
    machine.tree (indented 0 (.obj (machine.mergeConfig client members)) ++ [newline]) =
      .value (.obj (rewritten (machine.mergeConfig client members))) := by
  have within : All children (IntsWithin machine.limits) (.obj members) :=
    held.regular.and_imp held.regular fun _ here _ => intsWithin_of_regular here
  rw [tree_payload machine (intsWithin_mergeConfig within)
    (depth_mergeConfig_le machine.nests held.shallow),
    written_obj_of_named (named_mergeConfig held.named)]

theorem document_replaced :
    machine.document (payload machine client members) =
      some (rewritten (machine.mergeConfig client members)) := by
  rw [document, payload, readText_writeText machine (typed_payload _), Option.map_some, tree_replaced held]

theorem replaced_again (path : Text) (backup : Option Bytes)
    (prints : (JsonValue.obj (machine.mergeConfig client members)).depth ≤ machine.printNesting) :
    machine.writeConfig path client ⟨some (payload machine client members), backup⟩ =
      (.returned { ok := true, path := path, backup := some (backupPath path), error := none },
        ⟨some (payload machine client members), some (payload machine client members)⟩) := by
  have distinct : All children Distinct (.obj (rewritten (machine.mergeConfig client members))) := by
    rw [← written_obj_of_named (named_mergeConfig held.named)]
    exact distinct_written (distinct_mergeConfig held.distinct) (named_mergeConfig held.named)
  have alike := @alike_mergeConfig machine client members held.joined
  have valid : validateClientSection client (rewritten (machine.mergeConfig client members)) = none := by
    rw [validateClientSection, rewritten_mergeConfig held.named, entryOf_setEntry, if_pos rfl]
  rw [writeConfig]
  dsimp only
  rw [payload, readText_writeText machine (typed_payload _)]
  dsimp only
  rw [existing_eq, tree_replaced held, Decoded.map, merged_of_distinct distinct]
  dsimp only
  rw [valid]
  dsimp only
  rw [replace_eq _ _ _ (by rwa [alike.depth]), payload, alike.text]

end Payload

end Machine

end CodeCalc.Setup
