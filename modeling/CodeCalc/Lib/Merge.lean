import Mathlib.Data.List.Find
import Mathlib.Data.List.Induction
import Mathlib.Data.List.Pairwise
import CodeCalc.Lib.Dict

/-! Merging a list by a name: of the elements of one name the last is kept, at the
place where the name is first mentioned. -/
namespace CodeCalc.Lib

variable {α β γ : Type} [DecidableEq β] [DecidableEq γ]

section Keeping

variable (name : α → β) (items : List α)

def LastOf (item : α) : Prop :=
  (items.reverse.find? fun other => decide (name other = name item)) = some item

def mention (id : β) : Nat := items.findIdx fun other => decide (name other = id)

/-- For each name exactly its last element, in the order in which the names are
first mentioned. -/
structure KeepsLast (kept : List α) : Prop where
  last : ∀ item ∈ kept, LastOf name items item
  every : ∀ item ∈ items, ∃ other ∈ kept, name other = name item
  ordered : kept.Pairwise fun item other =>
    mention name items (name item) < mention name items (name other)

variable {name items}

theorem LastOf.mem {item : α} (last : LastOf name items item) : item ∈ items :=
  List.mem_reverse.mp (List.mem_of_find?_eq_some last)

theorem LastOf.unique {item other : α} (last : LastOf name items item)
    (last' : LastOf name items other) (same : name item = name other) : item = other := by
  unfold LastOf at last last'
  rw [same] at last
  exact Option.some.inj (last.symm.trans last')

theorem exists_lastOf {item : α} (member : item ∈ items) :
    ∃ other, LastOf name items other ∧ name other = name item := by
  have found : (items.reverse.find? fun other => decide (name other = name item)).isSome := by
    rw [List.find?_isSome]
    exact ⟨item, List.mem_reverse.mpr member, decide_eq_true rfl⟩
  obtain ⟨other, h⟩ := Option.isSome_iff_exists.mp found
  have same := of_decide_eq_true
    (List.find?_some (p := fun other => decide (name other = name item)) h)
  refine ⟨other, ?_, same⟩
  rwa [LastOf, same]

variable {kept : List α}

theorem KeepsLast.mem_iff (keeps : KeepsLast name items kept) {item : α} :
    item ∈ kept ↔ LastOf name items item := by
  refine ⟨keeps.last item, ?_⟩
  intro last
  obtain ⟨other, member, same⟩ := keeps.every item last.mem
  rwa [← (keeps.last other member).unique last same]

end Keeping

section Agreement

variable {name : α → β} {key : α → γ} {items kept : List α}

/-- Two namings choose the same elements, and mention them first in the same order. -/
structure Agree (key : α → γ) (name : α → β) (items : List α) : Prop where
  last : ∀ item, LastOf key items item ↔ LastOf name items item
  order : ∀ item other, LastOf key items item → LastOf key items other →
    (mention key items (key item) < mention key items (key other) ↔
      mention name items (name item) < mention name items (name other))

theorem iff_of_pairwise {f g : α → Nat} (hf : kept.Pairwise fun item other => f item < f other)
    (hg : kept.Pairwise fun item other => g item < g other) {item other : α}
    (member : item ∈ kept) (member' : other ∈ kept) : f item < f other ↔ g item < g other := by
  let Alike (item other : α) : Prop :=
    (f item < f other ↔ g item < g other) ∧ (f other < f item ↔ g other < g item)
  have : Std.Symm Alike := ⟨fun _ _ alike => And.symm alike⟩
  have alike : kept.Pairwise Alike := (hf.and hg).imp fun {item other} both => by
    have := both.1
    have := both.2
    constructor <;> omega
  by_cases same : item = other
  · rw [same]
    omega
  · exact (alike.forall member member' same).1

/-- A merge by one naming is one by another exactly where the two agree. -/
theorem KeepsLast.iff_agree (keeps : KeepsLast key items kept) :
    KeepsLast name items kept ↔ Agree key name items := by
  constructor
  · intro named
    refine ⟨fun item => keeps.mem_iff.symm.trans named.mem_iff, ?_⟩
    intro item other last last'
    exact iff_of_pairwise keeps.ordered named.ordered (keeps.mem_iff.mpr last)
      (keeps.mem_iff.mpr last')
  · intro agree
    refine ⟨fun item member => (agree.last item).mp (keeps.last item member), ?_, ?_⟩
    · intro item member
      obtain ⟨other, last, same⟩ : ∃ other, LastOf name items other ∧ name other = name item :=
        exists_lastOf member
      exact ⟨other, keeps.mem_iff.mpr ((agree.last other).mpr last), same⟩
    · refine keeps.ordered.imp_of_mem fun {item other} member member' before => ?_
      exact (agree.order item other (keeps.last item member) (keeps.last other member')).mp before

theorem agree_of_kernel (same : ∀ item ∈ items, ∀ other ∈ items,
    (key item = key other ↔ name item = name other)) : Agree key name items := by
  have last : ∀ item ∈ items, (LastOf key items item ↔ LastOf name items item) := by
    intro item member
    have alike : ∀ other ∈ items.reverse,
        decide (key other = key item) = decide (name other = name item) := by
      intro other member'
      exact decide_eq_decide.mpr (same other (List.mem_reverse.mp member') item member)
    rw [LastOf, LastOf, List.find?_congr alike]
  have first : ∀ item ∈ items, mention key items (key item) = mention name items (name item) := by
    intro item member
    have alike : items.map (fun other => decide (key other = key item)) =
        items.map (fun other => decide (name other = name item)) :=
      List.map_congr_left fun other member' => decide_eq_decide.mpr (same other member' item member)
    have := congrArg (List.findIdx id) alike
    rwa [List.findIdx_map, List.findIdx_map] at this
  refine ⟨fun item => ?_, ?_⟩
  · constructor
    · exact fun keyed => (last item keyed.mem).mp keyed
    · exact fun named => (last item named.mem).mpr named
  · intro item other keyed keyed'
    rw [first item keyed.mem, first other keyed'.mem]

/-- Namings that agree on two elements tell them apart alike. -/
theorem Agree.pair {item other : α} (agree : Agree key name [item, other]) :
    key item = key other ↔ name item = name other := by
  have last {δ : Type} [DecidableEq δ] (name : α → δ) :
      LastOf name [item, other] item ↔ (name item = name other → item = other) := by
    rw [LastOf, List.reverse_cons, List.reverse_singleton, List.singleton_append, List.find?_cons]
    by_cases same : name other = name item
    · simp [same, eq_comm]
    · simp [same, Ne.symm same]
  by_cases one : item = other
  · rw [one]
    simp
  · have := agree.last item
    rw [last, last] at this
    simpa [one, not_iff_not] using this

end Agreement

section Merge

variable (name : α → β)

/-- The values of a dictionary that each element is assigned in under its name. -/
def mergeBy (items : List α) : List α :=
  (items.foldl (fun entries item => setEntry (name item) item entries) []).map Prod.snd

variable {name}

/-- What the dictionary holds after the elements. -/
structure Merged (name : α → β) (items : List α) (entries : List (β × α)) : Prop where
  value : ∀ id, entryOf id entries =
    items.reverse.find? fun other => decide (name other = id)
  distinct : (entries.map Prod.fst).Nodup
  ordered : entries.Pairwise fun entry other =>
    mention name items entry.1 < mention name items other.1

theorem merged_nil : Merged name [] [] :=
  ⟨fun _ => rfl, List.nodup_nil, List.Pairwise.nil⟩

theorem Merged.mem_keys_iff {items : List α} {entries : List (β × α)}
    (merged : Merged name items entries) {id : β} :
    id ∈ entries.map Prod.fst ↔ ∃ item ∈ items, name item = id := by
  have found : (entryOf id entries).isSome ↔ id ∈ entries.map Prod.fst := by
    rw [entryOf, List.lookup_isSome_iff, List.mem_map]
    simp only [beq_iff_eq]
    exact exists_congr fun entry => and_congr_right fun _ => eq_comm
  rw [← found, merged.value, List.find?_isSome]
  simp

/-- An element that was mentioned keeps its place when another one comes last. -/
theorem mention_append {items : List α} {id : β} (item : α)
    (mentioned : ∃ other ∈ items, name other = id) :
    mention name (items ++ [item]) id = mention name items id := by
  have inside : items.findIdx (fun other => decide (name other = id)) < items.length :=
    List.findIdx_lt_length_of_exists (by simpa using mentioned)
  rw [mention, List.findIdx_append, if_pos inside, mention]

theorem mention_append_self {items : List α} (item : α)
    (fresh : ¬ ∃ other ∈ items, name other = name item) :
    mention name (items ++ [item]) (name item) = items.length := by
  have outside : items.findIdx (fun other => decide (name other = name item)) = items.length :=
    List.findIdx_eq_length.mpr fun other member =>
      decide_eq_false fun same => fresh ⟨other, member, same⟩
  rw [mention, List.findIdx_append, if_neg (by omega)]
  simp

theorem Merged.step {items : List α} {entries : List (β × α)}
    (merged : Merged name items entries) (item : α) :
    Merged name (items ++ [item]) (setEntry (name item) item entries) where
  value id := by
    rw [entryOf_setEntry, List.reverse_append, merged.value, List.reverse_singleton,
      List.singleton_append, List.find?_cons]
    by_cases same : name item = id
    · simp [same]
    · simp [same, Ne.symm same]
  distinct := nodup_setEntry _ _ _ merged.distinct
  ordered := by
    have kept : ∀ entry ∈ entries,
        mention name (items ++ [item]) entry.1 = mention name items entry.1 := by
      intro entry member
      exact mention_append item (merged.mem_keys_iff.mp (List.mem_map_of_mem member))
    have old : entries.Pairwise fun entry other =>
        mention name (items ++ [item]) entry.1 < mention name (items ++ [item]) other.1 :=
      merged.ordered.imp_of_mem fun {entry other} member member' before => by
        rwa [kept entry member, kept other member']
    by_cases present : name item ∈ entries.map Prod.fst
    · have keys := keys_setEntry_of_mem (name item) item entries present
      rw [← List.pairwise_map (f := Prod.fst) (R := fun id other =>
        mention name (items ++ [item]) id < mention name (items ++ [item]) other)] at old ⊢
      rwa [keys]
    · rw [setEntry_of_not_mem _ _ _ present, List.pairwise_append]
      refine ⟨old, List.pairwise_singleton _ _, ?_⟩
      intro entry member other member'
      rw [List.mem_singleton.mp member', kept entry member,
        mention_append_self item (merged.mem_keys_iff.not.mp present)]
      obtain ⟨first, first_mem, same⟩ := merged.mem_keys_iff.mp (List.mem_map_of_mem member)
      exact List.findIdx_lt_length_of_exists ⟨first, first_mem, decide_eq_true same⟩

theorem merged_foldl (items : List α) : Merged name items
    (items.foldl (fun entries item => setEntry (name item) item entries) []) := by
  induction items using List.reverseRecOn with
  | nil => exact merged_nil
  | append_singleton items item ih =>
    rw [List.foldl_append]
    exact ih.step item

theorem Merged.entry {items : List α} {entries : List (β × α)}
    (merged : Merged name items entries) {entry : β × α} (member : entry ∈ entries) :
    entry.1 = name entry.2 ∧ LastOf name items entry.2 := by
  have found : entryOf entry.1 entries = some entry.2 :=
    ((Dict.mk entries merged.distinct).get_eq_some_iff entry.1 entry.2).mpr member
  rw [merged.value] at found
  have same : name entry.2 = entry.1 := of_decide_eq_true
    (List.find?_some (p := fun other => decide (name other = entry.1)) found)
  exact ⟨same.symm, by rwa [LastOf, same]⟩

theorem keepsLast_mergeBy (name : α → β) (items : List α) :
    KeepsLast name items (mergeBy name items) := by
  have merged : Merged name items
      (items.foldl (fun entries item => setEntry (name item) item entries) []) := merged_foldl items
  refine ⟨?_, ?_, ?_⟩
  · intro item member
    obtain ⟨entry, member', rfl⟩ := List.mem_map.mp member
    exact (merged.entry member').2
  · intro item member
    obtain ⟨entry, member', same⟩ :=
      List.mem_map.mp (merged.mem_keys_iff.mpr ⟨item, member, rfl⟩)
    exact ⟨entry.2, List.mem_map_of_mem member', (merged.entry member').1.symm.trans same⟩
  · rw [mergeBy, List.pairwise_map]
    refine merged.ordered.imp_of_mem fun {entry other} member member' before => ?_
    rwa [(merged.entry member).1, (merged.entry member').1] at before

end Merge

end CodeCalc.Lib
