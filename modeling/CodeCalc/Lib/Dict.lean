import Mathlib.Data.List.Basic
import Mathlib.Data.List.Nodup

/-! Dictionaries that remember insertion order.  Assigning to a present key
keeps its position, a new key goes to the end, and removal leaves the order of
the other keys alone.  Distinctness of the keys is a field, so it never has to
be carried as an invariant of a program that stores one. -/
namespace CodeCalc.Lib

variable {κ ν : Type} [DecidableEq κ]

/-- Assignment in an association list, in place when the key is present. -/
def setEntry (key : κ) (value : ν) : List (κ × ν) → List (κ × ν)
  | [] => [(key, value)]
  | (other, previous) :: rest =>
      if other = key then (key, value) :: rest
      else (other, previous) :: setEntry key value rest

private theorem lookup_cons_ne {head other : κ} (value : ν) (rest : List (κ × ν))
    (different : other ≠ head) : ((head, value) :: rest).lookup other = rest.lookup other := by
  rw [List.lookup_cons, beq_eq_false_iff_ne.mpr different]

theorem lookup_setEntry (key other : κ) (value : ν) (entries : List (κ × ν)) :
    (setEntry key value entries).lookup other =
      if other = key then some value else entries.lookup other := by
  induction entries with
  | nil => by_cases h : other = key <;> simp [setEntry, h]
  | cons entry rest ih =>
    obtain ⟨head, previous⟩ := entry
    unfold setEntry
    by_cases hhead : head = key
    · subst head
      by_cases h : other = key
      · simp [h]
      · simp [h, lookup_cons_ne _ rest h]
    · rw [if_neg hhead]
      by_cases h : other = head
      · subst other
        simp [hhead]
      · rw [lookup_cons_ne _ _ h, lookup_cons_ne _ _ h, ih]

def entryOf (key : κ) (entries : List (κ × ν)) : Option ν := entries.lookup key

theorem entryOf_setEntry (key other : κ) (value : ν) (entries : List (κ × ν)) :
    entryOf other (setEntry key value entries) =
      if other = key then some value else entryOf other entries :=
  lookup_setEntry key other value entries

theorem mem_of_entryOf {key : κ} {value : ν} {entries : List (κ × ν)}
    (found : entryOf key entries = some value) : (key, value) ∈ entries := by
  obtain ⟨front, back, rfl, _⟩ := List.lookup_eq_some_iff.mp found
  simp

theorem mem_of_mem_setEntry {key : κ} {value : ν} {entries : List (κ × ν)} {entry : κ × ν}
    (member : entry ∈ setEntry key value entries) : entry = (key, value) ∨ entry ∈ entries := by
  induction entries with
  | nil => exact .inl (List.mem_singleton.mp member)
  | cons first rest ih =>
    unfold setEntry at member
    split_ifs at member
    · exact (List.mem_cons.mp member).imp_right (List.mem_cons_of_mem _)
    · cases List.mem_cons.mp member with
      | inl same => exact .inr (by rw [same]; exact List.mem_cons_self)
      | inr later => exact (ih later).imp_right (List.mem_cons_of_mem _)

theorem keys_setEntry_of_mem (key : κ) (value : ν) (entries : List (κ × ν))
    (present : key ∈ entries.map Prod.fst) :
    (setEntry key value entries).map Prod.fst = entries.map Prod.fst := by
  induction entries with
  | nil => simp at present
  | cons entry rest ih =>
    obtain ⟨head, previous⟩ := entry
    unfold setEntry
    by_cases hhead : head = key
    · simp [hhead]
    · have htail : key ∈ rest.map Prod.fst := by
        simpa [Ne.symm hhead] using present
      simp [hhead, ih htail]

theorem setEntry_of_not_mem (key : κ) (value : ν) (entries : List (κ × ν))
    (absent : key ∉ entries.map Prod.fst) :
    setEntry key value entries = entries ++ [(key, value)] := by
  induction entries with
  | nil => rfl
  | cons entry rest ih =>
    obtain ⟨head, previous⟩ := entry
    simp only [List.map_cons, List.mem_cons, not_or] at absent
    simp [setEntry, Ne.symm absent.1, ih absent.2]

theorem nodup_setEntry (key : κ) (value : ν) (entries : List (κ × ν))
    (distinct : (entries.map Prod.fst).Nodup) :
    ((setEntry key value entries).map Prod.fst).Nodup := by
  by_cases present : key ∈ entries.map Prod.fst
  · rwa [keys_setEntry_of_mem key value entries present]
  · rw [setEntry_of_not_mem key value entries present, List.map_append]
    refine List.nodup_append.mpr ⟨distinct, List.nodup_singleton _, ?_⟩
    intro other member last hlast
    have hkey : last = key := by simpa using hlast
    exact fun same => present (hkey ▸ same ▸ member)

/-- Assigning fresh keys one after the other appends the entries. -/
theorem foldl_setEntry (kept rest : List (κ × ν)) (distinct : ((kept ++ rest).map Prod.fst).Nodup) :
    rest.foldl (fun entries entry => setEntry entry.1 entry.2 entries) kept = kept ++ rest := by
  induction rest generalizing kept with
  | nil => exact (List.append_nil kept).symm
  | cons entry rest ih =>
    have fresh : entry.1 ∉ kept.map Prod.fst := by
      rw [List.map_append, List.map_cons] at distinct
      intro present
      exact (List.nodup_append.mp distinct).2.2 _ present _ (by simp) rfl
    rw [List.foldl_cons, setEntry_of_not_mem _ _ _ fresh, ih]
    · rw [List.append_assoc]
      rfl
    · rwa [List.append_assoc]

theorem setEntry_setEntry (key : κ) (first second : ν) (entries : List (κ × ν)) :
    setEntry key second (setEntry key first entries) = setEntry key second entries := by
  induction entries with
  | nil => simp [setEntry]
  | cons entry rest ih =>
    obtain ⟨other, value⟩ := entry
    by_cases same : other = key <;> simp [setEntry, same, ih]

/-- Among distinct keys, assignment to a present one changes its entry only. -/
theorem setEntry_eq_map {key : κ} (value : ν) {entries : List (κ × ν)}
    (distinct : (entries.map Prod.fst).Nodup) (present : key ∈ entries.map Prod.fst) :
    setEntry key value entries =
      entries.map fun entry => if entry.1 = key then (key, value) else entry := by
  induction entries with
  | nil => simp at present
  | cons entry rest ih =>
    obtain ⟨head, previous⟩ := entry
    obtain ⟨fresh, distinct⟩ := List.nodup_cons.mp distinct
    unfold setEntry
    by_cases same : head = key
    · subst same
      have other : ∀ entry ∈ rest, entry.1 ≠ head := fun entry member same =>
        fresh (List.mem_map.mpr ⟨entry, member, same⟩)
      rw [if_pos rfl, List.map_cons, if_pos rfl,
        List.map_congr_left fun entry member => if_neg (other entry member), List.map_id']
    · have later : key ∈ rest.map Prod.fst := (List.mem_cons.mp present).resolve_left (Ne.symm same)
      rw [if_neg same, List.map_cons, if_neg same, ih distinct later]

theorem setEntry_cons (key head : κ) (value previous : ν) (rest : List (κ × ν)) :
    setEntry key value ((head, previous) :: rest) =
      if head = key then (key, value) :: rest else (head, previous) :: setEntry key value rest := rfl

theorem setEntry_map {μ : Type} (f : ν → μ) (key : κ) (value : ν) (entries : List (κ × ν)) :
    setEntry key (f value) (entries.map fun entry => (entry.1, f entry.2)) =
      (setEntry key value entries).map fun entry => (entry.1, f entry.2) := by
  induction entries with
  | nil => rfl
  | cons entry rest ih =>
    rw [List.map_cons, setEntry_cons, setEntry_cons, ih]
    split_ifs <;> rfl

theorem setEntry_related {μ : Type} {r : ν → μ → Prop} (key : κ) {value : ν} {other : μ}
    (related : r value other) {entries : List (κ × ν)} {others : List (κ × μ)}
    (all : List.Forall₂ (fun left right => left.1 = right.1 ∧ r left.2 right.2) entries others) :
    List.Forall₂ (fun left right => left.1 = right.1 ∧ r left.2 right.2)
      (setEntry key value entries) (setEntry key other others) := by
  induction all with
  | nil => exact .cons ⟨rfl, related⟩ .nil
  | @cons left right rest rest' both all ih =>
    obtain ⟨head, previous⟩ := left
    obtain ⟨head', previous'⟩ := right
    obtain ⟨rfl, alike⟩ := both
    unfold setEntry
    by_cases same : head = key
    · rw [if_pos same, if_pos same]
      exact .cons ⟨rfl, related⟩ all
    · rw [if_neg same, if_neg same]
      exact .cons ⟨rfl, alike⟩ ih

def dropEntry (key : κ) (entries : List (κ × ν)) : List (κ × ν) :=
  entries.filter fun entry => decide (entry.1 ≠ key)

theorem dropEntry_cons (key head : κ) (previous : ν) (rest : List (κ × ν)) :
    dropEntry key ((head, previous) :: rest) =
      if head = key then dropEntry key rest else (head, previous) :: dropEntry key rest := by
  unfold dropEntry
  rw [List.filter_cons]
  by_cases same : head = key <;> simp [same]

theorem mem_dropEntry {key : κ} {entry : κ × ν} {entries : List (κ × ν)} :
    entry ∈ dropEntry key entries ↔ entry ∈ entries ∧ entry.1 ≠ key := by
  rw [dropEntry, List.mem_filter, decide_eq_true_iff]

theorem dropEntry_setEntry (key : κ) (value : ν) (entries : List (κ × ν)) :
    dropEntry key (setEntry key value entries) = dropEntry key entries := by
  induction entries with
  | nil => exact (dropEntry_cons key key value []).trans (if_pos rfl)
  | cons entry rest ih =>
    obtain ⟨head, previous⟩ := entry
    rw [setEntry_cons]
    by_cases same : head = key
    · rw [if_pos same, dropEntry_cons, dropEntry_cons, if_pos rfl, if_pos same]
    · rw [if_neg same, dropEntry_cons, dropEntry_cons, if_neg same, if_neg same, ih]

theorem dropEntry_setEntry_of_ne {key other : κ} (different : key ≠ other) (value : ν)
    (entries : List (κ × ν)) :
    dropEntry other (setEntry key value entries) = setEntry key value (dropEntry other entries) := by
  induction entries with
  | nil => exact (dropEntry_cons other key value []).trans (if_neg different)
  | cons entry rest ih =>
    obtain ⟨head, previous⟩ := entry
    rw [setEntry_cons, dropEntry_cons]
    by_cases same : head = key
    · have stays : head ≠ other := same ▸ different
      rw [if_pos same, if_neg stays, dropEntry_cons, if_neg different, setEntry_cons, if_pos same]
    · rw [if_neg same, dropEntry_cons, ih]
      by_cases out : head = other
      · rw [if_pos out, if_pos out]
      · rw [if_neg out, if_neg out, setEntry_cons, if_neg same]

theorem dropEntry_map {μ : Type} (f : ν → μ) (key : κ) (entries : List (κ × ν)) :
    dropEntry key (entries.map fun entry => (entry.1, f entry.2)) =
      (dropEntry key entries).map fun entry => (entry.1, f entry.2) :=
  List.filter_map

theorem entryOf_map {μ : Type} (f : ν → μ) (key : κ) (entries : List (κ × ν)) :
    entryOf key (entries.map fun entry => (entry.1, f entry.2)) = (entryOf key entries).map f := by
  induction entries with
  | nil => rfl
  | cons entry rest ih =>
    obtain ⟨head, value⟩ := entry
    unfold entryOf at ih ⊢
    rw [List.map_cons]
    by_cases h : key = head
    · subst head
      rw [List.lookup_cons_self, List.lookup_cons_self]
      rfl
    · rw [lookup_cons_ne _ _ h, lookup_cons_ne _ _ h, ih]

theorem mem_setEntry {key : κ} {value found : ν} {entries : List (κ × ν)}
    (distinct : (entries.map Prod.fst).Nodup) (member : (key, found) ∈ setEntry key value entries) :
    found = value := by
  have unique := nodup_setEntry key value entries distinct
  have assigned : (key, value) ∈ setEntry key value entries := by
    apply mem_of_entryOf
    rw [entryOf_setEntry, if_pos rfl]
  exact congrArg Prod.snd (List.inj_on_of_nodup_map unique member assigned rfl)

structure Dict (κ ν : Type) where
  entries : List (κ × ν)
  distinct : (entries.map Prod.fst).Nodup

namespace Dict

omit [DecidableEq κ] in
@[ext] theorem ext {left right : Dict κ ν} (h : left.entries = right.entries) :
    left = right := by
  cases left
  cases right
  congr

def empty : Dict κ ν := ⟨[], List.nodup_nil⟩

def keys (dict : Dict κ ν) : List κ := dict.entries.map Prod.fst

def values (dict : Dict κ ν) : List ν := dict.entries.map Prod.snd

def get (dict : Dict κ ν) (key : κ) : Option ν := dict.entries.lookup key

def set (dict : Dict κ ν) (key : κ) (value : ν) : Dict κ ν :=
  ⟨setEntry key value dict.entries, nodup_setEntry key value _ dict.distinct⟩

def filter (dict : Dict κ ν) (keep : κ → ν → Bool) : Dict κ ν :=
  ⟨dict.entries.filter fun entry => keep entry.1 entry.2,
    (List.filter_sublist.map Prod.fst).nodup dict.distinct⟩

/-- The dictionary with every value replaced by its image. -/
def map {μ : Type} (f : ν → μ) (dict : Dict κ ν) : Dict κ μ :=
  ⟨dict.entries.map fun entry => (entry.1, f entry.2), by
    rw [List.map_map]
    exact dict.distinct⟩

def erase (dict : Dict κ ν) (key : κ) : Dict κ ν :=
  dict.filter fun other _ => decide (other ≠ key)

@[simp] theorem get_empty (key : κ) : (empty : Dict κ ν).get key = none := rfl

theorem get_set (dict : Dict κ ν) (key other : κ) (value : ν) :
    (dict.set key value).get other = if other = key then some value else dict.get other :=
  lookup_setEntry key other value dict.entries

@[simp] theorem get_set_same (dict : Dict κ ν) (key : κ) (value : ν) :
    (dict.set key value).get key = some value := by
  simp [get_set]

theorem get_set_other (dict : Dict κ ν) {key other : κ} (value : ν) (different : other ≠ key) :
    (dict.set key value).get other = dict.get other := by
  simp [get_set, different]

theorem get_eq_some_iff (dict : Dict κ ν) (key : κ) (value : ν) :
    dict.get key = some value ↔ (key, value) ∈ dict.entries := by
  obtain ⟨entries, distinct⟩ := dict
  simp only [get]
  induction entries with
  | nil => simp
  | cons entry rest ih =>
    obtain ⟨head, previous⟩ := entry
    simp only [List.map_cons, List.nodup_cons] at distinct
    rw [List.lookup_cons]
    by_cases h : key = head
    · subst head
      have hfresh : (key, value) ∉ rest := fun member =>
        distinct.1 (List.mem_map.mpr ⟨_, member, rfl⟩)
      simp [hfresh, eq_comm]
    · have hne : (key, value) ≠ (head, previous) := fun same => h (congrArg Prod.fst same)
      rw [beq_eq_false_iff_ne.mpr h, List.mem_cons, or_iff_right hne]
      exact ih distinct.2

theorem get_eq_none_iff (dict : Dict κ ν) (key : κ) :
    dict.get key = none ↔ key ∉ dict.keys := by
  simp only [get, keys, List.lookup_eq_none_iff, List.mem_map, not_exists, not_and]
  constructor
  · intro h entry member same
    simpa [same] using h entry member
  · intro h entry member
    exact bne_iff_ne.mpr (Ne.symm (h entry member))

theorem get_filter (dict : Dict κ ν) (keep : κ → ν → Bool) (key : κ) :
    (dict.filter keep).get key = (dict.get key).filter (keep key) := by
  apply Option.ext
  intro value
  rw [get_eq_some_iff]
  simp only [filter, List.mem_filter, Option.filter_eq_some_iff, get_eq_some_iff]

theorem get_erase (dict : Dict κ ν) (key other : κ) :
    (dict.erase key).get other = if other = key then none else dict.get other := by
  rw [erase, get_filter]
  by_cases h : other = key
  · subst other
    cases dict.get key <;> simp
  · cases dict.get other <;> simp [h]

/-- Taking a new entry out again leaves the dictionary as it was. -/
theorem erase_set_of_absent (dict : Dict κ ν) {key : κ} (value : ν)
    (absent : dict.get key = none) : (dict.set key value).erase key = dict := by
  have hkey : key ∉ dict.entries.map Prod.fst := (get_eq_none_iff dict key).mp absent
  apply ext
  simp only [erase, filter, set, setEntry_of_not_mem key value _ hkey, List.filter_append]
  have hkept : dict.entries.filter (fun entry => decide (entry.1 ≠ key)) = dict.entries := by
    refine List.filter_eq_self.mpr fun entry member => ?_
    have : entry.1 ≠ key := fun same => hkey (List.mem_map.mpr ⟨entry, member, same⟩)
    simpa using this
  rw [hkept]
  simp

theorem erase_set (dict : Dict κ ν) (key : κ) (value : ν) :
    (dict.set key value).erase key = dict.erase key := by
  apply ext
  exact dropEntry_setEntry key value dict.entries

theorem mem_values_iff (dict : Dict κ ν) (value : ν) :
    value ∈ dict.values ↔ ∃ key, dict.get key = some value := by
  simp [values, get_eq_some_iff]

def count (dict : Dict κ ν) (property : ν → Bool) : Nat :=
  dict.values.countP property

private theorem countP_setEntry_of_mem (property : ν → Bool) (key : κ) (value old : ν)
    (entries : List (κ × ν)) (found : entries.lookup key = some old) :
    ((setEntry key value entries).map Prod.snd).countP property + (property old).toNat =
      (entries.map Prod.snd).countP property + (property value).toNat := by
  induction entries with
  | nil => simp at found
  | cons entry rest ih =>
    obtain ⟨head, previous⟩ := entry
    unfold setEntry
    by_cases hhead : head = key
    · subst head
      have hold : previous = old := by simpa using found
      subst hold
      cases hv : property value <;> cases ho : property previous <;> simp [hv, ho]
    · rw [lookup_cons_ne _ _ (Ne.symm hhead)] at found
      have := ih found
      simp only [if_neg hhead, List.map_cons, List.countP_cons]
      omega

/-- Replacing one value moves the count by the difference of the two. -/
theorem count_set_of_get (dict : Dict κ ν) (property : ν → Bool) {key : κ} {old : ν}
    (value : ν) (found : dict.get key = some old) :
    (dict.set key value).count property + (property old).toNat =
      dict.count property + (property value).toNat :=
  countP_setEntry_of_mem property key value old dict.entries found

theorem count_set_of_absent (dict : Dict κ ν) (property : ν → Bool) {key : κ}
    (value : ν) (absent : dict.get key = none) :
    (dict.set key value).count property = dict.count property + (property value).toNat := by
  have hkey : key ∉ dict.entries.map Prod.fst := (get_eq_none_iff dict key).mp absent
  simp only [count, values, set, setEntry_of_not_mem key value _ hkey]
  cases h : property value <;> simp [h]

omit [DecidableEq κ] in
theorem count_filter_le (dict : Dict κ ν) (keep : κ → ν → Bool) (property : ν → Bool) :
    (dict.filter keep).count property ≤ dict.count property :=
  (List.filter_sublist.map Prod.snd).countP_le

theorem count_mono (dict : Dict κ ν) (weak strong : ν → Bool)
    (implies : ∀ key value, dict.get key = some value → weak value = true → strong value = true) :
    dict.count weak ≤ dict.count strong := by
  apply List.countP_mono_left
  intro value member holds
  obtain ⟨key, found⟩ := (mem_values_iff dict value).mp member
  exact implies key value found holds

end Dict

end CodeCalc.Lib
