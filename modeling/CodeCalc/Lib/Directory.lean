import CodeCalc.Lib.Dict
import Mathlib.Data.List.Infix

/-! A tree of files as a table of paths.  What is put in makes the directories
above it; a file stands in the way of whatever would lie under it.  A sequence
of files and directories goes in just when some tree has room for all of it. -/
namespace CodeCalc.Lib

variable {α β : Type} [DecidableEq α]

/-- The files of a tree with their contents, and its directories (`none`). -/
abbrev Directory (α β : Type) [DecidableEq α] : Type := Dict (List α) (Option β)

/-- What is in the way of a path. -/
inductive Clash (α : Type) where
  | above (ancestor : List α)
  | same (isDir : Bool)

namespace Directory

/-- The proper ancestors of a path below the root, the outermost first. -/
def ancestors (path : List α) : List (List α) :=
  ((List.range path.length).drop 1).map fun count => path.take count

def makeAll (tree : Directory α β) : List (List α) → Except (Clash α) (Directory α β)
  | [] => .ok tree
  | path :: rest =>
      match tree.get path with
      | some (some _) => .error (.above path)
      | _ => makeAll (tree.set path none) rest

def add (tree : Directory α β) (path : List α) (node : Option β) :
    Except (Clash α) (Directory α β) :=
  match makeAll tree (ancestors path) with
  | .error clash => .error clash
  | .ok tree =>
      match tree.get path, node with
      | none, _ => .ok (tree.set path node)
      | some none, none => .ok tree
      | some existing, _ => .error (.same existing.isNone)

structure Holds (files : List (List α × β)) (tree : Directory α β) : Prop where
  file : ∀ path value, tree.get path = some (some value) → (path, value) ∈ files
  dir : ∀ path, tree.get path = some none → ∃ file ∈ files, path <+: file.1 ∧ path ≠ file.1
  present : ∀ file ∈ files, tree.get file.1 = some (some file.2)

omit [DecidableEq α] in
theorem mem_ancestors {path ancestor : List α} (member : ancestor ∈ ancestors path) :
    ancestor <+: path ∧ ancestor ≠ path := by
  obtain ⟨count, inside, rfl⟩ := List.mem_map.mp member
  have short : count < path.length := List.mem_range.mp (List.mem_of_mem_drop inside)
  refine ⟨List.take_prefix _ _, ?_⟩
  intro same
  have := congrArg List.length same
  rw [List.length_take] at this
  omega

omit [DecidableEq α] in
theorem mem_ancestors_iff {path ancestor : List α} :
    ancestor ∈ ancestors path ↔ ancestor <+: path ∧ ancestor ≠ path ∧ ancestor ≠ [] := by
  constructor
  · intro member
    obtain ⟨begins, proper⟩ := mem_ancestors member
    refine ⟨begins, proper, ?_⟩
    rintro rfl
    obtain ⟨count, inside, empty⟩ := List.mem_map.mp member
    obtain ⟨place, short, rfl⟩ := List.mem_iff_getElem.mp inside
    rw [List.getElem_drop, List.getElem_range, List.take_eq_nil_iff] at empty
    rcases empty with zero | rfl
    · omega
    · exact proper rfl
  · rintro ⟨⟨rest, rfl⟩, proper, nonempty⟩
    refine List.mem_map.mpr ⟨ancestor.length, ?_, List.take_left' rfl⟩
    have long := List.length_pos_iff.mpr nonempty
    have more : rest ≠ [] := by
      rintro rfl
      exact proper (List.append_nil _).symm
    have more := List.length_pos_iff.mpr more
    rw [List.mem_iff_getElem]
    refine ⟨ancestor.length - 1, ?_, ?_⟩
    · rw [List.length_drop, List.length_range, List.length_append]
      omega
    · rw [List.getElem_drop, List.getElem_range]
      omega

/-- No file stands at this path. -/
def Free (tree : Directory α β) (path : List α) : Prop := ∀ value, tree.get path ≠ some (some value)

theorem get_makeAll {tree made : Directory α β} {paths : List (List α)} (done : makeAll tree paths = .ok made) :
    (∀ path ∈ paths, Free tree path) ∧
      ∀ other, made.get other = if other ∈ paths then some none else tree.get other := by
  induction paths generalizing tree with
  | nil =>
    cases done
    exact ⟨(fun _ member => nomatch member), fun _ => (if_neg List.not_mem_nil).symm⟩
  | cons path rest ih =>
    rw [makeAll] at done
    split at done
    · cases done
    · rename_i free
      have free : Free tree path := fun value found => free value found
      obtain ⟨later, same⟩ := ih done
      constructor
      · intro other member value found
        rcases List.mem_cons.mp member with rfl | member
        · exact free value found
        · apply later other member value
          rw [Dict.get_set, found]
          apply if_neg
          rintro rfl
          exact free value found
      · intro other
        rw [same, Dict.get_set]
        by_cases here : other = path
        · simp [here]
        · simp [here]

theorem makeAll_free {tree : Directory α β} {paths : List (List α)} (free : ∀ path ∈ paths, Free tree path) :
    ∃ made, makeAll tree paths = .ok made := by
  induction paths generalizing tree with
  | nil => exact ⟨tree, rfl⟩
  | cons path rest ih =>
    rw [makeAll]
    split
    · rename_i value found
      exact absurd found (free path List.mem_cons_self value)
    · apply ih
      intro other member value found
      rw [Dict.get_set] at found
      split at found
      · cases found
      · exact free other (List.mem_cons_of_mem _ member) value found

/-- What there may be at a path before something is put there. -/
def Fits (tree : Directory α β) (path : List α) (node : Option β) : Prop :=
  tree.get path = none ∨ tree.get path = some none ∧ node = none

theorem get_add {tree added : Directory α β} {path : List α} {node : Option β}
    (done : add tree path node = .ok added) :
    ((∀ ancestor ∈ ancestors path, Free tree ancestor) ∧ Fits tree path node) ∧
      ∀ other, added.get other = if other = path then some node
        else if other ∈ ancestors path then some none else tree.get other := by
  have outside : path ∉ ancestors path := fun member => (mem_ancestors member).2 rfl
  unfold add at done
  split at done
  · cases done
  · rename_i made making
    obtain ⟨free, same⟩ := get_makeAll making
    have here := same path
    rw [if_neg outside] at here
    split at done
    · rename_i vacant
      cases done
      refine ⟨⟨free, .inl (here.symm.trans vacant)⟩, fun other => ?_⟩
      rw [Dict.get_set, same]
    · rename_i present
      cases done
      refine ⟨⟨free, .inr ⟨here.symm.trans present, rfl⟩⟩, fun other => ?_⟩
      split
      · rename_i equal
        rw [equal, present]
      · exact same other
    · cases done

theorem add_fits {tree : Directory α β} {path : List α} {node : Option β}
    (free : ∀ ancestor ∈ ancestors path, Free tree ancestor) (fits : Fits tree path node) :
    ∃ added, add tree path node = .ok added := by
  obtain ⟨made, making⟩ := makeAll_free free
  have here := (get_makeAll making).2 path
  rw [if_neg fun member => (mem_ancestors member).2 rfl] at here
  rcases fits with vacant | ⟨present, rfl⟩
  · exact ⟨made.set path node, by simp only [add, making, here, vacant]⟩
  · exact ⟨made, by simp only [add, making, here, present]⟩

def addAll (tree : Directory α β) : List (List α × Option β) → Except (Clash α) (Directory α β)
  | [] => .ok tree
  | item :: rest =>
      match add tree item.1 item.2 with
      | .error clash => .error clash
      | .ok tree => addAll tree rest

/-- One tree has room for both: a file neither in the same place as the other,
nor above it. -/
def Clear (left right : List α × Option β) : Prop :=
  (left.2.isSome → ¬left.1 <+: right.1) ∧ (right.2.isSome → ¬right.1 <+: left.1)

/-- The tree consists of these items and the directories above them. -/
structure Grown (items : List (List α × Option β)) (tree : Directory α β) : Prop where
  file : ∀ path value, tree.get path = some (some value) ↔ (path, some value) ∈ items
  dir : ∀ path, tree.get path = some none ↔
    path ≠ [] ∧ ∃ item ∈ items, path <+: item.1 ∧ (path = item.1 → item.2 = none)

theorem grown_empty : Grown [] (Dict.empty : Directory α β) where
  file _ _ := ⟨(fun found => nomatch found), fun member => nomatch member⟩
  dir _ := ⟨(fun found => nomatch found), fun ⟨_, _, member, _⟩ => nomatch member⟩

variable {items : List (List α × Option β)} {tree added : Directory α β} {path : List α} {node : Option β}

theorem Grown.clear (grown : Grown items tree) (nonempty : path ≠ []) (named : ∀ item ∈ items, item.1 ≠ [])
    (done : Directory.add tree path node = .ok added) : ∀ item ∈ items, Clear item (path, node) := by
  obtain ⟨⟨free, fits⟩, _⟩ := get_add done
  rintro ⟨other, kind⟩ member
  constructor
  · intro file above
    obtain ⟨value, rfl⟩ := Option.isSome_iff_exists.mp file
    have present := (grown.file other value).mpr member
    by_cases same : other = path
    · subst same
      rcases fits with vacant | ⟨directory, _⟩
      · rw [vacant] at present
        cases present
      · rw [directory] at present
        cases present
    · exact free other (mem_ancestors_iff.mpr ⟨above, same, named _ member⟩) value present
  · intro file above
    rcases fits with vacant | ⟨_, rfl⟩
    · by_cases same : path = other ∧ kind ≠ none
      · obtain ⟨value, rfl⟩ := Option.ne_none_iff_exists'.mp same.2
        rw [same.1, (grown.file other value).mpr member] at vacant
        cases vacant
      · have present := (grown.dir path).mpr ⟨nonempty, (other, kind), member, above, fun equal =>
          not_not.mp fun file => same ⟨equal, file⟩⟩
        rw [vacant] at present
        cases present
    · cases file

theorem Grown.add (grown : Grown items tree) (nonempty : path ≠ [])
    (clear : ∀ item ∈ items, Clear item (path, node)) :
    ∃ added, Directory.add tree path node = .ok added ∧ Grown (items ++ [(path, node)]) added := by
  have free : ∀ ancestor ∈ ancestors path, Free tree ancestor := by
    intro ancestor member value found
    exact (clear _ ((grown.file ancestor value).mp found)).1 rfl (mem_ancestors member).1
  have fits : Fits tree path node := by
    cases found : tree.get path with
    | none => exact .inl found
    | some existing =>
      cases existing with
      | some value => exact absurd List.prefix_rfl ((clear _ ((grown.file path value).mp found)).1 rfl)
      | none =>
        obtain ⟨_, item, member, above, _⟩ := (grown.dir path).mp found
        cases node with
        | none => exact .inr ⟨found, rfl⟩
        | some value => exact absurd above ((clear item member).2 rfl)
  obtain ⟨added, done⟩ := add_fits free fits
  refine ⟨added, done, fun other value => ?_, fun other => ?_⟩
  · rw [(get_add done).2, List.mem_append, List.mem_singleton]
    split_ifs with here above
    · subst here
      constructor
      · intro same
        cases same
        exact .inr rfl
      · rintro (member | same)
        · exact absurd List.prefix_rfl ((clear _ member).1 rfl)
        · cases same
          rfl
    · constructor
      · intro none
        cases none
      · rintro (member | same)
        · exact absurd (mem_ancestors above).1 ((clear _ member).1 rfl)
        · cases same
          exact absurd rfl here
    · rw [grown.file]
      constructor
      · exact .inl
      · rintro (member | same)
        · exact member
        · cases same
          exact absurd rfl here
  · rw [(get_add done).2]
    simp only [List.mem_append, List.mem_singleton]
    split_ifs with here above
    · subst here
      constructor
      · intro same
        cases same
        exact ⟨nonempty, _, .inr rfl, List.prefix_rfl, fun _ => rfl⟩
      · rintro ⟨_, item, member | rfl, above, kind⟩
        · cases node with
          | none => rfl
          | some value => exact absurd above ((clear item member).2 rfl)
        · exact congrArg some (kind rfl)
    · obtain ⟨begins, proper, nonempty⟩ := mem_ancestors_iff.mp above
      exact ⟨fun _ => ⟨nonempty, _, .inr rfl, begins, fun same => absurd same proper⟩, fun _ => rfl⟩
    · rw [grown.dir]
      constructor
      · rintro ⟨nonempty, item, member, rest⟩
        exact ⟨nonempty, item, .inl member, rest⟩
      · rintro ⟨nonempty, item, member | rfl, begins, kind⟩
        · exact ⟨nonempty, item, member, begins, kind⟩
        · exact absurd (mem_ancestors_iff.mpr ⟨begins, here, nonempty⟩) above

theorem Grown.addAll {more : List (List α × Option β)} (grown : Grown items tree)
    (clear : (items ++ more).Pairwise Clear) (named : ∀ item ∈ more, item.1 ≠ []) :
    ∃ added, Directory.addAll tree more = .ok added ∧ Grown (items ++ more) added := by
  induction more generalizing items tree with
  | nil => exact ⟨tree, rfl, by rwa [List.append_nil]⟩
  | cons item more ih =>
    have fine : ∀ other ∈ items, Clear other item := fun other member =>
      (List.pairwise_append.mp clear).2.2 other member item List.mem_cons_self
    obtain ⟨next, done, grown⟩ := grown.add (named item List.mem_cons_self) fine
    rw [← List.singleton_append, ← List.append_assoc] at clear ⊢
    obtain ⟨added, all, grown⟩ := ih grown clear fun item member =>
      named item (List.mem_cons_of_mem _ member)
    refine ⟨added, ?_, grown⟩
    rw [List.singleton_append, Directory.addAll, done]
    exact all

theorem Grown.pairwise {more : List (List α × Option β)} (grown : Grown items tree)
    (clear : items.Pairwise Clear) (named : ∀ item ∈ items ++ more, item.1 ≠ [])
    (done : Directory.addAll tree more = .ok added) : (items ++ more).Pairwise Clear := by
  induction more generalizing items tree with
  | nil => rwa [List.append_nil]
  | cons item more ih =>
    rw [Directory.addAll] at done
    split at done
    · cases done
    · rename_i next added
      have nonempty := named item (List.mem_append_right _ List.mem_cons_self)
      have fine := grown.clear nonempty (fun item member => named item (List.mem_append_left _ member)) added
      obtain ⟨_, added', grown⟩ := grown.add nonempty fine
      rw [added] at added'
      cases added'
      rw [← List.singleton_append, ← List.append_assoc] at named ⊢
      apply ih grown (List.pairwise_append.mpr ⟨clear, List.pairwise_singleton _ _, ?_⟩) named done
      intro other member last here
      rw [List.mem_singleton.mp here]
      exact fine other member

/-- Items go into a tree one after the other just when there is room for any
two of them. -/
theorem addAll_iff (named : ∀ item ∈ items, item.1 ≠ []) :
    (∃ added, addAll (Dict.empty : Directory α β) items = .ok added) ↔ items.Pairwise Clear := by
  constructor
  · rintro ⟨added, done⟩
    exact grown_empty.pairwise .nil named done
  · intro clear
    obtain ⟨added, done, _⟩ := grown_empty.addAll clear named
    exact ⟨added, done⟩

/-- A tree as it is, by what each path is: only a directory has something
under it. -/
structure Layout (α : Type) where
  isDir : List α → Option Bool
  root : isDir [] = some true
  closed : ∀ path name, isDir (path ++ [name]) ≠ none → isDir path = some true

omit [DecidableEq α] in
theorem Layout.above (layout : Layout α) {path rest : List α} (nonempty : rest ≠ [])
    (present : layout.isDir (path ++ rest) ≠ none) : layout.isDir path = some true := by
  induction rest using List.reverseRecOn with
  | nil => exact absurd rfl nonempty
  | append_singleton rest name ih =>
    rw [← List.append_assoc] at present
    have directory := layout.closed _ name present
    by_cases last : rest = []
    · rwa [last, List.append_nil] at directory
    · apply ih last
      rw [directory]
      exact Option.some_ne_none _

/-- What a path is in a tree: the root is a directory of its own. -/
def kind (tree : Directory α β) (path : List α) : Option Bool :=
  if path = [] then some true else (tree.get path).map Option.isNone

theorem kind_root (tree : Directory α β) : kind tree [] = some true := if_pos rfl

theorem Grown.kind_closed (grown : Grown items tree) (path : List α) (name : α)
    (present : kind tree (path ++ [name]) ≠ none) : kind tree path = some true := by
  rw [kind, if_neg (List.append_ne_nil_of_right_ne_nil _ (List.cons_ne_nil _ _))] at present
  have some : tree.get (path ++ [name]) ≠ none := by
    intro vacant
    rw [vacant] at present
    exact present rfl
  obtain ⟨node, found⟩ := Option.ne_none_iff_exists'.mp some
  rw [kind]
  split_ifs with top
  · rfl
  · have under : ∃ item ∈ items, path ++ [name] <+: item.1 := by
      cases node with
      | some value => exact ⟨_, (grown.file _ value).mp found, List.prefix_rfl⟩
      | none =>
        obtain ⟨_, item, member, begins, _⟩ := (grown.dir _).mp found
        exact ⟨item, member, begins⟩
    obtain ⟨item, member, begins⟩ := under
    rw [(grown.dir path).mpr ⟨top, item, member, (List.prefix_append _ _).trans begins, fun same => ?_⟩]
    · rfl
    · have short := begins.length_le
      rw [← same, List.length_append, List.length_singleton] at short
      omega

def Grown.layout (grown : Grown items tree) : Layout α where
  isDir := kind tree
  root := kind_root tree
  closed := grown.kind_closed

/-- The items are entries of one tree, and no two files of one name. -/
def Held (layout : Layout α) (items : List (List α × Option β)) : Prop :=
  (∀ item ∈ items, layout.isDir item.1 = some item.2.isNone) ∧
    items.Pairwise fun left right => left.1 = right.1 → left.2 = none ∧ right.2 = none

omit [DecidableEq α] in
theorem Held.file_above {layout : Layout α} (held : Held layout items) {above item : List α × Option β}
    (first : above ∈ items) (second : item ∈ items) (file : above.2.isSome) (begins : above.1 <+: item.1) :
    above.1 = item.1 := by
  by_contra other
  obtain ⟨rest, same⟩ := begins
  have more : rest ≠ [] := by
    rintro rfl
    exact other (by rw [← same, List.append_nil])
  have directory := @Layout.above _ layout above.1 _ more (by
    rw [same, held.1 item second]
    exact Option.some_ne_none _)
  rw [held.1 above first, Option.some.injEq, Option.isNone_iff_eq_none] at directory
  rw [directory] at file
  cases file

theorem pairwise_clear_iff (named : ∀ item ∈ items, item.1 ≠ []) :
    items.Pairwise Clear ↔ ∃ layout : Layout α, Held layout items := by
  constructor
  · intro clear
    obtain ⟨tree, _, grown⟩ := grown_empty.addAll clear named
    refine ⟨grown.layout, fun item member => ?_, clear.imp ?_⟩
    · have present : tree.get item.1 = some item.2 := by
        obtain ⟨path, node⟩ := item
        cases node with
        | some value => exact (grown.file path value).mpr member
        | none => exact (grown.dir path).mpr ⟨named _ member, _, member, List.prefix_rfl, fun _ => rfl⟩
      exact (if_neg (named item member)).trans (congrArg (Option.map Option.isNone) present)
    · rintro left right ⟨leftFile, rightFile⟩ same
      rw [same] at leftFile rightFile
      constructor
      · exact Option.not_isSome_iff_eq_none.mp fun file => leftFile file List.prefix_rfl
      · exact Option.not_isSome_iff_eq_none.mp fun file => rightFile file List.prefix_rfl
  · rintro ⟨layout, held⟩
    apply held.2.imp_of_mem
    intro left right first second apart
    constructor
    · intro file begins
      rw [(apart (held.file_above first second file begins)).1] at file
      cases file
    · intro file begins
      rw [(apart (held.file_above second first file begins).symm).2] at file
      cases file

end Directory

end CodeCalc.Lib
