import CodeCalc.Lib.Substring

/-! Regular expressions in the order a backtracking matcher tries them: every
expression lists the places it can end at, the preferred one first. -/
namespace CodeCalc.Lib

inductive Regex (σ : Type) where
  | empty
  | one (accepts : σ → Bool)
  | seq (first second : Regex σ)
  | alt (first second : Regex σ)
  /-- `body*`, or `body*?` when it is not greedy. -/
  | many (greedy : Bool) (body : Regex σ)
  /-- `\b`. -/
  | edge (isWord : σ → Bool)
  /-- `(?=body)`. -/
  | ahead (body : Regex σ)
  /-- `\Z`. -/
  | finish
  | group (index : Nat) (body : Regex σ)

namespace Regex

variable {σ : Type}

/-- A position in the text, and the groups filled on the way to it, the latest first. -/
structure Place (σ : Type) where
  before : Option σ
  rest : List σ
  groups : List (Nat × List σ)

/-- Turns of a repetition; a turn that consumes nothing is not taken. -/
def turns (greedy : Bool) (step : Place σ → List (Place σ)) : Nat → Place σ → List (Place σ)
  | 0, place => [place]
  | fuel + 1, place =>
    let more := ((step place).filter fun next => next.rest.length < place.rest.length).flatMap
      (turns greedy step fuel)
    if greedy then more ++ [place] else place :: more

def ends : Regex σ → Place σ → List (Place σ)
  | empty, place => [place]
  | one accepts, place =>
    match place.rest with
    | [] => []
    | symbol :: rest => if accepts symbol then [⟨some symbol, rest, place.groups⟩] else []
  | seq first second, place => (ends first place).flatMap (ends second)
  | alt first second, place => ends first place ++ ends second place
  | many greedy body, place => turns greedy (ends body) place.rest.length place
  | edge isWord, place =>
    if place.before.any isWord = place.rest.head?.any isWord then [] else [place]
  | ahead body, place => if (ends body place).isEmpty then [] else [place]
  | finish, place => if place.rest.isEmpty then [place] else []
  | group index body, place => (ends body place).map fun next =>
      { next with
        groups := (index, place.rest.take (place.rest.length - next.rest.length)) :: next.groups }

/-- `body?`. -/
def maybe (body : Regex σ) : Regex σ := alt body empty

/-- `body+`. -/
def some_ (body : Regex σ) : Regex σ := seq body (many true body)

def word [DecidableEq σ] : List σ → Regex σ
  | [] => empty
  | symbol :: rest => seq (one fun other => decide (other = symbol)) (word rest)

def concat : List (Regex σ) → Regex σ
  | [] => empty
  | part :: parts => seq part (concat parts)

/-- The first of the alternatives is tried first. -/
def anyOf : List (Regex σ) → Regex σ
  | [] => one fun _ => false
  | [part] => part
  | part :: parts => alt part (anyOf parts)

/-- A match: the places where it begins and ends. -/
structure Match (σ : Type) where
  start : Place σ
  stop : Place σ

def Match.group (found : Match σ) (index : Nat) : Option (List σ) := found.stop.groups.lookup index

def matchAt (regex : Regex σ) (place : Place σ) : Option (Match σ) :=
  (regex.ends place).head?.map fun stop => ⟨place, stop⟩

/-- `re.search` from a place on. -/
def searchFrom (regex : Regex σ) (before : Option σ) : List σ → Option (Match σ)
  | [] => regex.matchAt ⟨before, [], []⟩
  | symbol :: rest =>
    match regex.matchAt ⟨before, symbol :: rest, []⟩ with
    | some found => some found
    | none => searchFrom regex (some symbol) rest

def search (regex : Regex σ) (text : List σ) : Option (Match σ) := regex.searchFrom none text

/-- The matches from a place on, one behind the other. -/
def findFrom (regex : Regex σ) : Nat → Option σ → List σ → List (Match σ)
  | 0, _, _ => []
  | fuel + 1, before, rest =>
    match regex.searchFrom before rest with
    | none => []
    | some found =>
      if found.stop.rest.length < found.start.rest.length then
        found :: findFrom regex fuel found.stop.before found.stop.rest
      else
        match found.stop.rest with
        | [] => [found]
        | symbol :: rest => found :: findFrom regex fuel (some symbol) rest

/-- `re.finditer`. -/
def findAll (regex : Regex σ) (text : List σ) : List (Match σ) :=
  regex.findFrom (text.length + 1) none text

def subFrom (regex : Regex σ) (replacement : List σ) : Nat → Option σ → List σ → List σ
  | 0, _, rest => rest
  | fuel + 1, before, rest =>
    match regex.matchAt ⟨before, rest, []⟩ with
    | some found =>
      if found.stop.rest.length < rest.length then
        replacement ++ subFrom regex replacement fuel found.stop.before found.stop.rest
      else
        match rest with
        | [] => replacement
        | symbol :: rest =>
          replacement ++ symbol :: subFrom regex replacement fuel (some symbol) rest
    | none =>
      match rest with
      | [] => []
      | symbol :: rest => symbol :: subFrom regex replacement fuel (some symbol) rest

def sub (regex : Regex σ) (replacement text : List σ) : List σ :=
  regex.subFrom replacement (text.length + 1) none text

example (regex : Regex σ) (replacement rest : List σ) (before : Option σ) :
    regex.subFrom replacement 0 before rest = rest := by
  rw [subFrom]

section Local

/-- What a match leaves of the text depends on that text only, not on what
stands before it, and a match is not empty. -/
structure Local (regex : Regex σ) (behind : List σ → Option (List σ)) : Prop where
  reads : ∀ before rest, (regex.matchAt ⟨before, rest, []⟩).map (fun found => found.stop.rest) =
    behind rest
  consumes : ∀ rest tail, behind rest = some tail → ∃ part, part ≠ [] ∧ part ++ tail = rest

variable {regex : Regex σ} {behind : List σ → Option (List σ)} {replacement : List σ}

theorem Local.shrinks (loc : Local regex behind) {rest tail : List σ}
    (matched : behind rest = some tail) : tail.length < rest.length := by
  obtain ⟨part, nonempty, rfl⟩ := loc.consumes rest tail matched
  have positive := List.length_pos_of_ne_nil nonempty
  rw [List.length_append]
  omega

theorem Local.behind_nil (loc : Local regex behind) : behind [] = none := by
  by_contra some
  obtain ⟨tail, matched⟩ := Option.ne_none_iff_exists'.mp some
  exact absurd (loc.shrinks matched) (Nat.not_lt_zero _)

theorem Local.subFrom_some (loc : Local regex behind) {rest tail : List σ}
    (matched : behind rest = some tail) (replacement : List σ) (fuel : Nat) (before : Option σ) :
    ∃ next, regex.subFrom replacement (fuel + 1) before rest =
      replacement ++ regex.subFrom replacement fuel next tail := by
  have reads := loc.reads before rest
  rw [matched, Option.map_eq_some_iff] at reads
  obtain ⟨found, matches_, rfl⟩ := reads
  refine ⟨found.stop.before, ?_⟩
  simp only [subFrom, matches_]
  rw [if_pos (loc.shrinks matched)]

theorem Local.subFrom_none (loc : Local regex behind) {symbol : σ} {rest : List σ}
    (unmatched : behind (symbol :: rest) = none) (fuel : Nat) (before : Option σ) :
    regex.subFrom replacement (fuel + 1) before (symbol :: rest) =
      symbol :: regex.subFrom replacement fuel (some symbol) rest := by
  have reads := loc.reads before (symbol :: rest)
  rw [unmatched, Option.map_eq_none_iff] at reads
  simp only [subFrom, reads]

theorem Local.subFrom_nil (loc : Local regex behind) (fuel : Nat) (before : Option σ) :
    regex.subFrom replacement (fuel + 1) before [] = [] := by
  have reads := loc.reads before []
  rw [loc.behind_nil, Option.map_eq_none_iff] at reads
  simp only [subFrom, reads]

theorem Local.subFrom_eq (loc : Local regex behind) {fuel fuel' : Nat} {before before' : Option σ}
    {rest : List σ} (enough : rest.length < fuel) (enough' : rest.length < fuel') :
    regex.subFrom replacement fuel before rest = regex.subFrom replacement fuel' before' rest := by
  induction fuel generalizing fuel' before before' rest with
  | zero => omega
  | succ fuel ih =>
    obtain ⟨fuel', rfl⟩ : ∃ less, fuel' = less + 1 := ⟨fuel' - 1, by omega⟩
    cases matched : behind rest with
    | some tail =>
      have shorter := loc.shrinks matched
      obtain ⟨next, left⟩ := loc.subFrom_some matched replacement fuel before
      obtain ⟨next', right⟩ := loc.subFrom_some matched replacement fuel' before'
      have same : regex.subFrom replacement fuel next tail =
          regex.subFrom replacement fuel' next' tail := ih (by omega) (by omega)
      rw [left, right, same]
    | none =>
      cases rest with
      | nil => rw [loc.subFrom_nil, loc.subFrom_nil]
      | cons symbol rest =>
        rw [List.length_cons] at enough enough'
        have same : regex.subFrom replacement fuel (some symbol) rest =
            regex.subFrom replacement fuel' (some symbol) rest := ih (by omega) (by omega)
        rw [loc.subFrom_none matched, loc.subFrom_none matched, same]

theorem Local.sub_nil (loc : Local regex behind) : regex.sub replacement [] = [] :=
  loc.subFrom_nil _ _

theorem Local.sub_some (loc : Local regex behind) {rest tail : List σ}
    (matched : behind rest = some tail) :
    regex.sub replacement rest = replacement ++ regex.sub replacement tail := by
  have shorter := loc.shrinks matched
  obtain ⟨next, step⟩ := loc.subFrom_some matched replacement rest.length none
  have same : regex.subFrom replacement rest.length next tail = regex.sub replacement tail :=
    loc.subFrom_eq (by omega) (Nat.lt_succ_self _)
  rw [sub, step, same]

theorem Local.sub_none (loc : Local regex behind) {symbol : σ} {rest : List σ}
    (unmatched : behind (symbol :: rest) = none) :
    regex.sub replacement (symbol :: rest) = symbol :: regex.sub replacement rest := by
  have same : regex.subFrom replacement (symbol :: rest).length (some symbol) rest =
      regex.sub replacement rest := loc.subFrom_eq (Nat.lt_succ_self _) (Nat.lt_succ_self _)
  rw [sub, loc.subFrom_none unmatched, same]

/-- What no match begins in stays as it is. -/
theorem Local.sub_append (loc : Local regex behind) {front rest : List σ}
    (plain : ∀ back, back ≠ [] → back <:+ front → behind (back ++ rest) = none) :
    regex.sub replacement (front ++ rest) = front ++ regex.sub replacement rest := by
  induction front with
  | nil => rfl
  | cons symbol front ih =>
    have here := plain (symbol :: front) (List.cons_ne_nil _ _) List.suffix_rfl
    rw [List.cons_append] at here
    rw [List.cons_append, loc.sub_none here, List.cons_append,
      ih fun back nonempty suffix => plain back nonempty (suffix.trans (List.suffix_cons _ _))]

/-- The first place where a match begins is where the text is changed first. -/
theorem Local.sub_cut (loc : Local regex behind) {front rest : List σ}
    (matched : behind rest ≠ none) :
    ∃ cut last tail, front ++ rest = cut ++ last ∧ cut.length ≤ front.length ∧
      behind last = some tail ∧
      regex.sub replacement (front ++ rest) = cut ++ (replacement ++ regex.sub replacement tail) := by
  induction front with
  | nil =>
    obtain ⟨tail, found⟩ := Option.ne_none_iff_exists'.mp matched
    exact ⟨[], rest, tail, rfl, le_rfl, found, loc.sub_some found⟩
  | cons symbol front ih =>
    cases here : behind (symbol :: (front ++ rest)) with
    | some tail => exact ⟨[], _, tail, rfl, Nat.zero_le _, here, loc.sub_some here⟩
    | none =>
      obtain ⟨cut, last, tail, same, short, found, result⟩ := ih
      refine ⟨symbol :: cut, last, tail, ?_, Nat.succ_le_succ short, found, ?_⟩
      · rw [List.cons_append, same, List.cons_append]
      · rw [List.cons_append, loc.sub_none here, result, List.cons_append]

theorem Local.mem_sub (loc : Local regex behind) {symbol : σ} {text : List σ}
    (member : symbol ∈ regex.sub replacement text) : symbol ∈ replacement ∨ symbol ∈ text := by
  induction size : text.length using Nat.strong_induction_on generalizing text with
  | _ size ih =>
    cases here : behind text with
    | some tail =>
      have shorter := loc.shrinks here
      obtain ⟨part, _, rfl⟩ := loc.consumes text tail here
      rw [loc.sub_some here, List.mem_append] at member
      cases member with
      | inl new => exact Or.inl new
      | inr later =>
        exact (ih _ (size ▸ shorter) later rfl).imp_right (List.mem_append_right part)
    | none =>
      cases text with
      | nil =>
        rw [loc.sub_nil] at member
        exact Or.inr member
      | cons first rest =>
        rw [loc.sub_none here] at member
        cases List.mem_cons.mp member with
        | inl same => exact Or.inr (same ▸ List.mem_cons_self)
        | inr later =>
          exact (ih rest.length (by simp [← size]) later rfl).imp_right (List.mem_cons_of_mem _)

/-- A symbol that no match crosses separates what is replaced on its two sides. -/
theorem Local.sub_append_cons (loc : Local regex behind) {separator : σ}
    (bounded : ∀ front rest, behind (front ++ separator :: rest) =
      (behind front).map (· ++ separator :: rest)) (front rest : List σ) :
    regex.sub replacement (front ++ separator :: rest) =
      regex.sub replacement front ++ separator :: regex.sub replacement rest := by
  induction size : front.length using Nat.strong_induction_on generalizing front with
  | _ size ih =>
    cases here : behind front with
    | some tail =>
      have there : behind (front ++ separator :: rest) = some (tail ++ separator :: rest) := by
        rw [bounded, here, Option.map_some]
      rw [loc.sub_some there, loc.sub_some here, ih _ (size ▸ loc.shrinks here) _ rfl,
        List.append_assoc]
    | none =>
      have there : behind (front ++ separator :: rest) = none := by rw [bounded, here, Option.map_none]
      cases front with
      | nil => rw [List.nil_append, loc.sub_none there, loc.sub_nil, List.nil_append]
      | cons symbol front =>
        rw [List.cons_append] at there ⊢
        rw [loc.sub_none there, loc.sub_none here, ih front.length (by simp [← size]) _ rfl,
          List.cons_append]

end Local

section Greedy

def behindLast (accepts close : σ → Bool) : List σ → Option (List σ)
  | [] => none
  | symbol :: rest =>
    match if accepts symbol then behindLast accepts close rest else none with
    | some tail => some tail
    | none => if close symbol then some rest else none

theorem head_ends_greedy (accepts close : σ → Bool) (before : Option σ) (rest : List σ)
    (groups : List (Nat × List σ)) :
    ((ends (seq (many true (one accepts)) (one close)) ⟨before, rest, groups⟩).head?).map
      (fun place => place.rest) = behindLast accepts close rest := by
  induction rest generalizing before with
  | nil => rfl
  | cons symbol rest ih =>
    have stop : ∀ before, ends (one close) ⟨before, symbol :: rest, groups⟩ =
        if close symbol then [⟨some symbol, rest, groups⟩] else [] := fun _ => rfl
    have run : ends (many true (one accepts)) ⟨before, symbol :: rest, groups⟩ =
        (if accepts symbol then ends (many true (one accepts)) ⟨some symbol, rest, groups⟩
          else []) ++ [⟨before, symbol :: rest, groups⟩] := by
      by_cases accepted : accepts symbol <;> simp [ends, turns, accepted]
    rw [ends, run, List.flatMap_append, List.head?_append, behindLast]
    by_cases accepted : accepts symbol
    · have rest_eq := ih (some symbol)
      rw [ends] at rest_eq
      rw [if_pos accepted, if_pos accepted, ← rest_eq]
      cases ((ends (many true (one accepts)) ⟨some symbol, rest, groups⟩).flatMap
          (ends (one close))).head? with
      | some place => rfl
      | none => by_cases closes : close symbol <;> simp [stop, closes]
    · rw [if_neg accepted, if_neg accepted]
      by_cases closes : close symbol <;> simp [stop, closes]

theorem ends_word [DecidableEq σ] (symbols : List σ) (before : Option σ) (rest : List σ)
    (groups : List (Nat × List σ)) :
    ∃ last, ends (word symbols) ⟨before, rest, groups⟩ =
      if symbols <+: rest then [⟨last, rest.drop symbols.length, groups⟩] else [] := by
  induction symbols generalizing before rest with
  | nil => exact ⟨before, by simp [word, ends]⟩
  | cons symbol symbols ih =>
    cases rest with
    | nil => exact ⟨none, by simp [word, ends]⟩
    | cons first rest =>
      obtain ⟨last, same⟩ := ih (some first) rest
      refine ⟨last, ?_⟩
      by_cases equal : first = symbol
      · simp [word, ends, equal, ← same, List.cons_prefix_cons]
      · simp [word, ends, equal, List.cons_prefix_cons, Ne.symm equal]

/-- `opening`, then as many accepted symbols as possible, then one that closes. -/
def enclosed [DecidableEq σ] (opening : List σ) (accepts close : σ → Bool) : Regex σ :=
  seq (word opening) (seq (many true (one accepts)) (one close))

def behindEnclosed [DecidableEq σ] (opening : List σ) (accepts close : σ → Bool)
    (rest : List σ) : Option (List σ) :=
  if opening <+: rest then behindLast accepts close (rest.drop opening.length) else none

theorem exists_of_behindLast {accepts close : σ → Bool} {rest tail : List σ}
    (found : behindLast accepts close rest = some tail) :
    ∃ inside last, close last = true ∧ rest = inside ++ last :: tail := by
  induction rest with
  | nil => cases found
  | cons symbol rest ih =>
    rw [behindLast] at found
    split at found
    next deeper =>
      cases found
      split at deeper
      · obtain ⟨inside, last, closes, same⟩ := ih deeper
        exact ⟨symbol :: inside, last, closes, by rw [same, List.cons_append]⟩
      · cases deeper
    next =>
      split at found
      next closes =>
        cases found
        exact ⟨[], symbol, closes, rfl⟩
      next => cases found

/-- What is accepted up to a close at the very end is taken whole. -/
theorem behindLast_concat {accepts close : σ → Bool} {inside : List σ} {last : σ}
    (accepted : ∀ symbol ∈ inside, accepts symbol = true) (closes : close last = true) :
    behindLast accepts close (inside ++ [last]) = some [] := by
  induction inside with
  | nil => cases h : accepts last <;> simp [behindLast, closes]
  | cons symbol inside ih =>
    rw [List.forall_mem_cons] at accepted
    rw [List.cons_append, behindLast, if_pos accepted.1, ih accepted.2]

theorem behindLast_append_cons {accepts close : σ → Bool} {separator : σ}
    (rejected : accepts separator = false) (open_ : close separator = false)
    (front rest : List σ) :
    behindLast accepts close (front ++ separator :: rest) =
      (behindLast accepts close front).map (· ++ separator :: rest) := by
  induction front with
  | nil => simp [behindLast, rejected, open_]
  | cons symbol front ih =>
    rw [List.cons_append, behindLast, behindLast, ih]
    by_cases accepted : accepts symbol
    · rw [if_pos accepted, if_pos accepted]
      cases behindLast accepts close front with
      | some tail => rfl
      | none => by_cases closes : close symbol <;> simp [closes]
    · rw [if_neg accepted, if_neg accepted]
      by_cases closes : close symbol <;> simp [closes]

theorem behindEnclosed_append_cons [DecidableEq σ] {opening : List σ} {accepts close : σ → Bool}
    {separator : σ} (apart : separator ∉ opening) (rejected : accepts separator = false)
    (open_ : close separator = false) (front rest : List σ) :
    behindEnclosed opening accepts close (front ++ separator :: rest) =
      (behindEnclosed opening accepts close front).map (· ++ separator :: rest) := by
  unfold behindEnclosed
  by_cases begins : opening <+: front
  · rw [if_pos begins, if_pos (begins.trans (List.prefix_append _ _)),
      List.drop_append_of_le_length begins.length_le,
      behindLast_append_cons rejected open_]
  · rw [if_neg begins, if_neg fun longer => begins ((prefix_append_cons apart).mp longer),
      Option.map_none]

theorem local_enclosed [DecidableEq σ] (opening : List σ) (accepts close : σ → Bool) :
    Local (enclosed opening accepts close) (behindEnclosed opening accepts close) where
  reads before rest := by
    obtain ⟨last, word_ends⟩ := ends_word opening before rest []
    rw [matchAt, enclosed, ends, word_ends, behindEnclosed, Option.map_map]
    split
    · rw [List.flatMap_singleton]
      exact head_ends_greedy accepts close last _ []
    · rfl
  consumes rest tail found := by
    rw [behindEnclosed] at found
    split at found
    next begins =>
      obtain ⟨inside, last, _, same⟩ := exists_of_behindLast found
      obtain ⟨behind, rfl⟩ := begins
      rw [List.drop_left] at same
      exact ⟨opening ++ (inside ++ [last]), by simp, by simp [same]⟩
    next => cases found

end Greedy

end Regex
end CodeCalc.Lib
