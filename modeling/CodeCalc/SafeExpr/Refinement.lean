import CodeCalc.Lib.CoprimeBase
import CodeCalc.SafeExpr.Magnitude

/-! `_coprime_refine_multiset`, and the rule of `reject_explosive` for a symbolic
base under a numeric exponent. -/
namespace CodeCalc.SafeExpr
open Lib

section Keys

namespace Terms

def keys (terms : Terms) : List ℕ := terms.map Prod.fst

/-- What the termination argument of the source counts. -/
def weight (terms : Terms) : ℕ :=
  (terms.map fun entry => ArithmeticFunction.cardFactors entry.1).sum

variable {terms sub : Terms} {base key : ℕ} {exp : ℤ}

@[simp] theorem keys_cons (entry : ℕ × ℤ) (terms : Terms) :
    keys (entry :: terms) = entry.1 :: keys terms := rfl

@[simp] theorem weight_cons (entry : ℕ × ℤ) (terms : Terms) :
    weight (entry :: terms) = ArithmeticFunction.cardFactors entry.1 + weight terms := by
  simp [weight]

theorem mem_keys {entry : ℕ × ℤ} (member : entry ∈ terms) : entry.1 ∈ terms.keys :=
  List.mem_map_of_mem member

theorem keys_perm {left right : Terms} (perm : left.Perm right) : left.keys.Perm right.keys :=
  perm.map _

theorem weight_perm {left right : Terms} (perm : left.Perm right) : left.weight = right.weight :=
  (perm.map _).sum_eq

/-- What an entry of the changed dict is: an old one, or the one under the key. -/
theorem mem_bump {entry : ℕ × ℤ} (member : entry ∈ terms.bump base exp) :
    entry ∈ terms ∨ entry.1 = base := by
  induction terms with
  | nil =>
    unfold bump at member
    split at member <;> simp_all
  | cons head rest ih =>
    unfold bump at member
    split at member
    case isTrue same =>
      split at member
      · exact .inl (List.mem_cons_of_mem _ member)
      · rcases List.mem_cons.mp member with rfl | member
        · exact .inr same
        · exact .inl (List.mem_cons_of_mem _ member)
    case isFalse =>
      rcases List.mem_cons.mp member with rfl | member
      · exact .inl List.mem_cons_self
      · exact (ih member).imp_left (List.mem_cons_of_mem _)

theorem mem_keys_bump (member : key ∈ (terms.bump base exp).keys) :
    key ∈ terms.keys ∨ key = base := by
  obtain ⟨entry, found, rfl⟩ := List.mem_map.mp member
  exact (mem_bump found).imp_left mem_keys

theorem distinct_bump (distinct : terms.keys.Nodup) : (terms.bump base exp).keys.Nodup := by
  induction terms with
  | nil =>
    unfold bump
    split <;> simp [keys]
  | cons head rest ih =>
    rw [keys_cons, List.nodup_cons] at distinct
    unfold bump
    split
    · split
      · exact distinct.2
      · exact List.nodup_cons.mpr distinct
    case isFalse other =>
      rw [keys_cons, List.nodup_cons]
      refine ⟨fun member => ?_, ih distinct.2⟩
      rcases mem_keys_bump member with member | same
      · exact distinct.1 member
      · exact other same

/-- A dict that holds no zero exponent is left without one. -/
theorem nonzero_bump (nonzero : ∀ entry ∈ terms, entry.2 ≠ 0) :
    ∀ entry ∈ terms.bump base exp, entry.2 ≠ 0 := by
  induction terms with
  | nil =>
    unfold bump
    split <;> simp_all
  | cons head rest ih =>
    have tail := fun other member => nonzero other (List.mem_cons_of_mem head member)
    unfold bump
    split
    · split
      · exact tail
      case isFalse changed => simpa [changed] using tail
    · intro entry member
      rcases List.mem_cons.mp member with same | member
      · exact same ▸ nonzero head List.mem_cons_self
      · exact ih tail entry member

theorem weight_bump_le : (terms.bump base exp).weight ≤
    terms.weight + ArithmeticFunction.cardFactors base := by
  induction terms with
  | nil =>
    unfold bump
    split <;> simp [weight]
  | cons head rest ih =>
    unfold bump
    split
    · split
      · simp only [weight_cons]
        omega
      · simp
    · simp only [weight_cons]
      omega

theorem distinct_merge (distinct : terms.keys.Nodup) : (terms.merge sub).keys.Nodup := by
  unfold merge
  induction sub generalizing terms with
  | nil => exact distinct
  | cons entry rest ih => exact ih (distinct_bump distinct)

theorem keys_scale : (terms.scale exp).keys = terms.keys := by
  simp [keys, scale, Function.comp_def]

end Terms

theorem mergeFactors_distinct {subs : List (Option (Terms × ℤ))} {terms result : Terms}
    {sign resultSign : ℤ} (distinct : terms.keys.Nodup)
    (h : mergeFactors terms sign subs = some (result, resultSign)) : result.keys.Nodup := by
  induction subs generalizing terms sign with
  | nil =>
    simp only [mergeFactors, Option.some.injEq, Prod.mk.injEq] at h
    exact h.1 ▸ distinct
  | cons sub subs ih =>
    cases sub with
    | none => cases h
    | some found =>
      rw [mergeFactors] at h
      split at h
      · simp only [Option.some.injEq, Prod.mk.injEq] at h
        exact h.1 ▸ List.nodup_nil
      · exact ih (Terms.distinct_merge distinct) h

theorem powFactors_distinct {base : Option (Terms × ℤ)} {exp : ℤ} {terms : Terms} {sign : ℤ}
    (inner : ∀ sub subSign, base = some (sub, subSign) → sub.keys.Nodup)
    (h : powFactors base exp = some (terms, sign)) : terms.keys.Nodup := by
  unfold powFactors at h
  split at h
  · simp only [Option.some.injEq, Prod.mk.injEq] at h
    exact h.1 ▸ List.nodup_nil
  · split at h
    · cases h
    case h_2 sub subSign =>
      split at h
      · split at h
        · simp only [Option.some.injEq, Prod.mk.injEq] at h
          exact h.1 ▸ List.nodup_nil
        · cases h
      · simp only [Option.some.injEq, Prod.mk.injEq] at h
        rw [← h.1, Terms.keys_scale]
        exact inner sub subSign rfl

/-- The multiset of a node is a dict: each base is in it once. -/
theorem factorMultiset_distinct (node : Node) : ∀ {terms : Terms} {sign : ℤ},
    factorMultiset node = some (terms, sign) → terms.keys.Nodup := by
  induction node using Node.induct with
  | integer n =>
    intro terms sign h
    simp only [factorMultiset, Option.some.injEq] at h
    split at h
    · simp only [Prod.mk.injEq] at h
      exact h.1 ▸ List.nodup_nil
    · simp only [Prod.mk.injEq] at h
      rw [← h.1]
      split <;> simp [Terms.keys]
  | rational q => simp [factorMultiset]
  | add args _ => simp [factorMultiset]
  | mul args _ =>
    intro terms sign h
    exact mergeFactors_distinct (by simp [Terms.keys]) h
  | power base exp ih =>
    intro terms sign h
    exact powFactors_distinct (fun sub subSign found => ih found) h
  | compound base exp compound _ _ =>
    intro terms sign h
    rw [factorMultiset_compound compound] at h
    cases h

end Keys

section Refining

/-- The variables of the worklist loop; the key that `work.pop()` takes comes
first. -/
structure Refining where
  refined : Terms
  work : List ℕ

namespace Refining

/-- One turn of the inner `for`: a new key is queued, a key at net zero goes. -/
def insert (state : Refining) (base : ℕ) (exp : ℤ) : Refining :=
  if base = 1 then state
  else ⟨state.refined.bump base exp,
    if base ∈ state.refined.keys then state.work else base :: state.work⟩

/-- `a ** ea * b ** eb` with the common factor taken out, once both have been
popped. -/
def merge (state : Refining) (a : ℕ) (ea : ℤ) (b : ℕ) (eb : ℤ) : Refining :=
  let g := Nat.gcd a b
  let left := strip g a
  let right := strip g b
  ((state.insert g (ea * left.2 + eb * right.2)).insert left.1 ea).insert right.1 eb

/-- One turn of `while work`. -/
def next (state : Refining) : Option Refining :=
  match state.work with
  | [] => none
  | key :: work =>
    match state.refined.find? fun entry => entry.1 = key with
    | none => some ⟨state.refined, work⟩
    | some (a, ea) =>
      match state.refined.find? fun entry => entry.1 ≠ a ∧ 1 < Nat.gcd a entry.1 with
      | none => some ⟨state.refined, work⟩
      | some (b, eb) =>
        some (merge ⟨(state.refined.erase (a, ea)).erase (b, eb), work⟩ a ea b eb)

/-- A key that is in the dict and no longer queued. -/
def Settled (state : Refining) (key : ℕ) : Prop := key ∈ state.refined.keys ∧ key ∉ state.work

/-- The loop invariant: settled keys share no factor. -/
structure Valid (state : Refining) : Prop where
  distinct : state.refined.keys.Nodup
  large : ∀ entry ∈ state.refined, 1 < entry.1
  nonzero : ∀ entry ∈ state.refined, entry.2 ≠ 0
  coprime : ∀ left right, state.Settled left → state.Settled right → left ≠ right →
    left.Coprime right

variable {state : Refining} {base key : ℕ} {exp : ℤ}

/-- What one turn of the loop can do. -/
theorem next_cases {after : Refining} (h : state.next = some after) :
    ∃ key work, state.work = key :: work ∧
      ((after = ⟨state.refined, work⟩ ∧ (key ∈ state.refined.keys →
          ∀ other ∈ state.refined.keys, other ≠ key → key.gcd other ≤ 1)) ∨
        ∃ ea b eb rest, state.refined.Perm ((key, ea) :: (b, eb) :: rest) ∧ 1 < key.gcd b ∧
          after = merge ⟨rest, work⟩ key ea b eb) := by
  obtain ⟨refined, work⟩ := state
  cases work with
  | nil => cases h
  | cons key work =>
    refine ⟨key, work, rfl, ?_⟩
    simp only [next] at h
    cases hkey : refined.find? fun entry => entry.1 = key with
    | none =>
      rw [hkey] at h
      have gone : ∀ entry ∈ refined, entry.1 ≠ key := by simpa using hkey
      refine .inl ⟨by simpa using h.symm, fun inside => ?_⟩
      obtain ⟨found, hfound, same⟩ := List.mem_map.mp inside
      exact absurd same (gone found hfound)
    | some entry =>
      obtain ⟨a, ea⟩ := entry
      have here : (a, ea) ∈ refined := List.mem_of_find?_eq_some hkey
      have same : a = key := by simpa using List.find?_some hkey
      subst same
      simp only [hkey] at h
      cases hother : refined.find? fun entry => entry.1 ≠ a ∧ 1 < Nat.gcd a entry.1 with
      | none =>
        rw [hother] at h
        have apart : ∀ entry ∈ refined, entry.1 ≠ a → a.gcd entry.1 ≤ 1 := by
          simpa using hother
        refine .inl ⟨by simpa using h.symm, fun _ other member distinct => ?_⟩
        obtain ⟨found, hfound, rfl⟩ := List.mem_map.mp member
        exact apart found hfound distinct
      | some entry =>
        obtain ⟨b, eb⟩ := entry
        have there : (b, eb) ∈ refined := List.mem_of_find?_eq_some hother
        have shared : b ≠ a ∧ 1 < a.gcd b := by simpa using List.find?_some hother
        simp only [hother, Option.some.injEq] at h
        have left : (b, eb) ∈ refined.erase (a, ea) :=
          (List.mem_erase_of_ne fun same => shared.1 (congrArg Prod.fst same)).mpr there
        refine .inr ⟨ea, b, eb, _, ?_, shared.2, h.symm⟩
        exact (List.perm_cons_erase here).trans ((List.perm_cons_erase left).cons _)

theorem insert_value (positive : 0 < base) :
    (state.insert base exp).refined.value = state.refined.value * (base : ℂ) ^ exp := by
  unfold insert
  split
  case isTrue one => simp [one]
  case isFalse => exact Terms.value_bump positive exp

theorem insert_weight_le (state : Refining) (base : ℕ) (exp : ℤ) :
    (state.insert base exp).refined.weight ≤
      state.refined.weight + ArithmeticFunction.cardFactors base := by
  unfold insert
  split
  · exact Nat.le_add_right _ _
  · exact Terms.weight_bump_le

/-- Nothing becomes settled by an insertion: a new key is queued with it. -/
theorem settled_of_insert (settled : (state.insert base exp).Settled key) : state.Settled key := by
  unfold insert at settled
  split at settled
  · exact settled
  · obtain ⟨inside, rested⟩ := settled
    split at rested
    case isTrue known =>
      refine ⟨?_, rested⟩
      rcases Terms.mem_keys_bump inside with inside | same
      · exact inside
      · exact same ▸ known
    case isFalse =>
      rw [List.mem_cons, not_or] at rested
      exact ⟨(Terms.mem_keys_bump inside).resolve_right rested.1, rested.2⟩

theorem Valid.insert (valid : state.Valid) (positive : 0 < base) :
    (state.insert base exp).Valid := by
  have coprime : ∀ left right, (state.insert base exp).Settled left →
      (state.insert base exp).Settled right → left ≠ right → left.Coprime right :=
    fun left right hleft hright =>
      valid.coprime left right (settled_of_insert hleft) (settled_of_insert hright)
  by_cases one : base = 1
  · rwa [Refining.insert, if_pos one]
  · refine ⟨?_, ?_, ?_, coprime⟩ <;> rw [Refining.insert, if_neg one]
    · exact Terms.distinct_bump valid.distinct
    · intro entry member
      rcases Terms.mem_bump member with member | same
      · exact valid.large entry member
      · omega
    · exact Terms.nonzero_bump valid.nonzero

theorem Valid.merge {a b : ℕ} {ea eb : ℤ} (valid : state.Valid) (ha : 0 < a) (hb : 0 < b) :
    (state.merge a ea b eb).Valid :=
  ((valid.insert (Nat.gcd_pos_of_pos_left b ha)).insert (strip_pos ha)).insert (strip_pos hb)

theorem merge_value {a b : ℕ} {ea eb : ℤ} (ha : 0 < a) (hb : 0 < b) :
    (state.merge a ea b eb).refined.value =
      state.refined.value * ((a : ℂ) ^ ea * (b : ℂ) ^ eb) := by
  have common : 0 < Nat.gcd a b := Nat.gcd_pos_of_pos_left b ha
  have nonzero : (Nat.gcd a b : ℂ) ≠ 0 := by exact_mod_cast common.ne'
  have split (n : ℕ) (e : ℤ) : (n : ℂ) ^ e = (Nat.gcd a b : ℂ) ^ (e * (strip (Nat.gcd a b) n).2) *
      ((strip (Nat.gcd a b) n).1 : ℂ) ^ e := by
    conv_lhs => rw [← strip_mul (Nat.gcd a b) n]
    push_cast
    rw [mul_zpow, ← zpow_natCast, ← zpow_mul, mul_comm e]
  rw [merge, insert_value (strip_pos hb), insert_value (strip_pos ha), insert_value common,
    split a ea, split b eb, zpow_add₀ nonzero]
  ring

theorem merge_weight_lt (state : Refining) (ea eb : ℤ) {a b : ℕ} (ha : 0 < a) (hb : 0 < b)
    (shared : 1 < a.gcd b) :
    (state.merge a ea b eb).refined.weight < state.refined.weight +
      (ArithmeticFunction.cardFactors a + ArithmeticFunction.cardFactors b) := by
  have drop := cardFactors_merge ha hb shared
  have first := insert_weight_le state (a.gcd b)
    (ea * (strip (a.gcd b) a).2 + eb * (strip (a.gcd b) b).2)
  have second := insert_weight_le (state.insert (a.gcd b)
    (ea * (strip (a.gcd b) a).2 + eb * (strip (a.gcd b) b).2)) (strip (a.gcd b) a).1 ea
  have third := insert_weight_le ((state.insert (a.gcd b)
    (ea * (strip (a.gcd b) a).2 + eb * (strip (a.gcd b) b).2)).insert (strip (a.gcd b) a).1 ea)
    (strip (a.gcd b) b).1 eb
  refine lt_of_le_of_lt third ?_
  omega

theorem Valid.without {key : ℕ} {work : List ℕ} {refined rest : Terms} {first second : ℕ × ℤ}
    (valid : Valid ⟨refined, key :: work⟩) (perm : refined.Perm (first :: second :: rest))
    (popped : first.1 = key) : Valid ⟨rest, work⟩ := by
  have member : ∀ entry ∈ rest, entry ∈ refined := fun entry inside =>
    perm.mem_iff.mpr (List.mem_cons_of_mem _ (List.mem_cons_of_mem _ inside))
  have distinct : (first.1 :: second.1 :: rest.keys).Nodup :=
    (Terms.keys_perm perm).nodup_iff.mp valid.distinct
  rw [List.nodup_cons, List.nodup_cons, List.mem_cons, not_or] at distinct
  have settled : ∀ left, Settled ⟨rest, work⟩ left → Settled ⟨refined, key :: work⟩ left := by
    rintro left ⟨inside, rested⟩
    refine ⟨(Terms.keys_perm perm).mem_iff.mpr (by simp [inside]), ?_⟩
    rw [List.mem_cons, not_or]
    exact ⟨fun same => distinct.1.2 (popped.trans same.symm ▸ inside), rested⟩
  exact ⟨distinct.2.2, fun entry inside => valid.large entry (member entry inside),
    fun entry inside => valid.nonzero entry (member entry inside),
    fun left right hleft hright =>
      valid.coprime left right (settled left hleft) (settled right hright)⟩

/-- The popped key is settled once it is coprime with every other. -/
theorem Valid.settle {key : ℕ} {work : List ℕ} {refined : Terms}
    (valid : Valid ⟨refined, key :: work⟩)
    (apart : key ∈ refined.keys → ∀ other ∈ refined.keys, other ≠ key → key.gcd other ≤ 1) :
    Valid ⟨refined, work⟩ := by
  have one {other : ℕ} (inside : key ∈ refined.keys) (member : other ∈ refined.keys)
      (distinct : other ≠ key) : key.Coprime other := by
    obtain ⟨entry, found, same⟩ := List.mem_map.mp inside
    have large : 1 < key := same ▸ valid.large entry found
    have positive : 0 < key.gcd other := Nat.gcd_pos_of_pos_left other (by omega)
    exact Nat.le_antisymm (apart inside other member distinct) positive
  refine ⟨valid.distinct, valid.large, valid.nonzero, ?_⟩
  rintro left right ⟨hleft, leftRested⟩ ⟨hright, rightRested⟩ distinct
  by_cases leftKey : left = key
  · subst leftKey
    exact one hleft hright distinct.symm
  by_cases rightKey : right = key
  · subst rightKey
    exact (one hright hleft distinct).symm
  · exact valid.coprime left right ⟨hleft, by simp [leftKey, leftRested]⟩
      ⟨hright, by simp [rightKey, rightRested]⟩ distinct

/-- What one turn preserves: the invariant and the product; and either a merge
takes a prime factor away or the queue gets shorter. -/
theorem next_spec {after : Refining} (valid : state.Valid) (h : state.next = some after) :
    after.Valid ∧ after.refined.value = state.refined.value ∧
      (after.refined.weight < state.refined.weight ∨
        after.refined.weight = state.refined.weight ∧ after.work.length < state.work.length) := by
  obtain ⟨key, work, popped, turn⟩ := next_cases h
  obtain ⟨refined, queue⟩ := state
  subst popped
  rcases turn with ⟨rfl, apart⟩ | ⟨ea, b, eb, rest, perm, shared, rfl⟩
  · exact ⟨valid.settle apart, rfl, .inr ⟨rfl, by simp⟩⟩
  · have ha : 0 < key := by
      have := valid.large _ (perm.mem_iff.mpr List.mem_cons_self)
      exact lt_trans Nat.one_pos this
    have hb : 0 < b := by
      have := valid.large (b, eb) (perm.mem_iff.mpr (by simp))
      exact lt_trans Nat.one_pos this
    refine ⟨(valid.without perm rfl).merge ha hb, ?_, .inl ?_⟩
    · rw [merge_value ha hb, Terms.value_perm perm, Terms.value_cons, Terms.value_cons]
      ring
    · have lighter := merge_weight_lt ⟨rest, work⟩ ea eb ha hb shared
      have weight := Terms.weight_perm perm
      simp only [Terms.weight_cons] at weight lighter ⊢
      omega

end Refining

/-- The loop: it ends, as no turn adds prime factors and only a turn that takes
some away can lengthen the queue. -/
def refineLoop (state : Refining) (valid : state.Valid) : Refining :=
  match h : state.next with
  | none => state
  | some after => refineLoop after (Refining.next_spec valid h).1
termination_by (state.refined.weight, state.work.length)
decreasing_by
  rcases (Refining.next_spec valid h).2.2 with lighter | ⟨same, shorter⟩
  · exact Prod.Lex.left _ _ lighter
  · rw [same]
    exact Prod.Lex.right _ shorter

theorem refineLoop_spec (state : Refining) (valid : state.Valid) :
    (refineLoop state valid).Valid ∧ (refineLoop state valid).work = [] ∧
      (refineLoop state valid).refined.value = state.refined.value := by
  fun_induction refineLoop state valid with
  | case1 state valid stop =>
    refine ⟨valid, ?_, rfl⟩
    obtain ⟨refined, work⟩ := state
    cases work with
    | nil => rfl
    | cons key work =>
      simp only [Refining.next] at stop
      split at stop
      · cases stop
      · split at stop <;> cases stop
  | case2 state valid after turn ih =>
    exact ⟨ih.1, ih.2.1, ih.2.2.trans (Refining.next_spec valid turn).2.1⟩

/-- A dict of net exponents. -/
structure PowerMap where
  terms : Terms
  distinct : terms.keys.Nodup

/-- `refined` and `work` before the loop. -/
def startRefining (map : PowerMap) : Refining :=
  let refined : Terms := map.terms.filter fun entry => 1 < entry.1 ∧ entry.2 ≠ 0
  ⟨refined, refined.keys.reverse⟩

theorem startRefining_valid (map : PowerMap) : (startRefining map).Valid where
  distinct := map.distinct.sublist (List.filter_sublist.map _)
  large entry member := by
    have kept := List.of_mem_filter member
    simp only [decide_eq_true_eq] at kept
    exact kept.1
  nonzero entry member := by
    have kept := List.of_mem_filter member
    simp only [decide_eq_true_eq] at kept
    exact kept.2
  coprime left right hleft _ _ := absurd (List.mem_reverse.mpr hleft.1) hleft.2

/-- What is dropped on entry is a factor one. -/
theorem startRefining_value (map : PowerMap) (positive : map.terms.Positive) :
    (startRefining map).refined.value = map.terms.value := by
  simp only [startRefining]
  generalize map.terms = terms at positive
  induction terms with
  | nil => rfl
  | cons entry rest ih =>
    have tail : Terms.Positive rest := fun other member =>
      positive other (List.mem_cons_of_mem _ member)
    rw [Terms.value_cons, ← ih tail, List.filter_cons]
    split
    · rw [Terms.value_cons]
    case isFalse dropped =>
      have head := positive entry List.mem_cons_self
      have unit : entry.1 = 1 ∨ entry.2 = 0 := by
        simp only [decide_eq_true_eq] at dropped
        by_contra neither
        rw [not_or] at neither
        exact dropped ⟨by omega, neither.2⟩
      rcases unit with one | zero
      · simp [one]
      · simp [zero]

def coprimeRefineMultiset (map : PowerMap) : PowerMap where
  terms := (refineLoop (startRefining map) (startRefining_valid map)).refined
  distinct := (refineLoop_spec _ (startRefining_valid map)).1.distinct

variable {map : PowerMap}

theorem coprimeRefine_base (map : PowerMap) : CoprimeBase (coprimeRefineMultiset map).terms := by
  obtain ⟨valid, done, _⟩ := refineLoop_spec _ (startRefining_valid map)
  refine ⟨valid.large, ?_⟩
  have settled {key : ℕ} (member : key ∈ (coprimeRefineMultiset map).terms.keys) :
      (refineLoop (startRefining map) (startRefining_valid map)).Settled key :=
    ⟨member, by simp [done]⟩
  have keys : (coprimeRefineMultiset map).terms.keys.Pairwise Nat.Coprime :=
    (coprimeRefineMultiset map).distinct.pairwise_of_forall_ne
      fun left hleft right hright distinct =>
        valid.coprime left right (settled hleft) (settled hright) distinct
  exact List.pairwise_map.mp keys

theorem coprimeRefine_nonzero (map : PowerMap) :
    ∀ entry ∈ (coprimeRefineMultiset map).terms, entry.2 ≠ 0 :=
  (refineLoop_spec _ (startRefining_valid map)).1.nonzero

theorem coprimeRefine_value (positive : map.terms.Positive) :
    (coprimeRefineMultiset map).terms.value = map.terms.value :=
  (refineLoop_spec _ (startRefining_valid map)).2.2.trans (startRefining_value map positive)

theorem coprimeRefine_isInteger_iff (positive : map.terms.Positive) :
    (∃ m : ℤ, map.terms.value = m) ↔ ∀ entry ∈ (coprimeRefineMultiset map).terms, 0 ≤ entry.2 := by
  have product : (coprimeRefineMultiset map).terms.value =
      powerProduct ℂ (coprimeRefineMultiset map).terms := rfl
  rw [← coprimeRefine_value positive, product]
  exact (coprimeRefine_base map).isInteger_iff

end Refining

section SymbolicBase

def maxSymbolicExponent : ℕ := 200

noncomputable section

variable (isNonnegative isNegative : Node → Bool)

/-- A product of nonzero integers with an odd number of negative ones. -/
def tableProductIsNegative : Node → Bool
  | .mul factors =>
    (factors.all fun factor => match factor with
      | .integer n => n ≠ 0
      | _ => false) &&
    (factors.countP fun factor => match factor with
      | .integer n => n < 0
      | _ => false) % 2 = 1
  | _ => false

open Classical in
def capExponent (magnitude : ℝ) (sign : ℤ) : Option String :=
  if magnitude ≤ 0 then none
  else if 0 < sign ∧ log10 maxSymbolicExponent < magnitude then
    some (s!"a symbolic power with an exponent of about {⌊magnitude⌋₊ + 1} digits exceeds the " ++
      s!"limit of {maxSymbolicExponent}: expanding it is superlinear in the exponent")
  else none

/-- One turn of the loop over the powers, at a base with symbols and an exponent
without.  `isNegative` is SymPy's own verdict on the exponent. -/
def symbolicPowViolation (exponent : Node) : Option String :=
  if exponent.isPow then some towerMessage
  else match h : factorMultiset exponent with
    | some (terms, sign) =>
      let refined := (coprimeRefineMultiset ⟨terms, factorMultiset_distinct exponent h⟩).terms
      if sign ≠ 0 ∧ refined.any (·.2 < 0) then none
      else capExponent (multisetLogNumDen refined).num sign
    | none =>
      let bound := (measure isNonnegative exponent).tableAware
      if bound.resolved then
        capExponent bound.magnitude
          (if isNegative exponent || tableProductIsNegative exponent then -1 else 1)
      else none

end

/-- Nonzero integers under products and powers with a literal exponent. -/
inductive IsProduct : Node → Prop
  | integer (n : ℤ) (nonzero : n ≠ 0) : IsProduct (.integer n)
  | mul (args : List Node) (each : ∀ arg ∈ args, IsProduct arg) : IsProduct (.mul args)
  | pow (base : Node) (exp : ℤ) (inner : IsProduct base) : IsProduct (.pow base (.integer exp))

theorem Decomposes.ne_zero {v : ℂ} {terms : Terms} {sign : ℤ} (h : Decomposes v terms sign)
    (nonzero : sign ≠ 0) : v ≠ 0 := by
  rw [h.value]
  exact mul_ne_zero (by exact_mod_cast nonzero) (Terms.value_ne_zero h.keys)

theorem mergeFactors_total {args : List Node} (terms : Terms) {sign : ℤ} (nonzero : sign ≠ 0)
    (each : ∀ arg ∈ args, ∃ sub subSign, factorMultiset arg = some (sub, subSign) ∧ subSign ≠ 0) :
    ∃ result resultSign, mergeFactors terms sign (args.map factorMultiset) =
      some (result, resultSign) ∧ resultSign ≠ 0 := by
  induction args generalizing terms sign with
  | nil => exact ⟨terms, sign, rfl, nonzero⟩
  | cons arg args ih =>
    obtain ⟨sub, subSign, found, here⟩ := each arg List.mem_cons_self
    obtain ⟨result, resultSign, rest⟩ := ih (terms.merge sub) (mul_ne_zero nonzero here)
      fun other member => each other (List.mem_cons_of_mem _ member)
    refine ⟨result, resultSign, ?_, rest.2⟩
    rw [List.map_cons, found, mergeFactors, if_neg here]
    exact rest.1

theorem values_of_each {args : List Node} (each : ∀ arg ∈ args, ∃ v, value arg = some v) :
    ∃ vs, values args = some vs := by
  induction args with
  | nil => exact ⟨[], rfl⟩
  | cons arg args ih =>
    obtain ⟨v, hv⟩ := each arg List.mem_cons_self
    obtain ⟨vs, hvs⟩ := ih fun other member => each other (List.mem_cons_of_mem _ member)
    exact ⟨v :: vs, by simp [values, hv, hvs]⟩

/-- Such a tree has a multiset and stands for a number other than zero. -/
theorem IsProduct.total {node : Node} (h : IsProduct node) :
    ∃ v terms sign, value node = some v ∧ factorMultiset node = some (terms, sign) ∧ sign ≠ 0 := by
  induction h with
  | integer n nonzero =>
    refine ⟨n, _, n.sign, rfl, by rw [factorMultiset, if_neg nonzero], ?_⟩
    exact Int.sign_eq_zero_iff_zero.not.mpr nonzero
  | mul args each ih =>
    have valued (arg) (member : arg ∈ args) : ∃ v, value arg = some v := by
      obtain ⟨v, _, _, hv, _⟩ := ih arg member
      exact ⟨v, hv⟩
    have factored (arg) (member : arg ∈ args) :
        ∃ sub subSign, factorMultiset arg = some (sub, subSign) ∧ subSign ≠ 0 := by
      obtain ⟨_, sub, subSign, _, found, nonzero⟩ := ih arg member
      exact ⟨sub, subSign, found, nonzero⟩
    obtain ⟨vs, hvs⟩ := values_of_each valued
    obtain ⟨terms, sign, found, nonzero⟩ := mergeFactors_total [] Int.one_ne_zero factored
    exact ⟨vs.prod, terms, sign, by simp [value, hvs],
      by rw [factorMultiset, factorMultisets_eq, found], nonzero⟩
  | pow base exp inner ih =>
    obtain ⟨v, terms, sign, hv, found, nonzero⟩ := ih
    have unit := (factorMultiset_spec base found v hv).ne_zero nonzero
    refine ⟨v ^ (exp : ℂ), ?_⟩
    have defined : value (.pow base (.integer exp)) = some (v ^ (exp : ℂ)) := by
      simp [value, hv, power, unit]
    by_cases zero : exp = 0
    · exact ⟨[], 1, defined, by simp [factorMultiset, powFactors, zero], Int.one_ne_zero⟩
    · refine ⟨terms.scale exp, if exp % 2 = 0 then 1 else sign, defined, ?_, ?_⟩
      · simp [factorMultiset, powFactors, zero, found, nonzero]
      · split
        · exact Int.one_ne_zero
        · exact nonzero

/-- The logarithms are those of the two sides of the product. -/
theorem multisetLogNumDen_num {terms : Terms} (positive : terms.Positive) :
    (multisetLogNumDen terms).num = log10 (powerNumerator terms) := by
  simp only [multisetLogNumDen]
  induction terms with
  | nil => simp [powerNumerator, log10]
  | cons entry rest ih =>
    have tail : Terms.Positive rest := fun other member =>
      positive other (List.mem_cons_of_mem _ member)
    have head : (entry.1 : ℝ) ≠ 0 := by exact_mod_cast (positive entry List.mem_cons_self).ne'
    have others : (powerNumerator rest : ℝ) ≠ 0 := by
      exact_mod_cast (powerNumerator_pos tail).ne'
    have split : (powerNumerator (entry :: rest) : ℝ) =
        (entry.1 : ℝ) ^ entry.2.toNat * powerNumerator rest := by
      simp [powerNumerator]
    rw [split, log10, Real.logb_mul (pow_ne_zero _ head) others, Real.logb_pow]
    rw [List.filter_cons]
    split
    case isTrue large =>
      have large : 0 < entry.2 := by simpa using large
      have count : (entry.2 : ℝ) = (entry.2.toNat : ℝ) := by
        exact_mod_cast (Int.toNat_of_nonneg large.le).symm
      rw [List.map_cons, List.sum_cons, ih tail, safeLog10Pow, count, log10, log10, mul_comm]
    case isFalse small =>
      have small : entry.2 ≤ 0 := by simpa using small
      rw [ih tail, Int.toNat_of_nonpos small, log10]
      simp

theorem capExponent_isSome {magnitude : ℝ} {sign : ℤ} :
    (capExponent magnitude sign).isSome ↔ 0 < sign ∧ log10 maxSymbolicExponent < magnitude := by
  have limit : 0 < log10 (maxSymbolicExponent : ℝ) :=
    Real.logb_pos (by norm_num) (by norm_num [maxSymbolicExponent])
  unfold capExponent
  split
  case isTrue trivial =>
    simp only [Option.isSome_none, Bool.false_eq_true, false_iff, not_and, not_lt]
    exact fun _ => trivial.trans limit.le
  case isFalse => split <;> simp_all

/-- A sign times a natural number is an integer above the limit just when the sign
is positive and the number is above it. -/
theorem signed_over_iff {v : ℂ} {sign : ℤ} {n : ℕ} (signs : sign = 1 ∨ sign = -1)
    (h : v = sign * (n : ℂ)) (limit : ℕ) :
    (∃ m : ℤ, v = m ∧ (limit : ℤ) < m) ↔ 0 < sign ∧ limit < n := by
  have number : v = ((sign * n : ℤ) : ℂ) := by
    rw [h]
    push_cast
    rfl
  constructor
  · rintro ⟨m, hm, large⟩
    have same : sign * n = m := by exact_mod_cast number.symm.trans hm
    rcases signs with rfl | rfl <;> omega
  · rintro ⟨positive, large⟩
    refine ⟨sign * n, number, ?_⟩
    rcases signs with rfl | rfl <;> omega

variable (isNonnegative isNegative : Node → Bool)

theorem symbolicPowViolation_of_multiset {exponent : Node} {terms : Terms} {sign : ℤ}
    (plain : exponent.isPow = false) (found : factorMultiset exponent = some (terms, sign)) :
    symbolicPowViolation isNonnegative isNegative exponent =
      (let refined := (coprimeRefineMultiset ⟨terms, factorMultiset_distinct exponent found⟩).terms
      if sign ≠ 0 ∧ refined.any (·.2 < 0) then none
      else capExponent (multisetLogNumDen refined).num sign) := by
  unfold symbolicPowViolation
  rw [plain, if_neg Bool.false_ne_true]
  split
  case h_1 other otherSign same =>
    rw [found, Option.some.injEq, Prod.mk.injEq] at same
    obtain ⟨rfl, rfl⟩ := same
    rfl
  case h_2 missing => rw [found] at missing; cases missing

theorem symbolicPowViolation_iff {exponent : Node} (product : IsProduct exponent)
    (plain : exponent.isPow = false) :
    (symbolicPowViolation isNonnegative isNegative exponent).isSome ↔
      ∃ m : ℤ, value exponent = some (m : ℂ) ∧ (maxSymbolicExponent : ℤ) < m := by
  obtain ⟨v, terms, sign, hv, found, nonzero⟩ := product.total
  have exact := factorMultiset_spec exponent found v hv
  have signs := exact.sign_cases.resolve_left nonzero
  rw [symbolicPowViolation_of_multiset isNonnegative isNegative plain found]
  generalize hmap : (⟨terms, factorMultiset_distinct exponent found⟩ : PowerMap) = map
  have source : map.terms = terms := by rw [← hmap]
  have positive : map.terms.Positive := source ▸ exact.keys
  have base := coprimeRefine_base map
  have same : (coprimeRefineMultiset map).terms.value = terms.value :=
    source ▸ coprimeRefine_value positive
  have integral := source ▸ coprimeRefine_isInteger_iff positive
  generalize (coprimeRefineMultiset map).terms = refined at base same integral
  dsimp only
  simp only [hv, Option.some.injEq]
  split
  case isTrue fractional =>
    obtain ⟨entry, member, negative⟩ := List.any_eq_true.mp fractional.2
    have negative : entry.2 < 0 := by simpa using negative
    simp only [Option.isSome_none, Bool.false_eq_true, false_iff, not_exists, not_and]
    intro m hm
    have whole : terms.value = ((sign * m : ℤ) : ℂ) := by
      have value := exact.value
      rw [hm] at value
      push_cast
      rw [value]
      rcases signs with rfl | rfl <;> simp
    exact absurd (integral.mp ⟨sign * m, whole⟩ entry member) (not_le.mpr negative)
  case isFalse whole =>
    have nonneg : ∀ entry ∈ refined, 0 ≤ entry.2 := by
      by_contra some
      push Not at some
      obtain ⟨entry, member, negative⟩ := some
      exact whole ⟨nonzero, List.any_eq_true.mpr ⟨entry, member, by simpa using negative⟩⟩
    have number : v = sign * (powerNumerator refined : ℂ) := by
      rw [exact.value, ← same]
      exact congrArg (_ * ·) (powerProduct_of_nonneg nonneg)
    have pos : (0 : ℝ) < powerNumerator refined := by
      exact_mod_cast powerNumerator_pos base.positive
    have limit : (0 : ℝ) < maxSymbolicExponent := by norm_num [maxSymbolicExponent]
    rw [capExponent_isSome, multisetLogNumDen_num base.positive,
      signed_over_iff signs number maxSymbolicExponent, log10, log10,
      Real.logb_lt_logb_iff (by norm_num) limit pos, Nat.cast_lt]

/-- Every dict of positive integers is refined into one with the same product,
whose bases are coprime and whose exponents say whether it is an integer; and
an exponent made of nonzero integers is refused just when it is an integer over
the limit. -/
theorem refine_and_cap :
    (∀ map : PowerMap, map.terms.Positive →
      (coprimeRefineMultiset map).terms.value = map.terms.value ∧
      ((coprimeRefineMultiset map).terms.Pairwise fun left right => left.1.Coprime right.1) ∧
      (∀ entry ∈ (coprimeRefineMultiset map).terms, 1 < entry.1 ∧ entry.2 ≠ 0) ∧
      ((∃ m : ℤ, map.terms.value = m) ↔
        ∀ entry ∈ (coprimeRefineMultiset map).terms, ¬ entry.2 < 0)) ∧
    ∀ exponent : Node, IsProduct exponent → exponent.isPow = false →
      ((symbolicPowViolation isNonnegative isNegative exponent).isSome ↔
        ∃ m : ℤ, value exponent = some (m : ℂ) ∧ (maxSymbolicExponent : ℤ) < m) := by
  refine ⟨fun map positive => ⟨coprimeRefine_value positive, (coprimeRefine_base map).coprime,
    fun entry member => ⟨(coprimeRefine_base map).large entry member,
      coprimeRefine_nonzero map entry member⟩, ?_⟩,
    fun exponent product plain =>
      symbolicPowViolation_iff isNonnegative isNegative product plain⟩
  simp only [not_lt]
  exact coprimeRefine_isInteger_iff positive

/-- `10 ** 5 / 2 ** 5` is the integer 3125: refined it has no denominator, and
as an exponent it is refused. -/
theorem refine_and_cap_quotient :
    (∀ entry ∈ (coprimeRefineMultiset ⟨[(10, 5), (2, -5)], by decide⟩).terms, ¬ entry.2 < 0) ∧
      (symbolicPowViolation (fun _ => false) (fun _ => false)
        (.mul [.pow (.integer 10) (.integer 5),
          .pow (.pow (.integer 2) (.integer 5)) (.integer (-1))])).isSome := by
  have rules := refine_and_cap (fun _ => false) (fun _ => false)
  constructor
  · refine (rules.1 ⟨[(10, 5), (2, -5)], by decide⟩ ?_).2.2.2.mp ⟨3125, ?_⟩
    · simp [Terms.Positive]
    · rw [Terms.value_cons, Terms.value_cons, Terms.value_nil]
      norm_num
  · refine (rules.2 _ ?_ rfl).mpr ⟨3125, ?_, by decide⟩
    · refine .mul _ fun arg member => ?_
      rcases List.mem_cons.mp member with rfl | member
      · exact .pow _ 5 (.integer 10 (by decide))
      · rw [List.mem_singleton.mp member]
        exact .pow _ (-1) (.pow _ 5 (.integer 2 (by decide)))
    · simp only [value, values, power]
      norm_num [Complex.cpow_neg_one]

end SymbolicBase
end CodeCalc.SafeExpr
