import CodeCalc.Lib.House
import CodeCalc.SafeExpr.Numeric

/-! What the bounds of `_log10_num_den` say of the number a tree stands for. -/
namespace CodeCalc.SafeExpr
open Lib

section Induction

theorem Node.induct {motive : Node → Prop} (integer : ∀ n, motive (.integer n))
    (rational : ∀ q, motive (.rational q)) (add : ∀ args, (∀ arg ∈ args, motive arg) → motive (.add args))
    (mul : ∀ args, (∀ arg ∈ args, motive arg) → motive (.mul args))
    (power : ∀ base exp, motive base → motive (.pow base (.integer exp)))
    (compound : ∀ base exp, exp.isInteger = false → motive base → motive exp →
      motive (.pow base exp)) (node : Node) : motive node := by
  refine @Node.rec motive (fun args => ∀ arg ∈ args, motive arg) integer rational add mul
    ?_ ?_ ?_ node
  · intro base exp hbase hexp
    cases exp with
    | integer exp => exact power base exp hbase
    | rational exp => exact compound base _ rfl hbase hexp
    | add args => exact compound base _ rfl hbase hexp
    | mul args => exact compound base _ rfl hbase hexp
    | pow inner outer => exact compound base _ rfl hbase hexp
  · simp
  · intro head tail hhead htail
    simpa using ⟨hhead, htail⟩

theorem factorMultisets_eq (args : List Node) : factorMultisets args = args.map factorMultiset := by
  induction args with
  | nil => rfl
  | cons arg args ih => simp [factorMultisets, ih]

theorem factorMultiset_compound {base exp : Node} (compound : exp.isInteger = false) :
    factorMultiset (.pow base exp) = none := by
  cases exp <;> first | rfl | simp [Node.isInteger] at compound

end Induction

section Values

noncomputable section

open Classical in
/-- The principal value of a power; `0 ** w` is a number for `0 ≤ w` only. -/
def power (v w : ℂ) : Option ℂ :=
  if v = 0 then if w = 0 then some 1 else if 0 < w.re ∧ w.im = 0 then some 0 else none
  else some (v ^ w)

mutual

/-- The number a tree stands for, where it stands for one. -/
def value : Node → Option ℂ
  | .integer n => some n
  | .rational q => some q
  | .add args => (values args).map List.sum
  | .mul args => (values args).map List.prod
  | .pow base exp => (value base).bind fun v => (value exp).bind fun w => power v w

def values : List Node → Option (List ℂ)
  | [] => some []
  | arg :: args => (value arg).bind fun v => (values args).map (v :: ·)

end

def number (node : Node) : ℂ := (value node).getD 0

end

theorem values_eq_some {args : List Node} {vs : List ℂ} (h : values args = some vs) :
    (∀ arg ∈ args, value arg = some (number arg)) ∧ vs = args.map number := by
  induction args generalizing vs with
  | nil =>
    simp only [values, Option.some.injEq] at h
    simp [← h]
  | cons arg args ih =>
    simp only [values, Option.bind_eq_some_iff, Option.map_eq_some_iff] at h
    obtain ⟨v, hv, rest, hrest, rfl⟩ := h
    obtain ⟨each, rfl⟩ := ih hrest
    have number_eq : number arg = v := by simp [number, hv]
    simp only [List.mem_cons, forall_eq_or_imp, List.map_cons, number_eq]
    exact ⟨⟨hv, each⟩, trivial⟩

theorem value_add {args : List Node} {v : ℂ} (h : value (.add args) = some v) :
    (∀ arg ∈ args, value arg = some (number arg)) ∧ v = (args.map number).sum := by
  simp only [value, Option.map_eq_some_iff] at h
  obtain ⟨vs, hvs, rfl⟩ := h
  obtain ⟨each, rfl⟩ := values_eq_some hvs
  exact ⟨each, rfl⟩

theorem value_mul {args : List Node} {v : ℂ} (h : value (.mul args) = some v) :
    (∀ arg ∈ args, value arg = some (number arg)) ∧ v = (args.map number).prod := by
  simp only [value, Option.map_eq_some_iff] at h
  obtain ⟨vs, hvs, rfl⟩ := h
  obtain ⟨each, rfl⟩ := values_eq_some hvs
  exact ⟨each, rfl⟩

theorem value_pow {base exp : Node} {v : ℂ} (h : value (.pow base exp) = some v) :
    ∃ b w, value base = some b ∧ value exp = some w ∧ power b w = some v := by
  simp only [value, Option.bind_eq_some_iff] at h
  obtain ⟨b, hb, w, hw, hv⟩ := h
  exact ⟨b, w, hb, hw, hv⟩

/-- An integer power is the power of the field, wherever it is defined. -/
theorem power_int {b v : ℂ} {k : ℤ} (h : power b k = some v) : v = b ^ k ∧ (b = 0 → 0 ≤ k) := by
  unfold power at h
  by_cases hb : b = 0
  · rw [if_pos hb] at h
    by_cases hk : (k : ℂ) = 0
    · rw [if_pos hk, Option.some.injEq] at h
      have zero : k = 0 := by exact_mod_cast hk
      simp [zero, ← h]
    · rw [if_neg hk] at h
      have nonzero : k ≠ 0 := by exact_mod_cast hk
      split at h
      case isTrue positive =>
        have positive : 0 < k := by simpa using positive.1
        rw [Option.some.injEq] at h
        rw [← h, hb, zero_zpow k nonzero]
        exact ⟨rfl, fun _ => positive.le⟩
      case isFalse => cases h
  · rw [if_neg hb, Option.some.injEq] at h
    rw [← h, Complex.cpow_intCast]
    exact ⟨rfl, fun zero => absurd zero hb⟩

end Values

section Multiset

noncomputable def Terms.value (terms : Terms) : ℂ :=
  (terms.map fun entry => (entry.1 : ℂ) ^ entry.2).prod

def Terms.Positive (terms : Terms) : Prop := ∀ entry ∈ terms, 0 < entry.1

namespace Terms

variable {terms sub : Terms} {base : ℕ}

@[simp] theorem value_nil : Terms.value [] = 1 := by simp [Terms.value]

@[simp] theorem value_cons (entry : ℕ × ℤ) (terms : Terms) :
    Terms.value (entry :: terms) = (entry.1 : ℂ) ^ entry.2 * Terms.value terms := by
  simp [Terms.value]

theorem value_perm {left right : Terms} (perm : left.Perm right) : left.value = right.value :=
  (perm.map _).prod_eq

theorem value_bump (positive : 0 < base) (exp : ℤ) :
    (terms.bump base exp).value = terms.value * (base : ℂ) ^ exp := by
  have nonzero : (base : ℂ) ≠ 0 := by exact_mod_cast positive.ne'
  induction terms with
  | nil =>
    unfold bump
    split <;> simp_all
  | cons entry rest ih =>
    unfold bump
    by_cases same : entry.1 = base
    · rw [if_pos same]
      have factor : (base : ℂ) ^ entry.2 * (base : ℂ) ^ exp = (base : ℂ) ^ (entry.2 + exp) :=
        (zpow_add₀ nonzero _ _).symm
      split
      case isTrue zero =>
        rw [zero, zpow_zero] at factor
        rw [value_cons, same, mul_right_comm, factor, one_mul]
      case isFalse => rw [value_cons, value_cons, same, mul_right_comm, factor]
    · rw [if_neg same, value_cons, ih, value_cons]
      ring

theorem positive_bump (positive : 0 < base) (keys : terms.Positive) (exp : ℤ) :
    (terms.bump base exp).Positive := by
  induction terms with
  | nil =>
    unfold bump
    split <;> simp_all [Positive]
  | cons entry rest ih =>
    have tail : Positive rest := fun other member => keys other (List.mem_cons_of_mem _ member)
    have head := keys entry List.mem_cons_self
    unfold bump
    intro other member
    split at member
    · split at member
      · exact tail other member
      · rcases List.mem_cons.mp member with rfl | member
        · exact head
        · exact tail other member
    · rcases List.mem_cons.mp member with rfl | member
      · exact head
      · exact ih tail other member

theorem merge_spec (keys : sub.Positive) (own : terms.Positive) :
    (terms.merge sub).value = terms.value * sub.value ∧ (terms.merge sub).Positive := by
  unfold merge
  induction sub generalizing terms with
  | nil => simpa using own
  | cons entry rest ih =>
    have head := keys entry List.mem_cons_self
    have tail : Positive rest := fun other member => keys other (List.mem_cons_of_mem _ member)
    obtain ⟨hvalue, hkeys⟩ := ih tail (positive_bump head own entry.2)
    refine ⟨?_, hkeys⟩
    rw [List.foldl_cons, hvalue, value_bump head, value_cons, mul_assoc]

theorem value_scale (exp : ℤ) : (terms.scale exp).value = terms.value ^ exp := by
  induction terms with
  | nil => simp [scale]
  | cons entry rest ih =>
    have split : Terms.scale (entry :: rest) exp = (entry.1, entry.2 * exp) :: scale rest exp := rfl
    rw [split, value_cons, ih, value_cons, mul_zpow, zpow_mul]

theorem positive_scale (keys : terms.Positive) (exp : ℤ) : (terms.scale exp).Positive := by
  intro entry member
  obtain ⟨source, hsource, rfl⟩ := List.mem_map.mp member
  exact keys source hsource

theorem value_ne_zero (keys : terms.Positive) : terms.value ≠ 0 := by
  induction terms with
  | nil => simp
  | cons entry rest ih =>
    rw [value_cons]
    have head : (entry.1 : ℂ) ≠ 0 := by exact_mod_cast (keys entry List.mem_cons_self).ne'
    exact mul_ne_zero (zpow_ne_zero _ head)
      (ih fun other member => keys other (List.mem_cons_of_mem _ member))

end Terms

/-- The sign and the product of powers are the number, and the bases are positive. -/
structure Decomposes (v : ℂ) (terms : Terms) (sign : ℤ) : Prop where
  value : v = sign * terms.value
  keys : terms.Positive
  sign_cases : sign = 0 ∨ sign = 1 ∨ sign = -1

theorem mergeFactors_spec {args : List Node} {terms result : Terms} {sign resultSign : ℤ}
    (each : ∀ arg ∈ args, ∀ sub subSign, factorMultiset arg = some (sub, subSign) →
      Decomposes (number arg) sub subSign)
    (keys : terms.Positive) (signs : sign = 0 ∨ sign = 1 ∨ sign = -1)
    (h : mergeFactors terms sign (args.map factorMultiset) = some (result, resultSign)) :
    Decomposes (sign * terms.value * (args.map number).prod) result resultSign := by
  induction args generalizing terms sign with
  | nil =>
    simp only [List.map_nil, mergeFactors, Option.some.injEq, Prod.mk.injEq] at h
    obtain ⟨rfl, rfl⟩ := h
    exact ⟨by simp, keys, signs⟩
  | cons arg args ih =>
    have tail := fun other member => each other (List.mem_cons_of_mem arg member)
    simp only [List.map_cons] at h ⊢
    cases hsub : factorMultiset arg with
    | none => simp [hsub, mergeFactors] at h
    | some found =>
      obtain ⟨sub, subSign⟩ := found
      have head := each arg List.mem_cons_self sub subSign hsub
      rw [hsub, mergeFactors] at h
      rw [List.prod_cons]
      by_cases zero : subSign = 0
      · rw [if_pos zero, Option.some.injEq, Prod.mk.injEq] at h
        obtain ⟨rfl, rfl⟩ := h
        refine ⟨?_, by simp [Terms.Positive], .inl rfl⟩
        rw [head.value, zero]
        simp
      · rw [if_neg zero] at h
        obtain ⟨merged, positive⟩ := Terms.merge_spec head.keys keys
        have signs' : sign * subSign = 0 ∨ sign * subSign = 1 ∨ sign * subSign = -1 := by
          rcases signs with rfl | rfl | rfl <;> rcases head.sign_cases with h | h | h <;> simp [h]
        have rest := ih tail positive signs' h
        rw [merged] at rest
        convert rest using 1
        rw [head.value]
        push_cast
        ring

theorem powFactors_spec {b v : ℂ} {exp : ℤ} {base : Option (Terms × ℤ)} {terms : Terms} {sign : ℤ}
    (inner : ∀ sub subSign, base = some (sub, subSign) → Decomposes b sub subSign)
    (defined : power b exp = some v) (h : powFactors base exp = some (terms, sign)) :
    Decomposes v terms sign := by
  obtain ⟨rfl, nonneg⟩ := power_int defined
  unfold powFactors at h
  by_cases zero : exp = 0
  · rw [if_pos zero, Option.some.injEq, Prod.mk.injEq] at h
    obtain ⟨rfl, rfl⟩ := h
    exact ⟨by simp [zero], by simp [Terms.Positive], .inr (.inl rfl)⟩
  rw [if_neg zero] at h
  cases hbase : base with
  | none => simp [hbase] at h
  | some found =>
    obtain ⟨sub, subSign⟩ := found
    have source := inner sub subSign hbase
    simp only [hbase] at h
    by_cases signZero : subSign = 0
    · rw [if_pos signZero] at h
      have base_zero : b = 0 := by rw [source.value, signZero]; simp
      split at h
      case isTrue =>
        simp only [Option.some.injEq, Prod.mk.injEq] at h
        obtain ⟨rfl, rfl⟩ := h
        exact ⟨by simp [base_zero, zero_zpow exp zero], by simp [Terms.Positive], .inl rfl⟩
      case isFalse => cases h
    · rw [if_neg signZero, Option.some.injEq, Prod.mk.injEq] at h
      obtain ⟨rfl, rfl⟩ := h
      refine ⟨?_, Terms.positive_scale source.keys exp, ?_⟩
      · rw [source.value, mul_zpow, Terms.value_scale]
        congr 1
        rcases source.sign_cases with h | rfl | rfl
        · exact absurd h signZero
        · split <;> simp
        · split
          case isTrue even =>
            have even : Even exp := Int.even_iff.mpr even
            push_cast
            rw [even.neg_one_zpow]
          case isFalse odd =>
            have odd : Odd exp := Int.not_even_iff_odd.mp fun even => odd (Int.even_iff.mp even)
            push_cast
            rw [odd.neg_one_zpow]
      · split
        · exact .inr (.inl rfl)
        · exact source.sign_cases

theorem factorMultiset_spec (node : Node) : ∀ {terms : Terms} {sign : ℤ},
    factorMultiset node = some (terms, sign) → ∀ v, value node = some v →
      Decomposes v terms sign := by
  induction node using Node.induct with
  | integer n =>
    intro terms sign h v hv
    simp only [value, Option.some.injEq] at hv
    simp only [factorMultiset, Option.some.injEq] at h
    subst hv
    by_cases zero : n = 0
    · rw [if_pos zero, Prod.mk.injEq] at h
      obtain ⟨rfl, rfl⟩ := h
      exact ⟨by simp [zero], by simp [Terms.Positive], .inl rfl⟩
    · rw [if_neg zero, Prod.mk.injEq] at h
      obtain ⟨rfl, rfl⟩ := h
      have product : (n : ℂ) = (n.sign : ℂ) * (n.natAbs : ℂ) := by
        rw [← Int.cast_natCast, ← Int.cast_mul, Int.sign_mul_natAbs]
      refine ⟨?_, ?_, ?_⟩
      · split
        case isTrue one => rw [product, one]; simp
        case isFalse => rw [product]; simp
      · split
        · simp [Terms.Positive]
        · intro entry member
          rw [List.mem_singleton] at member
          rw [member]
          exact Int.natAbs_pos.mpr zero
      · rcases lt_trichotomy n 0 with neg | rfl | pos
        · exact .inr (.inr (Int.sign_eq_neg_one_of_neg neg))
        · exact absurd rfl zero
        · exact .inr (.inl (Int.sign_eq_one_of_pos pos))
  | rational q => simp [factorMultiset]
  | add args ih => simp [factorMultiset]
  | mul args ih =>
    intro terms sign h v hv
    obtain ⟨defined, rfl⟩ := value_mul hv
    rw [factorMultiset, factorMultisets_eq] at h
    have merged := mergeFactors_spec (fun arg member sub subSign hsub =>
      ih arg member hsub _ (defined arg member)) (by simp [Terms.Positive]) (.inr (.inl rfl)) h
    simpa using merged
  | power base exp ih =>
    intro terms sign h v hv
    obtain ⟨b, w, hb, hw, hpow⟩ := value_pow hv
    simp only [value, Option.some.injEq] at hw
    subst hw
    exact powFactors_spec (fun sub subSign hsub => ih hsub b hb) hpow h
  | compound base exp compound _ _ =>
    intro terms sign h
    rw [factorMultiset_compound compound] at h
    cases h

end Multiset

section Cancellation

theorem splitCoefficient_spec (terms : Terms) :
    terms.value = (splitCoefficient terms).1 * (splitCoefficient terms).2.value := by
  induction terms with
  | nil => simp [splitCoefficient]
  | cons entry rest ih =>
    rw [splitCoefficient, Terms.value_cons]
    split
    case isTrue small =>
      have power : (entry.1 : ℂ) ^ entry.2 = (entry.1 : ℂ) ^ entry.2.toNat := by
        rw [← zpow_natCast, Int.toNat_of_nonneg small.1.le]
      rw [power, ih]
      push_cast
      ring
    case isFalse =>
      rw [Terms.value_cons, ih]
      ring

variable {α : Type} {multiset : α → Option (Terms × ℤ)} {val : α → ℂ} {p : α → Prop}

/-- Every member of the group comes from the sum and is its coefficient times the key. -/
def Group.Fits (val : α → ℂ) (p : α → Prop) (group : Group α) : Prop :=
  ∀ member ∈ group.members, p member.2 ∧ val member.2 = member.1 * group.key.value

def Group.total (val : α → ℂ) (group : Group α) : ℂ := (group.members.map fun m => val m.2).sum

def sortedTotal (val : α → ℂ) (sorted : List α × List (Group α)) : ℂ :=
  (sorted.1.map val).sum + (sorted.2.map (Group.total val)).sum

theorem addMember_spec {key : Terms} (member : ℤ × α) {groups : List (Group α)}
    (fits : ∀ group ∈ groups, group.Fits val p)
    (h : p member.2 ∧ val member.2 = member.1 * key.value) :
    (∀ group ∈ addMember key member groups, group.Fits val p) ∧
      ((addMember key member groups).map (Group.total val)).sum =
        (groups.map (Group.total val)).sum + val member.2 := by
  induction groups with
  | nil =>
    refine ⟨?_, by simp [addMember, Group.total]⟩
    intro group found
    rw [addMember, List.mem_singleton] at found
    subst found
    simpa [Group.Fits] using h
  | cons group groups ih =>
    have tail := fun other found => fits other (List.mem_cons_of_mem group found)
    have head := fits group List.mem_cons_self
    rw [addMember]
    split
    case isTrue same =>
      refine ⟨?_, by simp [Group.total]; ring⟩
      intro other found
      rcases List.mem_cons.mp found with rfl | found
      · intro inside hinside
        rcases List.mem_append.mp hinside with hinside | hinside
        · exact head inside hinside
        · rw [List.mem_singleton] at hinside
          rw [hinside, h.2, Terms.value_perm same]
          exact ⟨h.1, rfl⟩
      · exact tail other found
    case isFalse =>
      obtain ⟨fits', total'⟩ := ih tail
      refine ⟨?_, by simp only [List.map_cons, List.sum_cons, total']; ring⟩
      intro other found
      rcases List.mem_cons.mp found with rfl | found
      · exact head
      · exact fits' other found

/-- What sorting the terms keeps true, term by term. -/
structure Sorted (val : α → ℂ) (p : α → Prop) (total : ℂ) (sorted : List α × List (Group α)) :
    Prop where
  kept : ∀ arg ∈ sorted.1, p arg
  grouped : ∀ group ∈ sorted.2, group.Fits val p
  total_eq : sortedTotal val sorted = total

theorem sortTerm_spec {sorted : List α × List (Group α)} {total : ℂ} (arg : α) (here : p arg)
    (exactly : ∀ terms sign, multiset arg = some (terms, sign) → Decomposes (val arg) terms sign)
    (h : Sorted val p total sorted) :
    Sorted val p (total + val arg) (sortTerm multiset sorted arg) := by
  unfold sortTerm
  cases hmultiset : multiset arg with
  | none =>
    refine ⟨?_, h.grouped, ?_⟩
    · simpa [or_imp, forall_and] using ⟨h.kept, here⟩
    · rw [← h.total_eq]
      simp [sortedTotal]
      ring
  | some found =>
    obtain ⟨terms, sign⟩ := found
    have source := exactly terms sign hmultiset
    dsimp only
    split
    case isTrue zero =>
      have vanishes : val arg = 0 := by rw [source.value, zero]; simp
      rw [vanishes, add_zero]
      exact h
    case isFalse =>
      have coefficient : val arg = ((sign * (splitCoefficient terms).1 : ℤ) : ℂ) *
          (splitCoefficient terms).2.value := by
        rw [source.value, splitCoefficient_spec terms]
        push_cast
        ring
      obtain ⟨fits, total'⟩ := addMember_spec (sign * (splitCoefficient terms).1, arg) h.grouped
        ⟨here, coefficient⟩
      refine ⟨h.kept, fits, ?_⟩
      rw [← h.total_eq, sortedTotal, sortedTotal, total']
      ring

theorem sortTerms_spec (args : List α) (sorted : List α × List (Group α)) {total : ℂ}
    (all : ∀ arg ∈ args, p arg)
    (each : ∀ arg ∈ args, ∀ terms sign, multiset arg = some (terms, sign) →
      Decomposes (val arg) terms sign)
    (h : Sorted val p total sorted) :
    Sorted val p (total + (args.map val).sum) (args.foldl (sortTerm multiset) sorted) := by
  induction args generalizing sorted total with
  | nil => simpa using h
  | cons arg args ih =>
    have step := sortTerm_spec arg (all arg List.mem_cons_self) (each arg List.mem_cons_self) h
    have rest := ih _ (fun other member => all other (List.mem_cons_of_mem _ member))
      (fun other member => each other (List.mem_cons_of_mem _ member)) step
    simpa [add_assoc] using rest

/-- What is dropped adds up to nothing. -/
theorem cancel_spec {args : List α} (each : ∀ arg ∈ args, ∀ terms sign,
    multiset arg = some (terms, sign) → Decomposes (val arg) terms sign) :
    ((cancelAdditiveInverses multiset args).map val).sum = (args.map val).sum ∧
      ∀ arg ∈ cancelAdditiveInverses multiset args, arg ∈ args := by
  have start : Sorted val (· ∈ args) 0 (([], []) : List α × List (Group α)) :=
    ⟨by simp, by simp, by simp [sortedTotal]⟩
  obtain ⟨kept, grouped, total⟩ := sortTerms_spec args _ (fun _ member => member) each start
  rw [zero_add] at total
  rw [← total, cancelAdditiveInverses, sortedTotal]
  generalize args.foldl (sortTerm multiset) ([], []) = sorted at kept grouped
  constructor
  · rw [List.map_append, List.sum_append]
    congr 1
    clear kept total
    generalize sorted.2 = groups at grouped
    induction groups with
    | nil => simp
    | cons group groups ih =>
      have rest := ih fun other found => grouped other (List.mem_cons_of_mem _ found)
      rw [List.filter_cons]
      split
      case isTrue =>
        rw [List.flatMap_cons, List.map_append, List.sum_append, rest, List.map_cons,
          List.sum_cons, Group.total, List.map_map]
        rfl
      case isFalse zero =>
        have zero : (group.members.map Prod.fst).sum = 0 := by simpa using zero
        have scaled : Group.total val group =
            ((group.members.map Prod.fst).sum : ℂ) * group.key.value := by
          have head := fun member found => (grouped group List.mem_cons_self member found).2
          unfold Group.total
          rw [List.map_congr_left head, Int.cast_list_sum, List.map_map, ← List.sum_map_mul_right]
          rfl
        rw [rest, List.map_cons, List.sum_cons, scaled, zero]
        simp
  · intro arg found
    rcases List.mem_append.mp found with found | found
    · exact kept arg found
    · obtain ⟨group, hgroup, found⟩ := List.mem_flatMap.mp found
      obtain ⟨member, hmember, rfl⟩ := List.mem_map.mp found
      exact (grouped group (List.mem_of_mem_filter hgroup) member hmember).1

end Cancellation
end CodeCalc.SafeExpr
