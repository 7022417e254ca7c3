import Mathlib.Algebra.BigOperators.Group.Multiset.Basic
import Mathlib.Algebra.Order.BigOperators.Group.Finset
import Mathlib.Data.Finset.Powerset
import Mathlib.Data.Rat.Defs
import Mathlib.Tactic.Linarith
import Mathlib.Tactic.LinearCombination
import Mathlib.Tactic.Ring

/-! Rank sums of two samples: the arrangements of distinct ranks counted by the
pairs they order, and the sum of mean ranks where values are tied. -/
namespace CodeCalc.Lib.RankSum
open Finset

section Arrangements

variable {n m u : ℕ} {chosen : Finset ℕ}

/-- The pairs of a chosen rank below `n` and one that is not, the chosen above. -/
def statistic (n : ℕ) (chosen : Finset ℕ) : ℕ :=
  ((chosen ×ˢ (range n \ chosen)).filter fun pair => pair.2 < pair.1).card

/-- The choices of `n` ranks among `n + m`. -/
def arrangements (n m : ℕ) : Finset (Finset ℕ) := (range (n + m)).powersetCard n

def occurrences (n m u : ℕ) : ℕ :=
  ((arrangements n m).filter fun chosen => statistic (n + m) chosen = u).card

/-- A rank above all others that is not chosen is above no chosen one. -/
theorem statistic_succ (below : chosen ⊆ range n) : statistic (n + 1) chosen = statistic n chosen := by
  apply congrArg card
  ext pair
  simp only [mem_filter, mem_product, mem_sdiff, mem_range]
  constructor
  · rintro ⟨⟨first, second, out⟩, less⟩
    have := mem_range.mp (below first)
    exact ⟨⟨first, by omega, out⟩, less⟩
  · rintro ⟨⟨first, second, out⟩, less⟩
    exact ⟨⟨first, by omega, out⟩, less⟩

/-- A chosen rank above all others is above each one that is not chosen. -/
theorem statistic_insert (below : chosen ⊆ range n) :
    statistic (n + 1) (insert n chosen) = statistic n chosen + (n - chosen.card) := by
  have fresh : n ∉ chosen := fun member => Nat.lt_irrefl n (mem_range.mp (below member))
  have parts : ((insert n chosen ×ˢ (range (n + 1) \ insert n chosen)).filter
      fun pair => pair.2 < pair.1) =
      ((chosen ×ˢ (range n \ chosen)).filter fun pair => pair.2 < pair.1) ∪
        ((range n \ chosen).image fun other => (n, other)) := by
    ext pair
    simp only [mem_filter, mem_product, mem_sdiff, mem_range, mem_insert, mem_union, mem_image]
    constructor
    · rintro ⟨⟨same | first, second, out⟩, less⟩
      · exact .inr ⟨pair.2, ⟨by omega, fun member => out (.inr member)⟩, by rw [← same]⟩
      · have := mem_range.mp (below first)
        exact .inl ⟨⟨first, by omega, fun member => out (.inr member)⟩, less⟩
    · rintro (⟨⟨first, second, out⟩, less⟩ | ⟨other, ⟨second, out⟩, rfl⟩)
      · exact ⟨⟨.inr first, by omega, by rintro (same | member); omega; exact out member⟩, less⟩
      · exact ⟨⟨.inl rfl, by omega, by rintro (same | member); omega; exact out member⟩, second⟩
  have apart : Disjoint ((chosen ×ˢ (range n \ chosen)).filter fun pair => pair.2 < pair.1)
      ((range n \ chosen).image fun other => (n, other)) := by
    rw [disjoint_left]
    rintro pair first second
    obtain ⟨other, -, rfl⟩ := mem_image.mp second
    exact fresh (mem_product.mp (mem_filter.mp first).1).1
  rw [statistic, parts, card_union_of_disjoint apart,
    card_image_of_injective _ fun _ _ same => (Prod.mk.inj same).2, card_sdiff_of_subset below, card_range]
  rfl

theorem occurrences_zero_left : occurrences 0 m u = if u = 0 then 1 else 0 := by
  have none : statistic (0 + m) ∅ = 0 := by simp [statistic]
  rw [occurrences, arrangements, powersetCard_zero, filter_singleton, none]
  by_cases zero : u = 0
  · rw [if_pos zero.symm, if_pos zero, card_singleton]
  · rw [if_neg fun same => zero same.symm, if_neg zero, card_empty]

theorem occurrences_zero_right : occurrences n 0 u = if u = 0 then 1 else 0 := by
  have all : (range (n + 0)).powersetCard n = {range n} := by
    simpa using powersetCard_self (range n)
  have none : statistic (n + 0) (range n) = 0 := by simp [statistic]
  rw [occurrences, arrangements, all, filter_singleton, none]
  by_cases zero : u = 0
  · rw [if_pos zero.symm, if_pos zero, card_singleton]
  · rw [if_neg fun same => zero same.symm, if_neg zero, card_empty]

/-- The largest rank is chosen, and above all that are not, or it is not. -/
theorem occurrences_succ : occurrences (n + 1) (m + 1) u =
    (if m + 1 ≤ u then occurrences n (m + 1) (u - (m + 1)) else 0) + occurrences (n + 1) m u := by
  have size : n + 1 + (m + 1) = n + (m + 1) + 1 := by omega
  have other : n + 1 + m = n + (m + 1) := by omega
  have parts : arrangements (n + 1) (m + 1) =
      (range (n + (m + 1))).powersetCard (n + 1) ∪
        (arrangements n (m + 1)).image (insert (n + (m + 1))) := by
    rw [arrangements, size, range_add_one, powersetCard_succ_insert notMem_range_self]
    rfl
  have without : ((range (n + (m + 1))).powersetCard (n + 1)).filter
      (fun chosen => statistic (n + (m + 1) + 1) chosen = u) =
      (arrangements (n + 1) m).filter fun chosen => statistic (n + 1 + m) chosen = u := by
    rw [arrangements, other]
    apply filter_congr
    intro chosen member
    rw [statistic_succ (mem_powersetCard.mp member).1]
  have with_ : ((arrangements n (m + 1)).image (insert (n + (m + 1)))).filter
      (fun chosen => statistic (n + (m + 1) + 1) chosen = u) =
      ((arrangements n (m + 1)).filter
        fun chosen => statistic (n + (m + 1)) chosen + (m + 1) = u).image (insert (n + (m + 1))) := by
    rw [filter_image]
    congr 1
    apply filter_congr
    intro chosen member
    obtain ⟨below, card⟩ := mem_powersetCard.mp member
    rw [statistic_insert below, card, Nat.add_sub_cancel_left]
  have injective : Set.InjOn (insert (n + (m + 1)))
      (((arrangements n (m + 1)).filter
        fun chosen => statistic (n + (m + 1)) chosen + (m + 1) = u : Finset (Finset ℕ)) :
          Set (Finset ℕ)) := by
    intro left first right second same
    have fresh {chosen : Finset ℕ} (member : chosen ∈ (arrangements n (m + 1)).filter
        fun chosen => statistic (n + (m + 1)) chosen + (m + 1) = u) : n + (m + 1) ∉ chosen := by
      intro inside
      have below := (mem_powersetCard.mp (mem_filter.mp member).1).1 inside
      exact Nat.lt_irrefl _ (mem_range.mp below)
    rw [← erase_insert (fresh first), same, erase_insert (fresh second)]
  have apart : Disjoint
      (((range (n + (m + 1))).powersetCard (n + 1)).filter
        fun chosen => statistic (n + (m + 1) + 1) chosen = u)
      (((arrangements n (m + 1)).image (insert (n + (m + 1)))).filter
        fun chosen => statistic (n + (m + 1) + 1) chosen = u) := by
    rw [disjoint_left]
    intro chosen first second
    obtain ⟨smaller, -, rfl⟩ := mem_image.mp (mem_filter.mp second).1
    have below := (mem_powersetCard.mp (mem_filter.mp first).1).1 (mem_insert_self _ _)
    exact Nat.lt_irrefl _ (mem_range.mp below)
  rw [occurrences, parts, size, filter_union, card_union_of_disjoint apart, without, with_,
    card_image_of_injOn injective, Nat.add_comm]
  congr 1
  split
  · rw [occurrences]
    congr 1
    apply filter_congr
    intro chosen _
    omega
  · rw [card_eq_zero, filter_eq_empty_iff]
    intro chosen _
    omega

theorem statistic_le (below : chosen ⊆ range n) :
    statistic n chosen ≤ chosen.card * (n - chosen.card) := by
  calc statistic n chosen ≤ (chosen ×ˢ (range n \ chosen)).card := card_filter_le _ _
    _ = chosen.card * (n - chosen.card) := by
        rw [card_product, card_sdiff_of_subset below, card_range]

theorem statistic_le_mul (member : chosen ∈ arrangements n m) : statistic (n + m) chosen ≤ n * m := by
  obtain ⟨below, card⟩ := mem_powersetCard.mp member
  have bound := statistic_le below
  rwa [card, Nat.add_sub_cancel_left] at bound

theorem occurrences_eq_zero (large : n * m < u) : occurrences n m u = 0 := by
  rw [occurrences, card_eq_zero, filter_eq_empty_iff]
  intro chosen member same
  have := statistic_le_mul member
  omega

/-- Every arrangement has one statistic. -/
theorem sum_occurrences : ∑ u ∈ range (n * m + 1), occurrences n m u = (n + m).choose n := by
  have total : (arrangements n m).card = (n + m).choose n := by
    rw [arrangements, card_powersetCard, card_range]
  rw [← total]
  symm
  apply card_eq_sum_card_fiberwise
  intro chosen member
  exact mem_coe.mpr (mem_range.mpr (Nat.lt_succ_of_le (statistic_le_mul member)))

theorem sum_occurrences_filter (allowed : ℕ → Prop) [DecidablePred allowed] :
    ∑ u ∈ (range (n * m + 1)).filter allowed, occurrences n m u =
      ((arrangements n m).filter fun chosen => allowed (statistic (n + m) chosen)).card := by
  have fibers := card_eq_sum_card_fiberwise (f := statistic (n + m))
    (s := (arrangements n m).filter fun chosen => allowed (statistic (n + m) chosen))
    (t := (range (n * m + 1)).filter allowed) fun chosen member => by
      obtain ⟨inside, fine⟩ := mem_filter.mp member
      exact mem_coe.mpr (mem_filter.mpr ⟨mem_range.mpr (Nat.lt_succ_of_le (statistic_le_mul inside)), fine⟩)
  rw [fibers]
  apply sum_congr rfl
  intro u member
  rw [occurrences, filter_filter]
  congr 1
  apply filter_congr
  intro chosen _
  constructor
  · intro same
    exact ⟨same ▸ (mem_filter.mp member).2, same⟩
  · exact And.right

/-- The ranks read from the other end. -/
def mirrored (n : ℕ) (chosen : Finset ℕ) : Finset ℕ := chosen.image fun rank => n - 1 - rank

theorem mem_mirrored {rank : ℕ} (below : chosen ⊆ range n) (small : rank < n) :
    rank ∈ mirrored n chosen ↔ n - 1 - rank ∈ chosen := by
  rw [mirrored, mem_image]
  constructor
  · rintro ⟨other, member, same⟩
    have := mem_range.mp (below member)
    have back : n - 1 - rank = other := by omega
    rwa [back]
  · intro member
    exact ⟨n - 1 - rank, member, by omega⟩

theorem mirrored_subset (below : chosen ⊆ range n) : mirrored n chosen ⊆ range n := by
  intro rank member
  obtain ⟨other, inside, rfl⟩ := mem_image.mp member
  have := mem_range.mp (below inside)
  exact mem_range.mpr (by omega)

theorem mirrored_mirrored (below : chosen ⊆ range n) : mirrored n (mirrored n chosen) = chosen := by
  ext rank
  by_cases small : rank < n
  · rw [mem_mirrored (mirrored_subset below) small, mem_mirrored below (by omega)]
    have back : n - 1 - (n - 1 - rank) = rank := by omega
    rw [back]
  · constructor
    · intro member
      exact absurd (mem_range.mp (mirrored_subset (mirrored_subset below) member)) small
    · intro member
      exact absurd (mem_range.mp (below member)) small

theorem card_mirrored (below : chosen ⊆ range n) : (mirrored n chosen).card = chosen.card := by
  apply card_image_of_injOn
  intro left first right second same
  have := mem_range.mp (below first)
  have := mem_range.mp (below second)
  dsimp only at same
  omega

/-- A pair is in order from exactly one end. -/
theorem statistic_mirrored (below : chosen ⊆ range n) :
    statistic n chosen + statistic n (mirrored n chosen) = chosen.card * (n - chosen.card) := by
  have flipped : statistic n (mirrored n chosen) =
      ((chosen ×ˢ (range n \ chosen)).filter fun pair => ¬pair.2 < pair.1).card := by
    apply card_nbij' (fun pair => (n - 1 - pair.1, n - 1 - pair.2))
      (fun pair => (n - 1 - pair.1, n - 1 - pair.2))
    · intro pair member
      obtain ⟨sides, less⟩ := mem_filter.mp member
      obtain ⟨first, second⟩ := mem_product.mp sides
      obtain ⟨inRange, out⟩ := mem_sdiff.mp second
      have low := mem_range.mp (mirrored_subset below first)
      have high := mem_range.mp inRange
      rw [mem_mirrored below low] at first
      rw [mem_mirrored below high] at out
      have less : pair.2 < pair.1 := less
      refine mem_coe.mpr (mem_filter.mpr ⟨mem_product.mpr ⟨first, mem_sdiff.mpr ⟨?_, out⟩⟩, ?_⟩)
      · exact mem_range.mpr (by dsimp only; omega)
      · dsimp only
        omega
    · intro pair member
      obtain ⟨sides, less⟩ := mem_filter.mp member
      obtain ⟨first, second⟩ := mem_product.mp sides
      obtain ⟨inRange, out⟩ := mem_sdiff.mp second
      have low := mem_range.mp (below first)
      have high := mem_range.mp inRange
      have apart : pair.1 ≠ pair.2 := fun same => out (same ▸ first)
      have less : ¬pair.2 < pair.1 := less
      have here : n - 1 - (n - 1 - pair.1) = pair.1 := by omega
      have there : n - 1 - (n - 1 - pair.2) = pair.2 := by omega
      refine mem_coe.mpr (mem_filter.mpr ⟨mem_product.mpr ⟨?_, mem_sdiff.mpr ⟨?_, ?_⟩⟩, ?_⟩)
      · dsimp only
        rwa [mem_mirrored below (by omega), here]
      · exact mem_range.mpr (by dsimp only; omega)
      · dsimp only
        rwa [mem_mirrored below (by omega), there]
      · dsimp only
        omega
    · intro pair member
      obtain ⟨first, second⟩ := mem_product.mp (mem_filter.mp member).1
      have low := mem_range.mp (mirrored_subset below first)
      have high := mem_range.mp (mem_sdiff.mp second).1
      apply Prod.ext <;> dsimp only <;> omega
    · intro pair member
      obtain ⟨first, second⟩ := mem_product.mp (mem_filter.mp member).1
      have low := mem_range.mp (below first)
      have high := mem_range.mp (mem_sdiff.mp second).1
      apply Prod.ext <;> dsimp only <;> omega
  rw [flipped, statistic, card_filter_add_card_filter_not, card_product, card_sdiff_of_subset below,
    card_range]

theorem mirrored_mem (member : chosen ∈ arrangements n m) : mirrored (n + m) chosen ∈ arrangements n m := by
  obtain ⟨below, card⟩ := mem_powersetCard.mp member
  exact mem_powersetCard.mpr ⟨mirrored_subset below, (card_mirrored below).trans card⟩

theorem occurrences_symm (small : u ≤ n * m) : occurrences n m (n * m - u) = occurrences n m u := by
  have turn {chosen : Finset ℕ} (member : chosen ∈ arrangements n m) :
      statistic (n + m) chosen + statistic (n + m) (mirrored (n + m) chosen) = n * m := by
    obtain ⟨below, card⟩ := mem_powersetCard.mp member
    rw [statistic_mirrored below, card, Nat.add_sub_cancel_left]
  apply card_nbij' (mirrored (n + m)) (mirrored (n + m))
  · intro chosen member
    obtain ⟨inside, same⟩ := mem_filter.mp member
    have := turn inside
    exact mem_coe.mpr (mem_filter.mpr ⟨mirrored_mem inside, by omega⟩)
  · intro chosen member
    obtain ⟨inside, same⟩ := mem_filter.mp member
    have := turn inside
    exact mem_coe.mpr (mem_filter.mpr ⟨mirrored_mem inside, by omega⟩)
  · intro chosen member
    exact mirrored_mirrored (mem_powersetCard.mp (mem_filter.mp member).1).1
  · intro chosen member
    exact mirrored_mirrored (mem_powersetCard.mp (mem_filter.mp member).1).1

end Arrangements

section MeanRanks

variable {α : Type} [LinearOrder α] {left right values : List α} {value other : α}

/-- The rank of a value, from 1; tied values share the mean of theirs. -/
def meanRank (values : List α) (value : α) : ℚ :=
  values.countP (fun other => decide (other < value)) +
    (values.countP (fun other => decide (other = value)) + 1) / 2

def wins (left right : List α) : ℕ :=
  (left ×ˢ right).countP fun pair => decide (pair.2 < pair.1)

def ties (left right : List α) : ℕ :=
  (left ×ˢ right).countP fun pair => decide (pair.2 = pair.1)

/-- What a pair adds: one when the first value is above, one half when tied. -/
def share (value other : α) : ℚ := if other < value then 1 else if other = value then 1 / 2 else 0

theorem share_add_share (value other : α) : share value other + share other value = 1 := by
  rcases lt_trichotomy value other with less | same | greater
  · simp [share, less, less.not_gt, less.ne']
  · subst same
    simp [share]
    norm_num
  · simp [share, greater, greater.not_gt, greater.ne']

theorem sum_share (values : List α) (value : α) :
    (values.map (share value)).sum = values.countP (fun other => decide (other < value)) +
      (values.countP (fun other => decide (other = value)) : ℚ) / 2 := by
  induction values with
  | nil => simp
  | cons first rest ih =>
    rw [List.map_cons, List.sum_cons, ih, List.countP_cons, List.countP_cons]
    rcases lt_trichotomy first value with less | same | greater
    · simp [share, less, less.ne]
      ring
    · subst same
      simp [share]
      ring
    · simp [share, greater.not_gt, greater.ne']

theorem meanRank_eq (values : List α) (value : α) :
    meanRank values value = (values.map (share value)).sum + 1 / 2 := by
  rw [sum_share, meanRank]
  ring

/-- Among themselves the values win half of all pairs. -/
theorem sum_share_self (values : List α) :
    (values.map fun value => (values.map (share value)).sum).sum = (values.length : ℚ) ^ 2 / 2 := by
  induction values with
  | nil => simp
  | cons first rest ih =>
    have split : (rest.map fun value => ((first :: rest).map (share value)).sum).sum =
        (rest.map fun value => share value first).sum +
          (rest.map fun value => (rest.map (share value)).sum).sum := by
      rw [← List.sum_map_add]
      rfl
    have across : (rest.map fun value => share value first).sum + (rest.map (share first)).sum =
        rest.length := by
      rw [← List.sum_map_add]
      simp [share_add_share]
    have own : share first first = 1 / 2 := by simp [share]
    rw [List.map_cons, List.sum_cons, split, ih, List.map_cons, List.sum_cons, own, List.length_cons]
    push_cast
    linear_combination across

theorem sum_share_product (left right : List α) :
    (left.map fun value => (right.map (share value)).sum).sum = wins left right + ties left right / 2 := by
  induction left with
  | nil => simp [wins, ties]
  | cons first rest ih =>
    have more : wins (first :: rest) right =
        right.countP (fun other => decide (other < first)) + wins rest right := by
      rw [wins, List.product_cons, List.countP_append, List.countP_map]
      rfl
    have tied : ties (first :: rest) right =
        right.countP (fun other => decide (other = first)) + ties rest right := by
      rw [ties, List.product_cons, List.countP_append, List.countP_map]
      rfl
    rw [List.map_cons, List.sum_cons, ih, sum_share, more, tied]
    push_cast
    ring

theorem sum_meanRank (left right : List α) :
    (left.map (meanRank (left ++ right))).sum =
      left.length * (left.length + 1) / 2 + (wins left right + ties left right / 2 : ℚ) := by
  have parts (value : α) : meanRank (left ++ right) value =
      (left.map (share value)).sum + ((right.map (share value)).sum + 1 / 2) := by
    rw [meanRank_eq, List.map_append, List.sum_append]
    ring
  calc (left.map (meanRank (left ++ right))).sum
      = (left.map fun value => (left.map (share value)).sum).sum +
          ((left.map fun value => (right.map (share value)).sum).sum +
            (left.map fun _ => (1 / 2 : ℚ)).sum) := by
        rw [← List.sum_map_add, ← List.sum_map_add]
        exact congrArg List.sum (List.map_congr_left fun value _ => parts value)
    _ = left.length * (left.length + 1) / 2 + (wins left right + ties left right / 2 : ℚ) := by
        rw [sum_share_self, sum_share_product, List.map_const', List.sum_replicate, nsmul_eq_mul]
        ring

end MeanRanks

end CodeCalc.Lib.RankSum
