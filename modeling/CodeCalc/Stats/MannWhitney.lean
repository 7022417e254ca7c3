import Mathlib.Data.List.GetD
import Mathlib.Data.List.TakeWhile
import CodeCalc.Lib.Double
import CodeCalc.Lib.RankSum

/-! The rank test of `stats.py`: mean ranks of the joined sample, the table of
exact counts and the tails taken from it.  Ranks and their sums are multiples of
one half, so they stand here as the rationals they are; a quotient is rounded. -/
namespace CodeCalc.Stats
open Lib Lib.RankSum

section Program

variable {α : Type} [LinearOrder α]

/-- `order`, each index with the value it is sorted by. -/
def order (xs : List α) : List (α × ℕ) :=
  xs.zipIdx.mergeSort fun left right => decide (left.1 ≤ right.1)

/-- The loop of `_ranks_with_ties` from position `i` of `order` on. -/
def rankLoop (i : ℕ) (rest : List (α × ℕ)) (ranks : List ℚ) (tieSizes : List ℕ) :
    List ℚ × List ℕ :=
  match rest with
  | [] => (ranks, tieSizes)
  | first :: more =>
      let run := more.takeWhile fun entry => decide (entry.1 = first.1)
      let j := i + run.length
      let avgRank : ℚ := (i + j : ℕ) / 2 + 1
      rankLoop (j + 1) (more.dropWhile fun entry => decide (entry.1 = first.1))
        ((first :: run).foldl (fun ranks entry => ranks.set entry.2 avgRank) ranks)
        (tieSizes ++ [j - i + 1])
  termination_by rest.length
  decreasing_by exact Nat.lt_succ_of_le (List.dropWhile_suffix _).length_le

def ranksWithTies (xs : List α) : List ℚ × List ℕ :=
  rankLoop 0 (order xs) (List.replicate xs.length 0) []

/-- A loop of `_exact_u_counts` over the counts of a smaller table. -/
def addCounts (admits : ℕ → ℕ → Bool) (shift : ℕ) (total counts : List ℕ) : List ℕ :=
  counts.zipIdx.foldl (fun total entry =>
    if admits entry.1 entry.2 then total.modify (entry.2 + shift) (· + entry.1) else total) total

def exactUCounts : ℕ → ℕ → List ℕ
  | 0, _ => [1]
  | _ + 1, 0 => [1]
  | n1 + 1, n2 + 1 =>
      let total := List.replicate ((n1 + 1) * (n2 + 1) + 1) 0
      let total := addCounts (fun count _ => decide (count ≠ 0)) (n2 + 1) total (exactUCounts n1 (n2 + 1))
      addCounts (fun _ u => decide (u ≤ (n1 + 1) * (n2 + 1))) 0 total (exactUCounts (n1 + 1) n2)
  termination_by n1 n2 => n1 + n2

/-- `counts[:stop]`. -/
def sliceTo (counts : List ℕ) (stop : ℤ) : List ℕ :=
  counts.take (if stop < 0 then (counts.length + stop).toNat else stop.toNat)

/-- `counts[start:]`. -/
def sliceFrom (counts : List ℕ) (start : ℤ) : List ℕ :=
  counts.drop (if start < 0 then (counts.length + start).toNat else start.toNat)

inductive Side where
  | less
  | greater
  deriving DecidableEq

def Side.name : Side → String
  | less => "less"
  | greater => "greater"

def exactP (u1 : ℚ) (n1 n2 : ℕ) (side : Side) : ℚ :=
  let counts := exactUCounts n1 n2
  let uInt := roundHalfEven u1
  let tail := match side with
    | .less => (sliceTo counts (uInt + 1)).sum
    | .greater => (sliceFrom counts uInt).sum
  min 1 (divideInts tail ((n1 + n2).choose n1))

/-- What `mann_whitney_u` returns. -/
structure Result where
  u : ℚ
  pValue : ℚ
  n1 : ℕ
  n2 : ℕ
  method : String
  alternative : String

def exactMaxN : ℕ := 20

/-- `mann_whitney_u`.  `normalP` is `_normal_p`, whose arithmetic is all floating
point, and `repr` is Python's. -/
def mannWhitneyU (repr : String → String) (normalP : ℚ → ℕ → ℕ → List ℕ → Side → ℚ)
    (sample1 sample2 : List α) (alternative : String) : Except String Result :=
  if alternative ∉ ["less", "greater", "two-sided"] then
    .error ("alternative must be 'less', 'greater', or 'two-sided', got " ++ repr alternative)
  else
    let n1 := sample1.length
    let n2 := sample2.length
    if n1 < 1 ∨ n2 < 1 then .error "need at least 1 observation per sample"
    else
      let combined := sample1 ++ sample2
      let (ranks, tieSizes) := ranksWithTies combined
      let r1 := (ranks.take n1).sum
      let u1 := r1 - (n1 * (n1 + 1) : ℕ) / 2
      let hasTies := decide (tieSizes.length < combined.length)
      let exact_ := !hasTies && decide (n1 + n2 ≤ exactMaxN)
      let tail := fun side =>
        if exact_ then exactP u1 n1 n2 side else normalP u1 n1 n2 tieSizes side
      let p :=
        if alternative = "two-sided" then min 1 (2 * min (tail .less) (tail .greater))
        else if alternative = "less" then tail .less
        else tail .greater
      .ok { u := u1, pValue := p, n1, n2,
            method := if exact_ then "exact" else "normal_approximation", alternative }

end Program

section Writes

variable {α : Type}

theorem foldl_set (rank : ℚ) (entries : List (α × ℕ)) (ranks : List ℚ) (position : ℕ) :
    (entries.foldl (fun ranks entry => ranks.set entry.2 rank) ranks)[position]? =
      if position ∈ entries.map Prod.snd ∧ position < ranks.length then some rank
      else ranks[position]? := by
  induction entries generalizing ranks with
  | nil => simp
  | cons entry rest ih =>
    rw [List.foldl_cons, ih, List.length_set, List.getElem?_set]
    by_cases here : entry.2 = position
    · by_cases inside : position < ranks.length <;> simp [here, inside]
    · have other : position ≠ entry.2 := Ne.symm here
      simp only [List.map_cons, List.mem_cons, other, false_or, here, if_false]

theorem length_foldl_set (rank : ℚ) (entries : List (α × ℕ)) (ranks : List ℚ) :
    (entries.foldl (fun ranks entry => ranks.set entry.2 rank) ranks).length = ranks.length := by
  induction entries generalizing ranks with
  | nil => rfl
  | cons entry rest ih => rw [List.foldl_cons, ih, List.length_set]

end Writes

section Ranks

variable {α : Type} [LinearOrder α] {xs : List α}

theorem lt_of_mem_dropWhile {value : α} {more : List (α × ℕ)}
    (sorted : more.Pairwise fun left right => left.1 ≤ right.1) (least : ∀ entry ∈ more, value ≤ entry.1) :
    ∀ entry ∈ more.dropWhile (fun entry => decide (entry.1 = value)), value < entry.1 := by
  induction more with
  | nil => simp
  | cons first rest ih =>
    obtain ⟨below, sorted⟩ := List.pairwise_cons.mp sorted
    by_cases same : first.1 = value
    · rw [List.dropWhile_cons_of_pos (by simpa using same)]
      exact ih sorted fun entry member => least entry (List.mem_cons_of_mem _ member)
    · rw [List.dropWhile_cons_of_neg (by simpa using same)]
      have above : value < first.1 := lt_of_le_of_ne (least first List.mem_cons_self) (Ne.symm same)
      intro entry member
      rcases List.mem_cons.mp member with here | later
      · exact here ▸ above
      · exact above.trans_le (below entry later)

/-- What the loop has done so far, and what it still has to do. -/
structure Ranking (xs : List α) (i : ℕ) (front rest : List (α × ℕ)) : Prop where
  all : ((front ++ rest).map Prod.fst).Perm xs
  position : front.length = i
  apart : ∀ before ∈ front, ∀ entry ∈ rest, before.1 < entry.1
  sorted : rest.Pairwise fun left right => left.1 ≤ right.1
  distinct : (rest.map Prod.snd).Nodup

theorem Ranking.meanRank_eq {i : ℕ} {front run later : List (α × ℕ)} {first : α × ℕ}
    (ranking : Ranking xs i front (first :: (run ++ later)))
    (same : ∀ entry ∈ run, entry.1 = first.1) (above : ∀ entry ∈ later, first.1 < entry.1) :
    meanRank xs first.1 = ((i + (i + run.length) : ℕ) : ℚ) / 2 + 1 := by
  have front_below (entry : α × ℕ) (member : entry ∈ front) : entry.1 < first.1 :=
    ranking.apart entry member first List.mem_cons_self
  have smaller : xs.countP (fun other => decide (other < first.1)) = i := by
    have counted : front.countP ((fun other => decide (other < first.1)) ∘ Prod.fst) = front.length :=
      List.countP_eq_length.mpr fun entry member => decide_eq_true (front_below entry member)
    have none : (first :: (run ++ later)).countP
        ((fun other => decide (other < first.1)) ∘ Prod.fst) = 0 := by
      rw [List.countP_eq_zero]
      intro entry member
      have least : first.1 ≤ entry.1 := by
        rcases List.mem_cons.mp member with here | behind
        · exact here ▸ le_refl _
        · exact List.rel_of_pairwise_cons ranking.sorted behind
      simpa using least
    rw [← ranking.all.countP_eq, List.countP_map, List.countP_append, counted, none,
      ranking.position, Nat.add_zero]
  have tied : xs.countP (fun other => decide (other = first.1)) = run.length + 1 := by
    have none : front.countP ((fun other => decide (other = first.1)) ∘ Prod.fst) = 0 := by
      rw [List.countP_eq_zero]
      intro entry member
      simpa using (front_below entry member).ne
    have all : run.countP ((fun other => decide (other = first.1)) ∘ Prod.fst) = run.length :=
      List.countP_eq_length.mpr fun entry member => decide_eq_true (same entry member)
    have past : later.countP ((fun other => decide (other = first.1)) ∘ Prod.fst) = 0 := by
      rw [List.countP_eq_zero]
      intro entry member
      simpa using (above entry member).ne'
    have here : ((fun other => decide (other = first.1)) ∘ Prod.fst) first = true := decide_eq_true rfl
    rw [← ranking.all.countP_eq, List.countP_map, List.countP_append, none,
      List.countP_cons_of_pos here, List.countP_append, all, past]
    omega
  rw [meanRank, smaller, tied]
  push_cast
  ring

theorem Ranking.step {i : ℕ} {front run later : List (α × ℕ)} {first : α × ℕ}
    (ranking : Ranking xs i front (first :: (run ++ later)))
    (same : ∀ entry ∈ run, entry.1 = first.1) (above : ∀ entry ∈ later, first.1 < entry.1) :
    Ranking xs (i + run.length + 1) (front ++ first :: run) later where
  all := by
    have := ranking.all
    rwa [← List.cons_append, ← List.append_assoc] at this
  position := by
    rw [List.length_append, List.length_cons, ranking.position, Nat.add_assoc]
  apart := by
    intro before member entry behind
    rcases List.mem_append.mp member with old | new
    · exact ranking.apart before old entry (List.mem_cons_of_mem _ (List.mem_append_right _ behind))
    · rcases List.mem_cons.mp new with here | tied
      · exact here ▸ above entry behind
      · exact same before tied ▸ above entry behind
  sorted := (List.pairwise_append.mp (List.pairwise_cons.mp ranking.sorted).2).2.1
  distinct := by
    have := ranking.distinct
    rw [List.map_cons, List.map_append] at this
    exact (List.nodup_append.mp (List.nodup_cons.mp this).2).2.1

theorem rankLoop_ranks {i : ℕ} {front rest : List (α × ℕ)} {ranks : List ℚ} {tieSizes : List ℕ}
    (ranking : Ranking xs i front rest) (inside : ∀ entry ∈ rest, entry.2 < ranks.length)
    (position : ℕ) :
    (∀ entry ∈ rest, entry.2 = position →
      (rankLoop i rest ranks tieSizes).1[position]? = some (meanRank xs entry.1)) ∧
    (position ∉ rest.map Prod.snd → (rankLoop i rest ranks tieSizes).1[position]? = ranks[position]?) := by
  fun_induction rankLoop i rest ranks tieSizes generalizing front with
  | case1 => simp
  | case2 i ranks tieSizes first more run j avgRank =>
    rename_i ih
    have parts : more = run ++ more.dropWhile fun entry => decide (entry.1 = first.1) :=
      List.takeWhile_append_dropWhile.symm
    have same : ∀ entry ∈ run, entry.1 = first.1 := by
      intro entry member
      have passed := List.mem_takeWhile_imp (p := fun entry : α × ℕ => decide (entry.1 = first.1)) member
      exact of_decide_eq_true passed
    have above := lt_of_mem_dropWhile (List.pairwise_cons.mp ranking.sorted).2
      (List.pairwise_cons.mp ranking.sorted).1
    generalize more.dropWhile (fun entry => decide (entry.1 = first.1)) = later at *
    rw [parts] at ranking inside
    have mean : avgRank = meanRank xs first.1 := (ranking.meanRank_eq same above).symm
    obtain ⟨here, away⟩ := ih (ranking.step same above) fun entry member => by
      rw [length_foldl_set]
      exact inside entry (List.mem_cons_of_mem _ (List.mem_append_right _ member))
    have apart : ∀ entry ∈ first :: run, entry.2 ∉ later.map Prod.snd := by
      have distinct := ranking.distinct
      rw [← List.cons_append, List.map_append] at distinct
      intro entry member behind
      exact (List.nodup_append.mp distinct).2.2 _ (List.mem_map_of_mem member) _ behind rfl
    have value : ∀ entry ∈ first :: run, entry.1 = first.1 := by
      intro entry member
      rcases List.mem_cons.mp member with this | tied
      · exact congrArg Prod.fst this
      · exact same entry tied
    rw [parts, ← List.cons_append]
    constructor
    · rintro entry member rfl
      rcases List.mem_append.mp member with tied | behind
      · rw [away (apart entry tied), foldl_set, mean, value entry tied]
        exact if_pos ⟨List.mem_map_of_mem tied, inside entry (List.mem_append_left _ tied)⟩
      · exact here entry behind rfl
    · intro out
      rw [List.map_append, List.mem_append, not_or] at out
      rw [away out.2, foldl_set]
      exact if_neg fun both => out.1 both.1

theorem length_rankLoop (i : ℕ) (rest : List (α × ℕ)) (ranks : List ℚ) (tieSizes : List ℕ) :
    (rankLoop i rest ranks tieSizes).1.length = ranks.length := by
  fun_induction rankLoop i rest ranks tieSizes with
  | case1 => rfl
  | case2 i ranks tieSizes first more run j avgRank =>
    rename_i ih
    rw [ih, length_foldl_set]

/-- Values that all differ are tied with themselves only. -/
theorem length_tieSizes (i : ℕ) (rest : List (α × ℕ)) (ranks : List ℚ) (tieSizes : List ℕ)
    (distinct : (rest.map Prod.fst).Nodup) :
    (rankLoop i rest ranks tieSizes).2.length = tieSizes.length + rest.length := by
  fun_induction rankLoop i rest ranks tieSizes with
  | case1 => rfl
  | case2 i ranks tieSizes first more run j avgRank =>
    rename_i ih
    obtain ⟨fresh, distinct⟩ := List.nodup_cons.mp distinct
    have whole : more.dropWhile (fun entry => decide (entry.1 = first.1)) = more := by
      cases more with
      | nil => rfl
      | cons second others =>
        apply List.dropWhile_cons_of_neg
        intro same
        exact fresh (List.mem_map.mpr ⟨second, List.mem_cons_self, of_decide_eq_true same⟩)
    rw [whole] at ih ⊢
    rw [ih distinct, List.length_append, List.length_cons]
    simp only [List.length_cons, List.length_nil]
    omega

theorem order_perm (xs : List α) : (order xs).Perm xs.zipIdx := List.mergeSort_perm _ _

theorem ranking_order (xs : List α) : Ranking xs 0 [] (order xs) where
  all := by
    have values : xs.zipIdx.map Prod.fst = xs := by simp
    rw [List.nil_append]
    exact ((order_perm xs).map Prod.fst).trans (List.Perm.of_eq values)
  position := rfl
  apart := by simp
  sorted := by
    have total := @List.pairwise_mergeSort _ (fun left right : α × ℕ => decide (left.1 ≤ right.1))
      (by intro a b c; simpa using le_trans) (by intro a b; simpa using le_total a.1 b.1) xs.zipIdx
    exact total.imp of_decide_eq_true
  distinct := by
    have indices : (xs.zipIdx.map Prod.snd).Nodup := by simp [List.nodup_range']
    exact ((order_perm xs).map Prod.snd).nodup_iff.mpr indices

theorem ranksWithTies_ranks (xs : List α) : (ranksWithTies xs).1 = xs.map (meanRank xs) := by
  apply List.ext_getElem?
  intro position
  have inside : ∀ entry ∈ order xs, entry.2 < (List.replicate xs.length (0 : ℚ)).length := by
    intro entry member
    rw [List.length_replicate]
    exact List.snd_lt_of_mem_zipIdx ((order_perm xs).mem_iff.mp member)
  by_cases small : position < xs.length
  · have member : (xs[position], position) ∈ order xs := by
      rw [(order_perm xs).mem_iff]
      simp [List.mem_zipIdx_iff_getElem?]
    rw [ranksWithTies, (rankLoop_ranks (ranking_order xs) inside position).1 _ member rfl]
    simp [small]
  · rw [List.getElem?_eq_none, List.getElem?_eq_none]
    · simpa using small
    · rw [ranksWithTies, length_rankLoop, List.length_replicate]
      exact Nat.le_of_not_lt small

theorem ranksWithTies_distinct (distinct : xs.Nodup) : (ranksWithTies xs).2.length = xs.length := by
  have values : ((order xs).map Prod.fst).Nodup := (ranking_order xs).all.nodup_iff.mpr distinct
  rw [ranksWithTies, length_tieSizes _ _ _ _ values, (order_perm xs).length_eq]
  simp

end Ranks

section Counts

variable {n m u : ℕ}

theorem length_addCounts (admits : ℕ → ℕ → Bool) (shift : ℕ) (total counts : List ℕ) :
    (addCounts admits shift total counts).length = total.length := by
  have loop (k : ℕ) (total : List ℕ) : ((counts.zipIdx k).foldl (fun total entry =>
      if admits entry.1 entry.2 then total.modify (entry.2 + shift) (· + entry.1) else total)
        total).length = total.length := by
    induction counts generalizing k total with
    | nil => rfl
    | cons count rest ih =>
      rw [List.zipIdx_cons, List.foldl_cons, ih]
      split
      · rw [List.length_modify]
      · rfl
  exact loop 0 total

theorem getD_addCounts {admits : ℕ → ℕ → Bool} {shift : ℕ} {total counts : List ℕ}
    (admitted : ∀ count u, u + shift < total.length → count ≠ 0 → admits count u = true)
    {place : ℕ} (inside : place < total.length) :
    (addCounts admits shift total counts).getD place 0 =
      total.getD place 0 + if shift ≤ place then counts.getD (place - shift) 0 else 0 := by
  have loop (k : ℕ) (total : List ℕ) (same : place < total.length)
      (admitted : ∀ count u, u + shift < total.length → count ≠ 0 → admits count u = true) :
      ((counts.zipIdx k).foldl (fun total entry =>
        if admits entry.1 entry.2 then total.modify (entry.2 + shift) (· + entry.1) else total)
          total).getD place 0 =
        total.getD place 0 + if shift + k ≤ place then counts.getD (place - shift - k) 0 else 0 := by
    induction counts generalizing k total with
    | nil => simp
    | cons count rest ih =>
      have turn : (if admits count k then total.modify (k + shift) (· + count) else total).getD place 0 =
          total.getD place 0 + if k + shift = place then count else 0 := by
        obtain ⟨value, found⟩ : ∃ value, total[place]? = some value := ⟨_, List.getElem?_eq_getElem same⟩
        by_cases counted : admits count k
        · rw [if_pos counted, List.getD_eq_getElem?_getD, List.getD_eq_getElem?_getD,
            List.getElem?_modify, found]
          by_cases here : k + shift = place <;> simp [here]
        · rw [if_neg counted]
          by_cases here : k + shift = place
          · have none : count = 0 := by
              by_contra some_
              exact counted (admitted count k (by omega) some_)
            rw [if_pos here, none, Nat.add_zero]
          · rw [if_neg here, Nat.add_zero]
      have size : (if admits count k then total.modify (k + shift) (· + count) else total).length =
          total.length := by
        split
        · rw [List.length_modify]
        · rfl
      rw [List.zipIdx_cons, List.foldl_cons, ih _ _ (by rw [size]; exact same) (by rwa [size]), turn,
        Nat.add_assoc]
      congr 1
      rcases Nat.lt_trichotomy (k + shift) place with before | here | behind
      · obtain ⟨gap, distance⟩ : ∃ gap, place - shift - k = gap + 1 := ⟨place - shift - k - 1, by omega⟩
        have next : place - shift - (k + 1) = gap := by omega
        rw [if_neg (by omega), if_pos (by omega), if_pos (by omega), distance, next, Nat.zero_add,
          List.getD_cons_succ]
      · have first : place - shift - k = 0 := by omega
        rw [if_pos here, if_neg (by omega), if_pos (by omega), first, Nat.add_zero, List.getD_cons_zero]
      · rw [if_neg (by omega), if_neg (by omega), if_neg (by omega)]
  exact loop 0 total inside admitted

theorem length_exactUCounts (n m : ℕ) : (exactUCounts n m).length = n * m + 1 := by
  fun_induction exactUCounts n m with
  | case1 => simp
  | case2 => simp
  | case3 n m total _ _ _ =>
    rw [length_addCounts, length_addCounts, List.length_replicate]

/-- The table holds, at each place, the arrangements with that statistic. -/
theorem getD_exactUCounts (n m u : ℕ) : (exactUCounts n m).getD u 0 = occurrences n m u := by
  have single (u : ℕ) : [1].getD u 0 = if u = 0 then 1 else 0 := by cases u <;> simp
  fun_induction exactUCounts n m generalizing u with
  | case1 => rw [single, occurrences_zero_left]
  | case2 => rw [single, occurrences_zero_right]
  | case3 n m total shifted left right =>
    have size : total.length = (n + 1) * (m + 1) + 1 := List.length_replicate
    have shiftedSize : shifted.length = (n + 1) * (m + 1) + 1 := (length_addCounts _ _ _ _).trans size
    by_cases inside : u < (n + 1) * (m + 1) + 1
    · have blank : total.getD u 0 = 0 := by
        rw [List.getD_eq_getElem?_getD, List.getElem?_replicate, if_pos inside]
        rfl
      have first : shifted.getD u 0 =
          if m + 1 ≤ u then occurrences n (m + 1) (u - (m + 1)) else 0 := by
        rw [getD_addCounts (fun _ _ _ nonzero => decide_eq_true nonzero) (by omega), blank, Nat.zero_add]
        split
        · exact left _
        · rfl
      rw [getD_addCounts (fun _ _ below _ => decide_eq_true (by omega)) (by omega), first,
        if_pos (Nat.zero_le u), Nat.sub_zero, right]
      exact occurrences_succ.symm
    · rw [List.getD_eq_default _ _ (by rw [length_addCounts]; omega)]
      exact (occurrences_eq_zero (by rw [Nat.succ_eq_add_one, Nat.succ_eq_add_one]; omega)).symm

theorem exactUCounts_eq (n m : ℕ) :
    exactUCounts n m = (List.range (n * m + 1)).map (occurrences n m) := by
  apply List.ext_getElem
  · rw [length_exactUCounts, List.length_map, List.length_range]
  · intro place first second
    rw [List.getElem_map, List.getElem_range, ← getD_exactUCounts, List.getD_eq_getElem _ _ first]

theorem sum_exactUCounts (n m : ℕ) : (exactUCounts n m).sum = (n + m).choose n := by
  rw [exactUCounts_eq, ← sum_occurrences]
  rfl

theorem reverse_exactUCounts (n m : ℕ) : (exactUCounts n m).reverse = exactUCounts n m := by
  apply List.ext_getElem
  · rw [List.length_reverse]
  · intro place first second
    have small : place ≤ n * m := by
      rw [length_exactUCounts] at second
      omega
    rw [List.getElem_reverse, ← List.getD_eq_getElem _ 0, ← List.getD_eq_getElem _ 0,
      getD_exactUCounts, getD_exactUCounts, length_exactUCounts, Nat.add_sub_cancel,
      occurrences_symm small]

theorem sum_take (n m stop : ℕ) : ((exactUCounts n m).take stop).sum =
    ∑ u ∈ (Finset.range (n * m + 1)).filter (· < stop), occurrences n m u := by
  have places : (Finset.range (n * m + 1)).filter (· < stop) = Finset.range (min stop (n * m + 1)) := by
    ext place
    simp only [Finset.mem_filter, Finset.mem_range]
    omega
  rw [exactUCounts_eq, ← List.map_take, List.take_range, places]
  rfl

theorem sum_sliceTo (n m observed : ℕ) : (sliceTo (exactUCounts n m) (observed + 1)).sum =
    ((arrangements n m).filter fun chosen => statistic (n + m) chosen ≤ observed).card := by
  have stop : ((observed : ℤ) + 1).toNat = observed + 1 := by omega
  rw [sliceTo, if_neg (by omega), stop, sum_take, sum_occurrences_filter]
  simp only [Nat.lt_succ_iff]

theorem sum_sliceFrom (n m observed : ℕ) : (sliceFrom (exactUCounts n m) observed).sum =
    ((arrangements n m).filter fun chosen => observed ≤ statistic (n + m) chosen).card := by
  have whole := List.sum_take_add_sum_drop (exactUCounts n m) observed
  have split := Finset.sum_filter_add_sum_filter_not (Finset.range (n * m + 1)) (· < observed)
    (occurrences n m)
  rw [sum_take, sum_exactUCounts, ← sum_occurrences] at whole
  simp only [Nat.not_lt] at split
  have upper := @sum_occurrences_filter n m (fun u => observed ≤ u) _
  rw [sliceFrom, if_neg (by omega), Int.toNat_natCast]
  omega

end Counts

section Test

variable {α : Type} [LinearOrder α] {repr : String → String}
  {normalP : ℚ → ℕ → ℕ → List ℕ → Side → ℚ} {sample1 sample2 : List α}

/-- The arrangements of a side: at most, or at least, as many pairs as observed. -/
def atSide (n m : ℕ) (observed : ℚ) : Side → Finset (Finset ℕ)
  | .less => (arrangements n m).filter fun chosen => (statistic (n + m) chosen : ℚ) ≤ observed
  | .greater => (arrangements n m).filter fun chosen => observed ≤ (statistic (n + m) chosen : ℚ)

/-- A tail is a share of all arrangements, so rounding it does not pass one. -/
theorem exactP_eq (n m observed : ℕ) (side : Side) :
    exactP observed n m side = divideInts (atSide n m observed side).card ((n + m).choose n) := by
  have tail : (match side with
      | .less => (sliceTo (exactUCounts n m) ((observed : ℤ) + 1)).sum
      | .greater => (sliceFrom (exactUCounts n m) (observed : ℤ)).sum) =
      (atSide n m observed side).card := by
    cases side with
    | less => simpa only [atSide, Nat.cast_le] using sum_sliceTo n m observed
    | greater => simpa only [atSide, Nat.cast_le] using sum_sliceFrom n m observed
  have few : (atSide n m observed side).card ≤ (n + m).choose n := by
    have all : (arrangements n m).card = (n + m).choose n := by
      rw [arrangements, Finset.card_powersetCard, Finset.card_range]
    rw [← all]
    cases side <;> exact Finset.card_filter_le _ _
  unfold exactP
  rw [roundHalfEven_natCast]
  dsimp only
  rw [tail]
  apply min_eq_right
  apply toDouble_le_one
  · positivity
  · exact div_le_one_of_le₀ (by exact_mod_cast few) (Nat.cast_nonneg _)

/-- The statistic is the number of pairs won and half of those tied. -/
theorem u_eq (sample1 sample2 : List α) :
    ((ranksWithTies (sample1 ++ sample2)).1.take sample1.length).sum -
        (sample1.length * (sample1.length + 1) : ℕ) / 2 =
      (wins sample1 sample2 + ties sample1 sample2 / 2 : ℚ) := by
  rw [ranksWithTies_ranks, List.map_append, List.take_left' (List.length_map _), sum_meanRank]
  push_cast
  ring

theorem ties_eq_zero (distinct : (sample1 ++ sample2).Nodup) : ties sample1 sample2 = 0 := by
  rw [ties, List.countP_eq_zero]
  intro pair member
  obtain ⟨first, second⟩ := List.mem_product.mp member
  have apart := (List.nodup_append.mp distinct).2.2 _ first _ second
  simpa using apart.symm

theorem mannWhitneyU_ok {alternative : String} (first : 1 ≤ sample1.length)
    (second : 1 ≤ sample2.length) (known : alternative ∈ ["less", "greater", "two-sided"]) :
    ∃ result, mannWhitneyU repr normalP sample1 sample2 alternative = .ok result ∧
      result.u = wins sample1 sample2 + ties sample1 sample2 / 2 ∧
      ((sample1 ++ sample2).Nodup → sample1.length + sample2.length ≤ 20 → result.method = "exact" ∧
        ∀ side : Side, alternative = side.name →
          result.pValue = exactP result.u sample1.length sample2.length side) := by
  have counted := u_eq sample1 sample2
  have untied := @ranksWithTies_distinct α _ (sample1 ++ sample2)
  rw [mannWhitneyU, if_neg (not_not.mpr known), if_neg (by omega)]
  dsimp only
  generalize ranksWithTies (sample1 ++ sample2) = ranking at counted untied ⊢
  refine ⟨_, rfl, counted, fun distinct small => ?_⟩
  have whole : (!decide (ranking.2.length < (sample1 ++ sample2).length) &&
      decide (sample1.length + sample2.length ≤ exactMaxN)) = true := by
    have size : ranking.2.length = (sample1 ++ sample2).length := untied distinct
    rw [size, decide_eq_false (Nat.lt_irrefl _), exactMaxN, decide_eq_true small]
    rfl
  dsimp only
  rw [whole]
  refine ⟨rfl, fun side named => ?_⟩
  rw [named]
  cases side <;> rfl

/-- The test counts pairs, its table counts arrangements, and without ties its
one-sided value is the share of the arrangements of its side. -/
theorem mannWhitneyU_exact (repr : String → String) (normalP : ℚ → ℕ → ℕ → List ℕ → Side → ℚ)
    (sample1 sample2 : List α) (first : 1 ≤ sample1.length) (second : 1 ≤ sample2.length) :
    (∀ alternative ∈ ["less", "greater", "two-sided"], ∃ result,
      mannWhitneyU repr normalP sample1 sample2 alternative = .ok result ∧
        result.u = wins sample1 sample2 + ties sample1 sample2 / 2) ∧
    (∀ n1 n2, (exactUCounts n1 n2).length = n1 * n2 + 1 ∧
      (∀ u, (exactUCounts n1 n2).getD u 0 = occurrences n1 n2 u) ∧
      (exactUCounts n1 n2).sum = (n1 + n2).choose n1 ∧
      (exactUCounts n1 n2).reverse = exactUCounts n1 n2) ∧
    ((sample1 ++ sample2).Nodup → sample1.length + sample2.length ≤ 20 → ∀ side : Side, ∃ result,
      mannWhitneyU repr normalP sample1 sample2 side.name = .ok result ∧ result.method = "exact" ∧
        result.pValue = divideInts (atSide sample1.length sample2.length result.u side).card
          ((sample1.length + sample2.length).choose sample1.length)) := by
  refine ⟨fun alternative known => ?_, fun n1 n2 => ?_, fun distinct small side => ?_⟩
  · obtain ⟨result, answered, counted, -⟩ :=
      @mannWhitneyU_ok α _ repr normalP _ _ alternative first second known
    exact ⟨result, answered, counted⟩
  · exact ⟨length_exactUCounts n1 n2, getD_exactUCounts n1 n2, sum_exactUCounts n1 n2,
      reverse_exactUCounts n1 n2⟩
  · have known : side.name ∈ ["less", "greater", "two-sided"] := by cases side <;> decide
    obtain ⟨result, answered, counted, exact_⟩ :=
      @mannWhitneyU_ok α _ repr normalP _ _ side.name first second known
    obtain ⟨method, value⟩ := exact_ distinct small
    rw [ties_eq_zero distinct, Nat.cast_zero, zero_div, add_zero] at counted
    refine ⟨result, answered, method, ?_⟩
    rw [value side rfl, counted, exactP_eq]

theorem mannWhitneyU_exact_three :
    (∃ result, mannWhitneyU id (fun _ _ _ _ _ => 0) [1, 5] [3] "less" = .ok result ∧
      result.u = wins [1, 5] [3] + ties [1, 5] [3] / 2) ∧
    (exactUCounts 2 1).sum = (2 + 1).choose 2 ∧
    ∃ result, mannWhitneyU id (fun _ _ _ _ _ => 0) [1, 5] [3] Side.less.name = .ok result ∧
      result.pValue = divideInts (atSide 2 1 result.u .less).card ((2 + 1).choose 2) := by
  obtain ⟨pairs, table, tails⟩ :=
    mannWhitneyU_exact id (fun _ _ _ _ _ => 0) [1, 5] [3] (by decide) (by decide)
  obtain ⟨result, answered, -, value⟩ := tails (by decide) (by decide) .less
  exact ⟨pairs "less" (by decide), (table 2 1).2.2.1, result, answered, value⟩

end Test

end CodeCalc.Stats
