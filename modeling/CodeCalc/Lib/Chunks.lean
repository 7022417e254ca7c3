import CodeCalc.Lib.Utf8

/-! Decoding a growing byte string in chunks.  A unit that a chunk ends inside is
replaced once for the part before the end and once for each byte after it, so the
chunks never decode to fewer code points than the whole, and to as many only
where every chunk ends between two units. -/
namespace CodeCalc.Lib.Utf8

inductive Seam : Bytes → Nat → Prop where
  | start (bytes : Bytes) : Seam bytes 0
  | next {lead : UInt8} {rest : Bytes} {position : Nat}
      (later : Seam (rest.drop (unit lead rest).2) position) :
      Seam (lead :: rest) (position + (unit lead rest).2 + 1)

section Units

variable {lead : UInt8} {rest : Bytes} {count : Nat}

theorem matching_take_eq_min (ranges : List (UInt8 × UInt8)) (rest : Bytes) (count : Nat) :
    matching ranges (rest.take count) = min count (matching ranges rest) := by
  induction ranges generalizing rest count with
  | nil => cases rest <;> cases count <;> simp [matching]
  | cons range ranges ih =>
    obtain ⟨low, high⟩ := range
    cases count with
    | zero => simp [matching]
    | succ count =>
      cases rest with
      | nil => simp [matching]
      | cons byte rest =>
        rw [List.take_succ_cons, matching, matching, ih]
        split <;> omega

theorem unit_take_of_le (whole : (unit lead rest).2 ≤ count) :
    unit lead (rest.take count) = unit lead rest := by
  unfold unit at whole ⊢
  cases hfollowers : followers lead with
  | none => rfl
  | some ranges =>
    have hcount : matching ranges rest ≤ count := by
      rw [hfollowers] at whole
      dsimp only at whole
      split at whole <;> exact whole
    have hsame : matching ranges (rest.take count) = matching ranges rest := by
      rw [matching_take_eq_min]
      omega
    simp only [hsame, List.take_take, Nat.min_eq_left hcount]

theorem isContinuation_of_lt_unit {index : Nat} (inside : index < (unit lead rest).2) :
    ∃ byte, rest[index]? = some byte ∧ isContinuation byte = true := by
  unfold unit at inside
  cases hfollowers : followers lead with
  | none =>
    rw [hfollowers] at inside
    exact absurd inside (Nat.not_lt_zero index)
  | some ranges =>
    rw [hfollowers] at inside
    apply isContinuation_of_lt_matching
      (fun range member byte low high => isContinuation_of_followers hfollowers member low high)
    dsimp only at inside
    split at inside <;> exact inside

theorem unit_of_isContinuation {byte : UInt8} (continuation : isContinuation byte = true)
    (rest : Bytes) : unit byte rest = (replacement, 0) := by
  unfold unit
  cases hfollowers : followers byte with
  | none => rfl
  | some ranges =>
    rw [isContinuation_eq_false_of_followers hfollowers] at continuation
    cases continuation

/-- From inside a unit on, each of its bytes is replaced by itself. -/
theorem length_lossy_drop_of_le (inside : count ≤ (unit lead rest).2) :
    (lossy (rest.drop count)).length =
      (unit lead rest).2 - count + (lossy (rest.drop (unit lead rest).2)).length := by
  induction left : (unit lead rest).2 - count generalizing count with
  | zero =>
    rw [show count = (unit lead rest).2 by omega, Nat.zero_add]
  | succ left ih =>
    obtain ⟨byte, hbyte, continuation⟩ :=
      isContinuation_of_lt_unit (show count < (unit lead rest).2 by omega)
    have hsmall : count < rest.length := (List.getElem?_eq_some_iff.mp hbyte).1
    have hhead : rest.drop count = byte :: rest.drop (count + 1) := by
      rw [List.drop_eq_getElem_cons hsmall, (List.getElem?_eq_some_iff.mp hbyte).2]
    have hlater := @ih (count + 1) (by omega) (by omega)
    rw [hhead, lossy, unit_of_isContinuation continuation, List.drop_zero, List.length_cons]
    omega

end Units

section Split

variable {bytes : Bytes} {position : Nat}

/-- Two chunks decode to at least as many code points as the whole. -/
theorem length_lossy_le_split (bytes : Bytes) (position : Nat) :
    (lossy bytes).length ≤
      (lossy (bytes.take position)).length + (lossy (bytes.drop position)).length := by
  fun_induction lossy bytes generalizing position with
  | case1 => simp
  | case2 lead rest ih =>
    cases position with
    | zero =>
      rw [List.take_zero, List.drop_zero, lossy, lossy, List.length_nil, Nat.zero_add]
    | succ count =>
      rw [List.take_succ_cons, List.drop_succ_cons, lossy, List.length_cons, List.length_cons]
      by_cases whole : (unit lead rest).2 ≤ count
      · have htail := ih (count - (unit lead rest).2)
        rw [List.take_drop, List.drop_drop, Nat.add_sub_cancel' whole] at htail
        rw [unit_take_of_le whole]
        omega
      · have htail := length_lossy_drop_of_le (show count ≤ (unit lead rest).2 by omega)
        omega

theorem Seam.lossy_eq (seam : Seam bytes position) :
    lossy bytes = lossy (bytes.take position) ++ lossy (bytes.drop position) := by
  induction seam with
  | start bytes => rw [List.take_zero, List.drop_zero, lossy, List.nil_append]
  | @next lead rest position later ih =>
    have whole : (unit lead rest).2 ≤ position + (unit lead rest).2 := by omega
    rw [List.take_succ_cons, List.drop_succ_cons, lossy, lossy, unit_take_of_le whole,
      List.cons_append, ih, List.take_drop, List.drop_drop, Nat.add_comm]

/-- No more code points than the whole: the position is a seam. -/
theorem seam_of_length_lossy (bound : position ≤ bytes.length)
    (same : (lossy (bytes.take position)).length + (lossy (bytes.drop position)).length ≤
      (lossy bytes).length) : Seam bytes position := by
  fun_induction lossy bytes generalizing position with
  | case1 =>
    rw [List.length_nil, Nat.le_zero] at bound
    rw [bound]
    exact .start []
  | case2 lead rest ih =>
    cases position with
    | zero => exact .start _
    | succ count =>
      rw [List.take_succ_cons, List.drop_succ_cons, lossy, List.length_cons,
        List.length_cons] at same
      by_cases whole : (unit lead rest).2 ≤ count
      · rw [unit_take_of_le whole] at same
        have hposition : count + 1 = count - (unit lead rest).2 + (unit lead rest).2 + 1 := by omega
        rw [hposition]
        refine .next (ih ?_ ?_)
        · rw [List.length_drop]
          rw [List.length_cons] at bound
          omega
        · rw [List.take_drop, List.drop_drop, Nat.add_sub_cancel' whole]
          omega
      · have htail := length_lossy_drop_of_le (show count ≤ (unit lead rest).2 by omega)
        omega

theorem seam_length (bytes : Bytes) : Seam bytes bytes.length := by
  fun_induction lossy bytes with
  | case1 => exact .start []
  | case2 lead rest ih =>
    have hunit := unit_le_length lead rest
    rw [List.length_drop] at ih
    have hlength : (lead :: rest).length =
        rest.length - (unit lead rest).2 + (unit lead rest).2 + 1 := by
      rw [List.length_cons]
      omega
    rw [hlength]
    exact .next ih

theorem seam_succ_iff {lead : UInt8} {rest : Bytes} {count : Nat} :
    Seam (lead :: rest) (count + 1) ↔
      (unit lead rest).2 ≤ count ∧ Seam (rest.drop (unit lead rest).2)
        (count - (unit lead rest).2) := by
  constructor
  · intro seam
    generalize hposition : count + 1 = position at seam
    cases seam with
    | start => omega
    | @next _ _ position later =>
      have hcount : count = position + (unit lead rest).2 := by omega
      rw [hcount, Nat.add_sub_cancel]
      exact ⟨by omega, later⟩
  · rintro ⟨whole, later⟩
    have hposition : count + 1 = count - (unit lead rest).2 + (unit lead rest).2 + 1 := by omega
    rw [hposition]
    exact .next later

theorem Seam.take_iff (seam : Seam bytes position) {earlier : Nat} (before : earlier ≤ position) :
    Seam (bytes.take position) earlier ↔ Seam bytes earlier := by
  induction seam generalizing earlier with
  | start bytes =>
    rw [Nat.le_zero.mp before]
    exact ⟨fun _ => .start _, fun _ => .start _⟩
  | @next lead rest position later ih =>
    cases earlier with
    | zero => exact ⟨fun _ => .start _, fun _ => .start _⟩
    | succ count =>
      have whole : (unit lead rest).2 ≤ position + (unit lead rest).2 := by omega
      rw [List.take_succ_cons, seam_succ_iff, seam_succ_iff, unit_take_of_le whole]
      apply and_congr_right
      intro after
      rw [← ih (show count - (unit lead rest).2 ≤ position by omega), List.take_drop,
        Nat.add_comm position]

end Split

end CodeCalc.Lib.Utf8
