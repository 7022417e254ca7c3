import CodeCalc.Lib.Text

/-! Base64 with the standard alphabet and padding: three bytes become four
letters, and a shorter last group is filled up with `=`. -/
namespace CodeCalc.Lib.Base64

/-- The letter of six bits. -/
def letter (sextet : Nat) : CodePoint :=
  if sextet < 26 then Fin.ofNat _ (65 + sextet)
  else if sextet < 52 then Fin.ofNat _ (71 + sextet)
  else if sextet < 62 then Fin.ofNat _ (sextet - 4)
  else if sextet = 62 then '+'
  else '/'

def encode : List UInt8 → Text
  | [] => []
  | [a] => [letter (a.toNat / 4), letter (a.toNat % 4 * 16), '=', '=']
  | [a, b] =>
      [letter (a.toNat / 4), letter (a.toNat % 4 * 16 + b.toNat / 16),
        letter (b.toNat % 16 * 4), '=']
  | a :: b :: c :: rest =>
      [letter (a.toNat / 4), letter (a.toNat % 4 * 16 + b.toNat / 16),
        letter (b.toNat % 16 * 4 + c.toNat / 64), letter (c.toNat % 64)] ++ encode rest

theorem val_letter (sextet : Nat) : (letter sextet).val =
    if sextet < 26 then 65 + sextet else if sextet < 52 then 71 + sextet
    else if sextet < 62 then sextet - 4 else if sextet = 62 then 43 else 47 := by
  unfold letter
  split_ifs with h26 h52 h62 h63
  · exact Nat.mod_eq_of_lt (by omega)
  · exact Nat.mod_eq_of_lt (by omega)
  · exact Nat.mod_eq_of_lt (by omega)
  · rfl
  · rfl

theorem letter_inj {left right : Nat} (hleft : left < 64) (hright : right < 64)
    (h : letter left = letter right) : left = right := by
  have hval : (letter left).val = (letter right).val := by rw [h]
  rw [val_letter, val_letter] at hval
  split_ifs at hval <;> omega

theorem letter_ne_pad (sextet : Nat) : letter sextet ≠ '=' := by
  intro h
  have hval : (letter sextet).val = 61 := by rw [h]; rfl
  rw [val_letter] at hval
  split_ifs at hval <;> omega

private theorem byte_eq {left right : UInt8} (high : left.toNat / 4 = right.toNat / 4)
    (low : left.toNat % 4 = right.toNat % 4) : left = right := by
  apply UInt8.toNat_inj.mp
  omega

theorem encode_injective : Function.Injective encode := by
  intro left
  induction left using encode.induct with
  | case1 =>
    intro right h
    match right with
    | [] => rfl
    | [_] | [_, _] | _ :: _ :: _ :: _ => simp [encode] at h
  | case2 a =>
    intro right h
    have ha := a.toNat_lt
    match right with
    | [] => simp [encode] at h
    | [a'] =>
      have ha' := a'.toNat_lt
      simp only [encode, List.cons.injEq, and_true] at h
      have high := letter_inj (by omega) (by omega) h.1
      have low := letter_inj (by omega) (by omega) h.2
      rw [byte_eq high (by omega)]
    | [a', b'] =>
      simp only [encode, List.cons.injEq, and_true] at h
      exact absurd h.2.2.symm (letter_ne_pad _)
    | a' :: b' :: c' :: rest' =>
      simp only [encode, List.cons_append, List.cons.injEq] at h
      exact absurd h.2.2.1.symm (letter_ne_pad _)
  | case3 a b =>
    intro right h
    have ha := a.toNat_lt
    have hb := b.toNat_lt
    match right with
    | [] => simp [encode] at h
    | [a'] =>
      simp only [encode, List.cons.injEq, and_true] at h
      exact absurd h.2.2 (letter_ne_pad _)
    | [a', b'] =>
      have ha' := a'.toNat_lt
      have hb' := b'.toNat_lt
      simp only [encode, List.cons.injEq, and_true] at h
      have first := letter_inj (by omega) (by omega) h.1
      have second := letter_inj (by omega) (by omega) h.2.1
      have third := letter_inj (by omega) (by omega) h.2.2
      have hbyte : b = b' := byte_eq (by omega) (by omega)
      rw [byte_eq first (by omega), hbyte]
    | a' :: b' :: c' :: rest' =>
      simp only [encode, List.cons_append, List.cons.injEq] at h
      exact absurd h.2.2.2.1.symm (letter_ne_pad _)
  | case4 a b c rest ih =>
    intro right h
    have ha := a.toNat_lt
    have hb := b.toNat_lt
    have hc := c.toNat_lt
    match right with
    | [] => simp [encode] at h
    | [a'] =>
      simp only [encode, List.cons_append, List.cons.injEq] at h
      exact absurd h.2.2.1 (letter_ne_pad _)
    | [a', b'] =>
      simp only [encode, List.cons_append, List.cons.injEq] at h
      exact absurd h.2.2.2.1 (letter_ne_pad _)
    | a' :: b' :: c' :: rest' =>
      have ha' := a'.toNat_lt
      have hb' := b'.toNat_lt
      have hc' := c'.toNat_lt
      simp only [encode, List.cons_append, List.nil_append, List.cons.injEq] at h
      have first := letter_inj (by omega) (by omega) h.1
      have second := letter_inj (by omega) (by omega) h.2.1
      have third := letter_inj (by omega) (by omega) h.2.2.1
      have fourth := letter_inj (by omega) (by omega) h.2.2.2.1
      have hbyte : b = b' := byte_eq (by omega) (by omega)
      have hlast : c = c' := byte_eq (by omega) (by omega)
      rw [byte_eq first (by omega), hbyte, hlast, ih h.2.2.2.2]

example : encode [0, 255] = Text.ofString "AP8=" := by decide

end CodeCalc.Lib.Base64
