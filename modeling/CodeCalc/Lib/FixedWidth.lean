import Mathlib.Data.Int.Bitwise
import Mathlib.Data.Nat.Bitwise
import CodeCalc.Lib.Radix

/-! Integers of any size beside bit vectors: a mask leaves the residue, the bit
operations commute with taking it, and a row of digits has a given width. -/
namespace CodeCalc.Lib.FixedWidth
open Radix

variable {w : ℕ}

section Residues

theorem getLsbD_ofInt (value : ℤ) (bit : ℕ) :
    (BitVec.ofInt w value).getLsbD bit = (decide (bit < w) && value.testBit bit) := by
  cases value with
  | ofNat value => simp [Int.testBit, BitVec.getLsbD_ofNat]
  | negSucc value =>
    rw [BitVec.ofInt_negSucc_eq_not_ofNat, BitVec.getLsbD_not, BitVec.getLsbD_ofNat]
    cases decide (bit < w) <;> simp [Int.testBit]

theorem ofInt_land (left right : ℤ) :
    BitVec.ofInt w (left.land right) = BitVec.ofInt w left &&& BitVec.ofInt w right := by
  apply BitVec.eq_of_getLsbD_eq
  intro bit inside
  rw [BitVec.getLsbD_and, getLsbD_ofInt, getLsbD_ofInt, getLsbD_ofInt, Int.testBit_land]
  simp [inside]

theorem ofInt_lor (left right : ℤ) :
    BitVec.ofInt w (left.lor right) = BitVec.ofInt w left ||| BitVec.ofInt w right := by
  apply BitVec.eq_of_getLsbD_eq
  intro bit inside
  rw [BitVec.getLsbD_or, getLsbD_ofInt, getLsbD_ofInt, getLsbD_ofInt, Int.testBit_lor]
  simp [inside]

theorem ofInt_xor (left right : ℤ) :
    BitVec.ofInt w (left.xor right) = BitVec.ofInt w left ^^^ BitVec.ofInt w right := by
  apply BitVec.eq_of_getLsbD_eq
  intro bit inside
  rw [BitVec.getLsbD_xor, getLsbD_ofInt, getLsbD_ofInt, getLsbD_ofInt, Int.testBit_lxor]
  simp [inside]

theorem ofInt_not (value : ℤ) : BitVec.ofInt w value.lnot = ~~~BitVec.ofInt w value := by
  apply BitVec.eq_of_getLsbD_eq
  intro bit inside
  rw [BitVec.getLsbD_not, getLsbD_ofInt, getLsbD_ofInt, Int.testBit_lnot]
  simp [inside]

@[simp] theorem ofInt_toNat (residue : BitVec w) : BitVec.ofInt w residue.toNat = residue := by
  rw [BitVec.ofInt_natCast, BitVec.ofNat_toNat, BitVec.setWidth_eq]

/-- The bits below `w`. -/
def mask (w : ℕ) : ℤ := (1 : ℤ) <<< w - 1

theorem mask_eq (w : ℕ) : mask w = ((2 ^ w - 1 : ℕ) : ℤ) := by
  rw [mask, Int.shiftLeft_eq, Int.one_mul, Int.natCast_sub (Nat.one_le_two_pow)]
  push_cast
  rfl

theorem land_mask (value : ℤ) : value.land (mask w) = (BitVec.ofInt w value).toNat := by
  rw [mask_eq]
  cases value with
  | ofNat value =>
    change ((value &&& (2 ^ w - 1) : ℕ) : ℤ) = _
    rw [Nat.and_two_pow_sub_one_eq_mod]
    simp
  | negSucc value =>
    change ((Nat.ldiff (2 ^ w - 1) value : ℕ) : ℤ) = _
    rw [BitVec.ofInt_negSucc_eq_not_ofNat]
    congr 1
    apply Nat.eq_of_testBit_eq
    intro bit
    rw [Nat.testBit_ldiff, Nat.testBit_two_pow_sub_one, BitVec.testBit_toNat, BitVec.getLsbD_not,
      BitVec.getLsbD_ofNat]
    cases decide (bit < w) <;> simp

@[simp] theorem ofInt_land_mask (value : ℤ) :
    BitVec.ofInt w (value.land (mask w)) = BitVec.ofInt w value := by
  rw [land_mask, ofInt_toNat]

end Residues

section Shifts

variable (residue : BitVec w) (count : ℕ)

theorem ofInt_shiftLeft : BitVec.ofInt w ((residue.toNat : ℤ) <<< count) = residue <<< count := by
  apply BitVec.eq_of_toNat_eq
  rw [← Int.natCast_shiftLeft, BitVec.ofInt_natCast, BitVec.toNat_ofNat, BitVec.toNat_shiftLeft]

theorem ofInt_shiftRight : BitVec.ofInt w ((residue.toNat : ℤ) >>> count) = residue >>> count := by
  apply BitVec.eq_of_toNat_eq
  rw [← Int.natCast_shiftRight, BitVec.ofInt_natCast, BitVec.toNat_ofNat, BitVec.toNat_ushiftRight]
  exact Nat.mod_eq_of_lt ((Nat.shiftRight_le _ _).trans_lt residue.isLt)

/-- Something is lost exactly when a bit that is set leaves at the top. -/
theorem mask_lt_shiftLeft :
    mask w < (residue.toNat : ℤ) <<< count ↔
      ∃ bit, residue.getLsbD bit = true ∧ w ≤ bit + count := by
  rw [mask_eq, ← Int.natCast_shiftLeft, Int.ofNat_lt]
  have full : 2 ^ w - 1 < residue.toNat <<< count ↔ 2 ^ w ≤ residue.toNat <<< count := by
    have := Nat.two_pow_pos w
    omega
  rw [full]
  constructor
  · intro large
    obtain ⟨bit, above, lit⟩ := Nat.exists_ge_and_testBit_of_ge_two_pow large
    rw [Nat.testBit_shiftLeft, Bool.and_eq_true, decide_eq_true_eq] at lit
    refine ⟨bit - count, ?_, by omega⟩
    rw [← BitVec.testBit_toNat]
    exact lit.2
  · rintro ⟨bit, lit, above⟩
    rw [← BitVec.testBit_toNat] at lit
    have lit : (residue.toNat <<< count).testBit (bit + count) = true := by
      rw [Nat.testBit_shiftLeft]
      simpa using lit
    exact (Nat.pow_le_pow_right (by decide) above).trans (Nat.ge_two_pow_of_testBit lit)

theorem shiftLeft_beyond (far : w ≤ count) : residue <<< count = 0 := by
  apply BitVec.eq_of_getLsbD_eq
  intro bit inside
  simp [show bit < count by omega]

theorem shiftRight_beyond (far : w ≤ count) : residue >>> count = 0 := by
  apply BitVec.eq_of_getLsbD_eq
  intro bit _
  rw [BitVec.getLsbD_ushiftRight]
  simp [BitVec.getLsbD_of_ge residue (count + bit) (by omega)]

/-- An arithmetic shift by the width or more leaves the sign. -/
theorem toInt_div_beyond (far : w ≤ count) :
    residue.toInt / 2 ^ count = if residue.toInt < 0 then -1 else 0 := by
  have wide : (2 : ℤ) ^ w ≤ 2 ^ count := pow_le_pow_right₀ (by decide) far
  have below := @BitVec.two_mul_toInt_lt w residue
  have above := @BitVec.le_two_mul_toInt w residue
  have positive : (0 : ℤ) < 2 ^ w := Int.pow_pos (by decide)
  split
  · rename_i negative
    rw [Int.ediv_eq_iff_of_pos (by omega)]
    omega
  · exact Int.ediv_eq_zero_of_lt (by omega) (by omega)

theorem rotateRight_rotateLeft : (residue.rotateLeft count).rotateRight count = residue := by
  rcases Nat.eq_zero_or_pos w with rfl | positive
  · exact Subsingleton.elim _ _
  rw [← BitVec.rotateLeft_mod_eq_rotateLeft, ← BitVec.rotateRight_mod_eq_rotateRight]
  have turn : count % w < w := Nat.mod_lt count positive
  apply BitVec.eq_of_getLsbD_eq
  intro bit inside
  rw [BitVec.getLsbD_rotateRight_of_lt turn, Bool.cond_decide]
  split
  · rw [BitVec.getLsbD_rotateLeft_of_le turn]
    simp [show ¬count % w + bit < count % w by omega, show count % w + bit < w by omega]
  · rw [BitVec.getLsbD_rotateLeft_of_le turn]
    simp [show bit - (w - count % w) < count % w by omega, inside,
      show w - count % w + (bit - (w - count % w)) = bit by omega]

end Shifts

section Rows

variable {base : ℕ}

/-- The digits of a number, the most significant first, with zeros in front. -/
theorem toDigits_numeral (large : 1 < base) (value : ℕ) :
    ∃ digits : List ℕ, (∀ digit ∈ digits, digit < base) ∧ numeral base digits = value ∧
      Nat.toDigits base value = digits.map Nat.digitChar := by
  induction value using Nat.strongRecOn with
  | ind value ih =>
    rw [Nat.toDigits_eq_if large]
    split
    · rename_i small
      exact ⟨[value], by simpa using small, by simp [numeral], rfl⟩
    · rename_i big
      have big : base ≤ value := Nat.le_of_not_lt big
      obtain ⟨digits, below, worth, row⟩ := ih (value / base) (Nat.div_lt_self (by omega) large)
      refine ⟨digits ++ [value % base], ?_, ?_, ?_⟩
      · simpa [or_imp, forall_and] using ⟨below, Nat.mod_lt value (by omega)⟩
      · rw [numeral_concat, worth, Nat.div_add_mod']
      · rw [row, List.map_append]
        rfl

/-- `format(value, "0Nx")` and its relatives. -/
def padded (base width value : ℕ) : List Char := (Nat.toDigits base value).leftpad width '0'

theorem padded_row {width value : ℕ} (large : 1 < base) (positive : 0 < width)
    (fits : value < base ^ width) :
    ∃ digits : List ℕ, digits.length = width ∧ (∀ digit ∈ digits, digit < base) ∧
      numeral base digits = value ∧ padded base width value = digits.map Nat.digitChar := by
  obtain ⟨digits, below, worth, row⟩ := toDigits_numeral large value
  have short : digits.length ≤ width := by
    have := (Nat.length_toDigits_le_iff large positive).mpr fits
    rwa [row, List.length_map] at this
  refine ⟨List.replicate (width - digits.length) 0 ++ digits, ?_, ?_, ?_, ?_⟩
  · simp
    omega
  · intro digit member
    rcases List.mem_append.mp member with zero | digit_mem
    · rw [List.eq_of_mem_replicate zero]
      omega
    · exact below digit digit_mem
  · induction width - digits.length with
    | zero => exact worth
    | succ count ih => rw [List.replicate_succ, List.cons_append, numeral_cons, Nat.zero_mul,
        Nat.zero_add, ih]
  · rw [padded, row, List.leftpad, List.map_append, List.map_replicate, List.length_map]
    rfl

end Rows

end CodeCalc.Lib.FixedWidth
