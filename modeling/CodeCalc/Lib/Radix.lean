import Mathlib.Data.Nat.Digits.Defs
import Mathlib.Data.Nat.GCD.Basic
import Mathlib.Data.Rat.Floor
import Mathlib.Algebra.Order.Floor.Semifield
import Mathlib.Tactic.LinearCombination
import Mathlib.Tactic.FieldSimp
import Mathlib.Tactic.Linarith

/-! Positional notation: what a list of digits is worth, the digits long
division writes behind the point, and the rational numbers that have a finite
expansion in a base. -/
namespace CodeCalc.Lib.Radix

section Numerals

variable {base digit : ℕ} {digits : List ℕ}

def numeral (base : ℕ) (digits : List ℕ) : ℕ :=
  digits.foldl (fun value digit => value * base + digit) 0

theorem foldl_numeral (value : ℕ) :
    digits.foldl (fun value digit => value * base + digit) value =
      value * base ^ digits.length + numeral base digits := by
  induction digits generalizing value with
  | nil => simp [numeral]
  | cons digit rest ih =>
    rw [numeral, List.foldl_cons, List.foldl_cons, ih, ih (0 * base + digit), List.length_cons]
    ring

@[simp] theorem numeral_nil : numeral base [] = 0 := rfl

theorem numeral_cons :
    numeral base (digit :: digits) = digit * base ^ digits.length + numeral base digits := by
  rw [numeral, List.foldl_cons, foldl_numeral]
  ring

theorem numeral_concat :
    numeral base (digits ++ [digit]) = numeral base digits * base + digit := by
  rw [numeral, List.foldl_append]
  rfl

theorem numeral_lt (small : ∀ digit ∈ digits, digit < base) :
    numeral base digits < base ^ digits.length := by
  induction digits with
  | nil => simp
  | cons digit rest ih =>
    have first : digit + 1 ≤ base := small digit (by simp)
    have later := ih fun other member => small other (List.mem_cons_of_mem _ member)
    calc numeral base (digit :: rest) = digit * base ^ rest.length + numeral base rest := numeral_cons
      _ < (digit + 1) * base ^ rest.length := by
          rw [Nat.succ_mul]
          omega
      _ ≤ base ^ (rest.length + 1) := by
          rw [Nat.pow_succ']
          exact Nat.mul_le_mul_right _ first

/-- Digits taken off at the low end, read from the high end. -/
theorem numeral_reverse_digits (base value : ℕ) :
    numeral base (base.digits value).reverse = value := by
  have reversed (digits : List ℕ) : numeral base digits.reverse = Nat.ofDigits base digits := by
    induction digits with
    | nil => rfl
    | cons digit rest ih =>
      rw [List.reverse_cons, numeral_concat, ih, Nat.ofDigits_cons]
      ring
  rw [reversed, Nat.ofDigits_digits]

end Numerals

section Division

variable {base den : ℕ}

/-- Long division: the next `count` digits of `rest / den`. -/
def quotients (base den : ℕ) : ℕ → ℕ → List ℕ
  | 0, _ => []
  | count + 1, rest => rest * base / den :: quotients base den count (rest * base % den)

@[simp] theorem length_quotients (count rest : ℕ) : (quotients base den count rest).length = count := by
  induction count generalizing rest with
  | zero => rfl
  | succ count ih => rw [quotients, List.length_cons, ih]

/-- What the digits written so far are short of the number is the remainder. -/
theorem numeral_quotients {rest : ℕ} (proper : rest < den) (count : ℕ) :
    numeral base (quotients base den count rest) * den + rest * base ^ count % den =
      rest * base ^ count := by
  induction count generalizing rest with
  | zero =>
    rw [quotients, numeral_nil, Nat.zero_mul, Nat.zero_add, Nat.pow_zero, Nat.mul_one,
      Nat.mod_eq_of_lt proper]
  | succ count ih =>
    have turn := ih (Nat.mod_lt (rest * base) (Nat.zero_lt_of_lt proper))
    have left : rest * base ^ (count + 1) % den = rest * base % den * base ^ count % den := by
      rw [Nat.pow_succ', ← Nat.mul_assoc, Nat.mod_mul_mod]
    calc numeral base (quotients base den (count + 1) rest) * den + rest * base ^ (count + 1) % den
        = den * (rest * base / den) * base ^ count +
          (numeral base (quotients base den count (rest * base % den)) * den +
            rest * base % den * base ^ count % den) := by
          rw [left, quotients, numeral_cons, length_quotients]
          ring
      _ = (den * (rest * base / den) + rest * base % den) * base ^ count := by
          rw [turn]
          ring
      _ = rest * base ^ (count + 1) := by
          rw [Nat.div_add_mod]
          ring

/-- The digit behind the point at a place, from the remainder that place starts with. -/
theorem quotients_eq_map {rest : ℕ} (proper : rest < den) (count : ℕ) :
    quotients base den count rest =
      (List.range count).map fun place => rest * base ^ place % den * base / den := by
  induction count generalizing rest with
  | zero => rfl
  | succ count ih =>
    rw [quotients, ih (Nat.mod_lt (rest * base) (Nat.zero_lt_of_lt proper)), List.range_succ_eq_map,
      List.map_cons, List.map_map, Nat.pow_zero, Nat.mul_one, Nat.mod_eq_of_lt proper]
    congr 2
    funext place
    rw [Function.comp_apply, Nat.pow_succ', ← Nat.mul_assoc, Nat.mod_mul_mod]

theorem digit_lt {rest digit count : ℕ} (proper : rest < den) (positive : 0 < base)
    (member : digit ∈ quotients base den count rest) : digit < base := by
  rw [quotients_eq_map proper] at member
  obtain ⟨place, _, rfl⟩ := List.mem_map.mp member
  apply Nat.div_lt_of_lt_mul
  exact Nat.mul_lt_mul_of_pos_right
    (Nat.mod_lt (rest * base ^ place) (Nat.zero_lt_of_lt proper)) positive

end Division

section Expansion

variable {base num den places : ℕ}

/-- `x` is written in the base with at most so many digits behind the point. -/
def Fits (base : ℕ) (x : ℚ) (places : ℕ) : Prop := ∃ n : ℤ, x * base ^ places = n

def Finite (base : ℕ) (x : ℚ) : Prop := ∃ places, Fits base x places

/-- The digit of a non-negative `x` at a place behind the point, counted from 0. -/
def digitAt (base : ℕ) (x : ℚ) (place : ℕ) : ℕ := ⌊x * base ^ (place + 1)⌋₊ % base

/-- A reduced fraction fits when its denominator divides the power of the base. -/
theorem fits_iff (whole : ℕ) (reduced : num.Coprime den) (positive : 0 < den) :
    Fits base (whole + num / den) places ↔ den ∣ base ^ places := by
  have nonzero : (den : ℚ) ≠ 0 := Nat.cast_ne_zero.mpr (by omega)
  have clear (n : ℤ) : ((whole + num / den : ℚ) * base ^ places = n) ↔
      (((whole * den + num) * base ^ places : ℕ) : ℤ) = n * den := by
    rw [← @Int.cast_inj ℚ]
    push_cast
    constructor
    · intro same
      rw [← same]
      field_simp
    · intro same
      apply mul_right_cancel₀ nonzero
      rw [← same]
      field_simp
  simp only [Fits, clear]
  constructor
  · rintro ⟨n, same⟩
    have divides : den ∣ (whole * den + num) * base ^ places := by
      apply Int.natCast_dvd_natCast.mp
      rw [same]
      exact Int.dvd_mul_left n den
    apply Nat.Coprime.dvd_of_dvd_mul_left _ divides
    rw [Nat.add_comm]
    exact (Nat.coprime_add_mul_right_right den num whole).mpr reduced.symm
  · rintro ⟨factor, same⟩
    refine ⟨((whole * den + num) * factor : ℕ), ?_⟩
    rw [same]
    push_cast
    ring

theorem digitAt_eq (whole : ℕ) (place : ℕ) (proper : num < den) :
    digitAt base (whole + num / den) place = num * base ^ place % den * base / den := by
  have positive : 0 < den := Nat.zero_lt_of_lt proper
  have nonzero : (den : ℚ) ≠ 0 := Nat.cast_ne_zero.mpr (by omega)
  have split := Nat.div_add_mod (num * base ^ place) den
  have scaled : (whole + num / den : ℚ) * base ^ (place + 1) =
      ((den * ((whole * base ^ place + num * base ^ place / den) * base) +
        num * base ^ place % den * base : ℕ) : ℚ) / (den : ℕ) := by
    have split : (den : ℚ) * (num * base ^ place / den : ℕ) + (num * base ^ place % den : ℕ) =
        num * base ^ place := by exact_mod_cast split
    push_cast
    field_simp
    rw [pow_succ]
    linear_combination (-(base : ℚ)) * split
  have small : num * base ^ place % den * base / den < base ∨ base = 0 := by
    by_cases zero : base = 0
    · exact .inr zero
    · left
      apply Nat.div_lt_of_lt_mul
      exact Nat.mul_lt_mul_of_pos_right (Nat.mod_lt _ positive) (Nat.pos_of_ne_zero zero)
  rw [digitAt, scaled, Nat.floor_div_eq_div, Nat.mul_add_div positive, Nat.mul_add_mod_self_right]
  rcases small with small | zero
  · exact Nat.mod_eq_of_lt small
  · simp [zero]

end Expansion

section Termination

/-- The factors a number shares with the base taken out of it, for at most
`fuel` turns. -/
def stripShared (base : ℕ) : ℕ → ℕ → ℕ
  | 0, check => check
  | fuel + 1, check =>
      if 1 < check then
        let shared := check.gcd base
        if shared = 1 then check else stripShared base fuel (check / shared)
      else check

/-- What is left is 1 when the number divides a power of the base.  A turn at
least halves the number, so it never takes more turns than the number says. -/
theorem stripShared_eq_one_iff {base fuel check : ℕ} (positive : 0 < check) (enough : check ≤ fuel) :
    stripShared base fuel check = 1 ↔ ∃ places, check ∣ base ^ places := by
  induction fuel generalizing check with
  | zero => omega
  | succ fuel ih =>
    rw [stripShared]
    by_cases more : 1 < check
    · rw [if_pos more]
      by_cases coprime : check.gcd base = 1
      · simp only [coprime, if_true]
        constructor
        · intro one
          omega
        · rintro ⟨places, divides⟩
          exact Nat.Coprime.eq_one_of_dvd (Nat.Coprime.pow_right places coprime) divides
      · have shared : check.gcd base ∣ check := Nat.gcd_dvd_left check base
        have large : 1 < check.gcd base := by
          have := Nat.pos_of_dvd_of_pos shared positive
          omega
        have smaller : check / check.gcd base < check := Nat.div_lt_self positive large
        have rest : 0 < check / check.gcd base := Nat.div_pos (Nat.le_of_dvd positive shared) (by omega)
        simp only [coprime, if_false]
        rw [ih rest (by omega)]
        constructor
        · rintro ⟨places, divides⟩
          refine ⟨places + 1, ?_⟩
          calc check = check / check.gcd base * check.gcd base := (Nat.div_mul_cancel shared).symm
            _ ∣ base ^ (places + 1) := Nat.mul_dvd_mul divides (Nat.gcd_dvd_right check base)
        · rintro ⟨places, divides⟩
          exact ⟨places, (Nat.div_dvd_of_dvd shared).trans divides⟩
    · have one : check = 1 := by omega
      rw [if_neg more, one]
      exact ⟨fun _ => ⟨0, Nat.one_dvd _⟩, fun _ => rfl⟩

end Termination

end CodeCalc.Lib.Radix
