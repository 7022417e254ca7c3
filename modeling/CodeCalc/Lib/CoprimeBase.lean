import Mathlib.Algebra.CharZero.Defs
import Mathlib.Algebra.Field.Basic
import Mathlib.Algebra.BigOperators.Ring.List
import Mathlib.Data.List.Prime
import Mathlib.Data.Nat.Prime.Int
import Mathlib.NumberTheory.ArithmeticFunction.Misc
import Mathlib.Tactic.FieldSimp
import Mathlib.Tactic.Ring

/-! Products of integer powers of natural numbers: when no two bases share a
factor, the product is an integer just when no exponent is negative.  Taking a
common factor out of two bases leaves fewer prime factors. -/
namespace CodeCalc.Lib

section Stripping

/-- The division loop: what is left of `n` and how often `g` went into it.  A
divisor up to one, and zero itself, are left alone. -/
def strip (g n : ℕ) : ℕ × ℕ :=
  if 1 < g ∧ 0 < n ∧ n % g = 0 then
    let rest := strip g (n / g)
    (rest.1, rest.2 + 1)
  else (n, 0)
termination_by n
decreasing_by
  rename_i h
  exact Nat.div_lt_self h.2.1 h.1

variable {g n : ℕ}

theorem strip_mul (g n : ℕ) : g ^ (strip g n).2 * (strip g n).1 = n := by
  fun_induction strip g n with
  | case1 n h rest ih =>
    rw [pow_succ, mul_assoc, mul_comm g, ← mul_assoc, ih]
    exact Nat.div_mul_cancel (Nat.dvd_of_mod_eq_zero h.2.2)
  | case2 n h => simp

theorem strip_pos (positive : 0 < n) : 0 < (strip g n).1 := by
  rcases Nat.eq_zero_or_pos (strip g n).1 with zero | pos
  · have product := strip_mul g n
    rw [zero, mul_zero] at product
    omega
  · exact pos

theorem strip_count_pos (large : 1 < g) (positive : 0 < n) (dvd : g ∣ n) : 0 < (strip g n).2 := by
  rw [strip, if_pos ⟨large, positive, Nat.mod_eq_zero_of_dvd dvd⟩]
  exact Nat.succ_pos _

end Stripping

section PrimeCount

open ArithmeticFunction

variable {a b : ℕ}

theorem cardFactors_strip {g n : ℕ} (large : 1 < g) (positive : 0 < n) (dvd : g ∣ n) :
    cardFactors g + cardFactors (strip g n).1 ≤ cardFactors n := by
  obtain ⟨count, hcount⟩ := Nat.exists_eq_add_of_lt (strip_count_pos large positive dvd)
  have rest := strip_pos (g := g) positive
  have power : 0 < g ^ count := Nat.pow_pos (by omega)
  have split : n = g * (g ^ count * (strip g n).1) := by
    conv_lhs => rw [← strip_mul g n, hcount]
    ring
  conv_rhs => rw [split, cardFactors_mul (by omega) (by positivity),
    cardFactors_mul power.ne' rest.ne']
  omega

theorem cardFactors_merge (ha : 0 < a) (hb : 0 < b) (shared : 1 < Nat.gcd a b) :
    cardFactors (Nat.gcd a b) + cardFactors (strip (Nat.gcd a b) a).1 +
      cardFactors (strip (Nat.gcd a b) b).1 < cardFactors a + cardFactors b := by
  have left := cardFactors_strip shared ha (Nat.gcd_dvd_left a b)
  have right := cardFactors_strip shared hb (Nat.gcd_dvd_right a b)
  have some : 0 < cardFactors (Nat.gcd a b) := cardFactors_pos_iff_one_lt.mpr shared
  omega

end PrimeCount

section Integrality

variable {K : Type*} [Field K] [CharZero K] {powers : List (ℕ × ℤ)}

def powerProduct (K : Type*) [Field K] (powers : List (ℕ × ℤ)) : K :=
  (powers.map fun entry => (entry.1 : K) ^ entry.2).prod

/-- No two bases share a factor, and each has one. -/
structure CoprimeBase (powers : List (ℕ × ℤ)) : Prop where
  large : ∀ entry ∈ powers, 1 < entry.1
  coprime : powers.Pairwise fun left right => left.1.Coprime right.1

def powerNumerator (powers : List (ℕ × ℤ)) : ℕ :=
  (powers.map fun entry => entry.1 ^ entry.2.toNat).prod

def powerDenominator (powers : List (ℕ × ℤ)) : ℕ :=
  (powers.map fun entry => entry.1 ^ (-entry.2).toNat).prod

theorem powerNumerator_pos (positive : ∀ entry ∈ powers, 0 < entry.1) :
    0 < powerNumerator powers := by
  apply List.prod_pos
  intro factor member
  obtain ⟨entry, found, rfl⟩ := List.mem_map.mp member
  exact Nat.pow_pos (positive entry found)

theorem powerProduct_mul_denominator (positive : ∀ entry ∈ powers, 0 < entry.1) :
    powerProduct K powers * powerDenominator powers = powerNumerator powers := by
  induction powers with
  | nil => simp [powerProduct, powerDenominator, powerNumerator]
  | cons entry powers ih =>
    have rest := ih fun other member => positive other (List.mem_cons_of_mem _ member)
    have nonzero : (entry.1 : K) ≠ 0 := by
      exact_mod_cast (positive entry List.mem_cons_self).ne'
    have head : (entry.1 : K) ^ entry.2 * (entry.1 : K) ^ (-entry.2).toNat =
        (entry.1 : K) ^ entry.2.toNat := by
      rw [← zpow_natCast, ← zpow_natCast, ← zpow_add₀ nonzero]
      congr 1
      omega
    simp only [powerProduct, powerDenominator, powerNumerator, List.map_cons, List.prod_cons,
      Nat.cast_mul, Nat.cast_pow] at rest ⊢
    rw [← rest, ← head]
    ring

omit [CharZero K] in
theorem powerProduct_of_nonneg (nonneg : ∀ entry ∈ powers, 0 ≤ entry.2) :
    powerProduct K powers = powerNumerator powers := by
  induction powers with
  | nil => simp [powerProduct, powerNumerator]
  | cons entry powers ih =>
    have rest := ih fun other member => nonneg other (List.mem_cons_of_mem _ member)
    have head : (entry.1 : K) ^ entry.2 = (entry.1 : K) ^ entry.2.toNat := by
      rw [← zpow_natCast, Int.toNat_of_nonneg (nonneg entry List.mem_cons_self)]
    simp only [powerProduct, powerNumerator, List.map_cons, List.prod_cons, Nat.cast_mul,
      Nat.cast_pow] at rest ⊢
    rw [rest, head]

theorem dvd_denominator {entry : ℕ × ℤ} (member : entry ∈ powers) (negative : entry.2 < 0) :
    entry.1 ∣ powerDenominator powers := by
  have factor : entry.1 ^ (-entry.2).toNat ∣ powerDenominator powers :=
    List.dvd_prod (List.mem_map_of_mem member)
  exact (dvd_pow_self entry.1 (by omega)).trans factor

theorem CoprimeBase.positive (base : CoprimeBase powers) : ∀ entry ∈ powers, 0 < entry.1 :=
  fun entry member => Nat.lt_of_succ_lt (base.large entry member)

theorem CoprimeBase.not_dvd_numerator (base : CoprimeBase powers) {entry : ℕ × ℤ} {p : ℕ}
    (prime : p.Prime) (member : entry ∈ powers) (negative : entry.2 < 0) (dvd : p ∣ entry.1) :
    ¬ p ∣ powerNumerator powers := by
  intro inside
  obtain ⟨factor, hfactor, inside⟩ := prime.prime.dvd_prod_iff.mp inside
  obtain ⟨other, hother, rfl⟩ := List.mem_map.mp hfactor
  have shared : p ∣ other.1 := prime.dvd_of_dvd_pow inside
  by_cases same : other = entry
  · rw [same, show entry.2.toNat = 0 by omega, pow_zero] at inside
    exact prime.one_lt.ne' (Nat.dvd_one.mp inside)
  · have : Std.Symm fun left right : ℕ × ℤ => left.1.Coprime right.1 := ⟨fun _ _ h => h.symm⟩
    have apart : other.1.Coprime entry.1 := base.coprime.forall hother member same
    exact prime.one_lt.ne' (Nat.eq_one_of_dvd_coprimes apart shared dvd)

theorem CoprimeBase.isInteger_iff (base : CoprimeBase powers) :
    (∃ m : ℤ, powerProduct K powers = m) ↔ ∀ entry ∈ powers, 0 ≤ entry.2 := by
  constructor
  · rintro ⟨m, hm⟩ entry member
    by_contra negative
    rw [not_le] at negative
    have large := base.large entry member
    obtain ⟨p, prime, dvd⟩ := Nat.exists_prime_and_dvd large.ne'
    have product := powerProduct_mul_denominator (K := K) base.positive
    rw [hm] at product
    have product : m * (powerDenominator powers : ℤ) = powerNumerator powers := by
      exact_mod_cast product
    have inside : (p : ℤ) ∣ powerNumerator powers := by
      rw [← product]
      exact dvd_mul_of_dvd_right
        (Int.natCast_dvd_natCast.mpr (dvd.trans (dvd_denominator member negative))) m
    exact base.not_dvd_numerator prime member negative dvd (Int.natCast_dvd_natCast.mp inside)
  · intro nonneg
    exact ⟨powerNumerator powers, by rw [powerProduct_of_nonneg nonneg]; simp⟩

end Integrality
end CodeCalc.Lib
