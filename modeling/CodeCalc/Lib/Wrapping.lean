import Mathlib.Data.Nat.Basic
import Mathlib.Algebra.GroupWithZero.Nat

/-! Unsigned machine arithmetic that wraps, with the record of whether it did.
A chain of steps that never shrinks what it computes is exact as long as its
last value fits. -/
namespace CodeCalc.Lib

universe u

structure Wrapping (α : Type u) where
  value : α
  wrapped : Bool
  deriving DecidableEq

namespace Wrapping

variable {α β : Type u} {w : Nat}

instance : Monad Wrapping where
  pure value := ⟨value, false⟩
  bind step next :=
    ⟨(next step.value).value, step.wrapped || (next step.value).wrapped⟩

@[simp] theorem value_pure (value : α) : (pure value : Wrapping α).value = value := rfl

@[simp] theorem wrapped_pure (value : α) : (pure value : Wrapping α).wrapped = false := rfl

@[simp] theorem value_bind (step : Wrapping α) (next : α → Wrapping β) :
    (step >>= next).value = (next step.value).value := rfl

@[simp] theorem wrapped_bind (step : Wrapping α) (next : α → Wrapping β) :
    (step >>= next).wrapped = (step.wrapped || (next step.value).wrapped) := rfl

def add (left right : BitVec w) : Wrapping (BitVec w) :=
  ⟨left + right, left.uaddOverflow right⟩

def mul (left right : BitVec w) : Wrapping (BitVec w) :=
  ⟨left * right, left.umulOverflow right⟩

/-- The steps wrap exactly when the number they stand for does not fit, and
give that number when they do not wrap. -/
structure Computes (step : Wrapping (BitVec w)) (number : Nat) : Prop where
  wrapped_iff : step.wrapped = true ↔ 2 ^ w ≤ number
  toNat_value : number < 2 ^ w → step.value.toNat = number

theorem computes_add (left right : BitVec w) :
    Computes (add left right) (left.toNat + right.toNat) where
  wrapped_iff := by simp [add, BitVec.uaddOverflow]
  toNat_value fits := by
    rw [add, BitVec.toNat_add, Nat.mod_eq_of_lt fits]

theorem computes_mul (left right : BitVec w) :
    Computes (mul left right) (left.toNat * right.toNat) where
  wrapped_iff := by simp [mul, BitVec.umulOverflow]
  toNat_value fits := by
    rw [mul, BitVec.toNat_mul, Nat.mod_eq_of_lt fits]

theorem Computes.mul {step : Wrapping (BitVec w)} {number : Nat} (h : Computes step number)
    {factor : BitVec w} (positive : 0 < factor.toNat) :
    Computes (step >>= fun value => mul value factor) (number * factor.toNat) where
  wrapped_iff := by
    have grows := Nat.le_mul_of_pos_right number positive
    rw [wrapped_bind, Bool.or_eq_true, h.wrapped_iff, (computes_mul _ _).wrapped_iff]
    by_cases fits : number < 2 ^ w
    · rw [h.toNat_value fits]
      omega
    · exact iff_of_true (Or.inl (by omega)) (by omega)
  toNat_value fits := by
    have grows := Nat.le_mul_of_pos_right number positive
    have exact := h.toNat_value (by omega)
    rw [value_bind, (computes_mul _ _).toNat_value (by rwa [exact]), exact]

theorem Computes.exact {step : Wrapping (BitVec w)} {number : Nat} (h : Computes step number)
    (fits : number < 2 ^ w) : step.wrapped = false ∧ step.value.toNat = number := by
  refine ⟨?_, h.toNat_value fits⟩
  rw [← Bool.not_eq_true, h.wrapped_iff]
  omega

theorem Computes.lt_iff {step : Wrapping (BitVec w)} {number : Nat} (h : Computes step number) :
    step.wrapped = false ↔ number < 2 ^ w := by
  rw [← Bool.not_eq_true, h.wrapped_iff]
  omega

end Wrapping

end CodeCalc.Lib
