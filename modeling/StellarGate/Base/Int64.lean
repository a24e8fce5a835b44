import Mathlib.Algebra.Order.Group.Int
import Mathlib.Algebra.Order.Ring.Int
import Mathlib.Tactic.Common

/-! The 64-bit integers of SQL expressions, and their shift. -/
namespace Base

def FitsInt64 (n : ℤ) : Prop := -2 ^ 63 ≤ n ∧ n < 2 ^ 63

instance (n : ℤ) : Decidable (FitsInt64 n) := inferInstanceAs (Decidable (_ ∧ _))

/-- `a << b`. The upper bits are lost, and a negative `b` shifts to the right. -/
def shiftLeft (a b : ℤ) : ℤ :=
  if b < 0 then a / 2 ^ (min (-b) 64).toNat
  else if b < 64 then (a * 2 ^ b.toNat).bmod (2 ^ 64)
  else 0

theorem shiftLeft_eq_mul {a b : ℤ} (h0 : 0 ≤ b) (h : b < 64) (hfits : FitsInt64 (a * 2 ^ b.toNat)) :
    shiftLeft a b = a * 2 ^ b.toNat := by
  obtain ⟨hlo, hhi⟩ := hfits
  unfold shiftLeft
  rw [if_neg (not_lt.mpr h0), if_pos h]
  apply Int.bmod_eq_of_le <;> omega

theorem shiftLeft_one_of_neg {b : ℤ} (h : b < 0) : shiftLeft 1 b = 0 := by
  unfold shiftLeft
  rw [if_pos h]
  apply Int.ediv_eq_zero_of_lt (by omega)
  have hexp : 1 ≤ (min (-b) 64).toNat := by omega
  calc (1 : ℤ) < 2 ^ 1 := by decide
    _ ≤ 2 ^ (min (-b) 64).toNat := pow_le_pow_right₀ (by decide) hexp

theorem shiftLeft_one_eq_pow {b : ℤ} (h0 : 0 ≤ b) (h : b ≤ 62) : shiftLeft 1 b = 2 ^ b.toNat := by
  have hle : (2 : ℤ) ^ b.toNat ≤ 2 ^ 62 := pow_le_pow_right₀ (by decide) (by omega)
  have hpos : (0 : ℤ) < 2 ^ b.toNat := pow_pos (by decide) _
  rw [shiftLeft_eq_mul h0 (by omega)]
  · exact one_mul _
  · unfold FitsInt64
    omega

end Base
