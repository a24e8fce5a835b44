import Mathlib.Algebra.Ring.Nat
import Mathlib.Tactic.Common

/-! Saturating and checked operations on machine words. -/
namespace Base

def saturatingSub (a b : UInt32) : UInt32 := if b ≤ a then a - b else 0

def saturatingPow (b e : UInt32) : UInt32 := UInt32.ofNat (min (b.toNat ^ e.toNat) (2 ^ 32 - 1))

/-- `u64::checked_add`: none where the sum does not fit. -/
def checkedAdd (a b : UInt64) : Option UInt64 :=
  if a.toNat + b.toNat < 2 ^ 64 then some (a + b) else none

/-- `u64::checked_sub`: none where the difference is negative. -/
def checkedSub (a b : UInt64) : Option UInt64 := if b ≤ a then some (a - b) else none

theorem toNat_saturatingSub (a b : UInt32) : (saturatingSub a b).toNat = a.toNat - b.toNat := by
  unfold saturatingSub
  split_ifs with h
  · exact UInt32.toNat_sub_of_le a b h
  · have hlt : a.toNat < b.toNat := UInt32.lt_iff_toNat_lt.mp (UInt32.not_le.mp h)
    rw [Nat.sub_eq_zero_of_le (Nat.le_of_lt hlt)]
    rfl

theorem toNat_saturatingPow (b e : UInt32) :
    (saturatingPow b e).toNat = min (b.toNat ^ e.toNat) (2 ^ 32 - 1) := by
  unfold saturatingPow
  rw [UInt32.toNat_ofNat']
  exact Nat.mod_eq_of_lt (by omega)

theorem toNat_ofNat_of_le {n : ℕ} {cap : UInt64} (h : n ≤ cap.toNat) :
    (UInt64.ofNat n).toNat = n := by
  have hcap := cap.toNat_lt
  rw [UInt64.toNat_ofNat']
  exact Nat.mod_eq_of_lt (by omega)

theorem checkedAdd_of_lt {a b : UInt64} (h : a.toNat + b.toNat < 2 ^ 64) :
    checkedAdd a b = some (a + b) ∧ (a + b).toNat = a.toNat + b.toNat := by
  constructor
  · exact if_pos h
  · rw [UInt64.toNat_add]
    exact Nat.mod_eq_of_lt h

theorem checkedSub_of_le {a b : UInt64} (h : b.toNat ≤ a.toNat) :
    checkedSub a b = some (a - b) ∧ (a - b).toNat = a.toNat - b.toNat := by
  have hle : b ≤ a := UInt64.le_iff_toNat_le.mpr h
  constructor
  · exact if_pos hle
  · exact UInt64.toNat_sub_of_le a b hle

end Base
