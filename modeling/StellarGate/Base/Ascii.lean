import Mathlib.Data.Char
import Mathlib.Tactic.Common

/-! The case of ASCII letters, by their code points. -/
namespace Base
variable {c d : Char}

theorem toNat_toUpper (c : Char) :
    c.toUpper.toNat = if 97 ≤ c.toNat ∧ c.toNat ≤ 122 then c.toNat - 32 else c.toNat := by
  have hval : c.val.toNat = c.toNat := rfl
  have hshift : ('A'.val - 'a'.val).toNat = 2 ^ 32 - 32 := rfl
  unfold Char.toUpper
  split_ifs with h h' h'
  · have hadd : (c.val + ('A'.val - 'a'.val)).toNat = c.toNat - 32 := by
      rw [UInt32.toNat_add, hval, hshift]
      omega
    exact hadd
  · exact absurd h h'
  · exact absurd h' h
  · rfl

theorem toNat_toLower (c : Char) :
    c.toLower.toNat = if 65 ≤ c.toNat ∧ c.toNat ≤ 90 then c.toNat + 32 else c.toNat := by
  have hval : c.val.toNat = c.toNat := rfl
  have hshift : ('a'.val - 'A'.val).toNat = 32 := rfl
  unfold Char.toLower
  split_ifs with h h' h'
  · have hadd : (c.val + ('a'.val - 'A'.val)).toNat = c.toNat + 32 := by
      rw [UInt32.toNat_add, hval, hshift]
      omega
    exact hadd
  · exact absurd h h'
  · exact absurd h' h
  · rfl

theorem isLower_iff : c.isLower = true ↔ 97 ≤ c.toNat ∧ c.toNat ≤ 122 := by
  have hdef : c.isLower = (decide ('a'.val ≤ c.val) && decide (c.val ≤ 'z'.val)) := rfl
  rw [hdef, Bool.and_eq_true, decide_eq_true_iff, decide_eq_true_iff, UInt32.le_iff_toNat_le,
    UInt32.le_iff_toNat_le]
  rfl

theorem isUpper_iff : c.isUpper = true ↔ 65 ≤ c.toNat ∧ c.toNat ≤ 90 := by
  have hdef : c.isUpper = decide ('A'.val ≤ c.val ∧ c.val ≤ 'Z'.val) := rfl
  rw [hdef, decide_eq_true_iff, UInt32.le_iff_toNat_le, UInt32.le_iff_toNat_le]
  rfl

theorem toNat_lt_of_isAlphanum (h : c.isAlphanum = true) : c.toNat < 128 := by
  have hdef : c.isAlphanum = ((c.isUpper || c.isLower) || c.isDigit) := rfl
  rw [hdef, Bool.or_eq_true, Bool.or_eq_true, isUpper_iff, isLower_iff, Char.isDigit_iff_toNat] at h
  have h9 : '9'.toNat = 57 := rfl
  omega

/-- The two ways to compare letters without their case agree. -/
theorem toUpper_eq_iff : c.toUpper = d.toUpper ↔ c.toLower = d.toLower := by
  rw [← Char.toNat_inj, ← Char.toNat_inj, toNat_toUpper, toNat_toUpper, toNat_toLower,
    toNat_toLower]
  split_ifs <;> omega

theorem isLower_toUpper (c : Char) : c.toUpper.isLower = false := by
  by_contra h
  rw [Bool.not_eq_false] at h
  have hrange := isLower_iff.mp h
  rw [toNat_toUpper] at hrange
  split_ifs at hrange <;> omega

theorem toUpper_eq_self_iff : c.toUpper = c ↔ c.isLower = false := by
  rw [← Char.toNat_inj, toNat_toUpper, ← Bool.not_eq_true, isLower_iff]
  split_ifs <;> omega

theorem map_eq_map_iff_of_iff {α β γ : Type*} {f : α → β} {g : α → γ}
    (h : ∀ a b, f a = f b ↔ g a = g b) {as bs : List α} :
    as.map f = bs.map f ↔ as.map g = bs.map g := by
  induction as generalizing bs with
  | nil => cases bs <;> simp
  | cons a as ih =>
    cases bs with
    | nil => simp
    | cons b bs => simp only [List.map_cons, List.cons.injEq, h, ih]

end Base
