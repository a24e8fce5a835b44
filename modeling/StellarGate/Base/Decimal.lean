import Mathlib.Data.List.Basic
import Mathlib.Algebra.Order.Ring.Nat
import Mathlib.Tactic.IntervalCases

/-! Decimal numerals of a fixed width: as texts they are ordered as the numbers are. -/
namespace Base

/-- The numeral of `n` in at least `width` columns. -/
def numeral (width n : ℕ) : List Char := (Nat.toDigits 10 n).leftpad width '0'

theorem digitChar_lt {d e : ℕ} (h : d < e) (he : e < 10) : d.digitChar < e.digitChar := by
  interval_cases e <;> interval_cases d <;> decide

theorem numeral_succ {width : ℕ} (hw : 0 < width) (n : ℕ) :
    numeral (width + 1) n = numeral width (n / 10) ++ [(n % 10).digitChar] := by
  by_cases hn : n < 10
  · have hz : n / 10 = 0 := by omega
    obtain ⟨k, rfl⟩ : ∃ k, width = k + 1 := ⟨width - 1, by omega⟩
    rw [numeral, numeral, hz, Nat.toDigits_of_lt_base hn, Nat.toDigits_zero, Nat.mod_eq_of_lt hn]
    simp [List.leftpad, List.replicate_succ']
  · have hd : Nat.toDigits 10 n = Nat.toDigits 10 (n / 10) ++ [(n % 10).digitChar] :=
      Nat.toDigits_of_base_le (by omega) (by omega)
    simp [numeral, hd, List.leftpad]

theorem length_numeral {width n : ℕ} (hw : 0 < width) (hn : n < 10 ^ width) :
    (numeral width n).length = width := by
  have hle := (Nat.length_toDigits_le_iff (b := 10) (by omega) hw).mpr hn
  simp [numeral, hle]

/-- The first place where two texts differ decides, whatever follows. -/
theorem append_lt_append_of_lt {α : Type*} [LT α] {a b : List α} (h : a < b)
    (hl : a.length = b.length) (x y : List α) : a ++ x < b ++ y := by
  induction a generalizing b with
  | nil =>
    cases b with
    | nil => cases h
    | cons c b => cases hl
  | cons c a ih =>
    cases b with
    | nil => cases hl
    | cons d b =>
      simp only [List.cons_append, List.cons_lt_cons_iff] at h ⊢
      exact h.imp_right fun ⟨he, hlt⟩ => ⟨he, ih hlt (by simpa using hl)⟩

theorem numeral_lt {width m n : ℕ} (hw : 0 < width) (hn : n < 10 ^ width) (h : m < n) :
    numeral width m < numeral width n := by
  induction width generalizing m n with
  | zero => omega
  | succ width ih =>
    by_cases hzero : width = 0
    · subst hzero
      have hm : m < 10 := by omega
      simp only [numeral, Nat.toDigits_of_lt_base hm, Nat.toDigits_of_lt_base
        (show n < 10 by omega)]
      exact List.cons_lt_cons_iff.mpr (.inl (digitChar_lt h (by omega)))
    · have hw' : 0 < width := by omega
      have hn' : n / 10 < 10 ^ width := by
        rw [Nat.pow_succ] at hn
        omega
      rw [numeral_succ hw', numeral_succ hw']
      by_cases hq : m / 10 < n / 10
      · refine append_lt_append_of_lt (ih hw' hn' hq) ?_ _ _
        rw [length_numeral hw' (hq.trans hn'), length_numeral hw' hn']
      · have heq : m / 10 = n / 10 := by omega
        rw [heq]
        apply List.append_left_lt
        exact List.cons_lt_cons_iff.mpr (.inl (digitChar_lt (by omega) (by omega)))

theorem numeral_append_lt {width m n : ℕ} (hw : 0 < width) (hn : n < 10 ^ width) (h : m < n)
    (x y : List Char) : numeral width m ++ x < numeral width n ++ y := by
  apply append_lt_append_of_lt (numeral_lt hw hn h)
  rw [length_numeral hw (h.trans hn), length_numeral hw hn]

end Base
