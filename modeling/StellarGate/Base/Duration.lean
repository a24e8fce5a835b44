import Mathlib.Algebra.Order.Ring.Nat
import Mathlib.Tactic.Common

/-! Spans of time as 64-bit seconds and nanoseconds, with the saturating product. -/
namespace Base

structure Duration where
  nanos : ℕ
  nanos_lt : nanos < 2 ^ 64 * 10 ^ 9
  deriving DecidableEq, Repr

namespace Duration

theorem nanos_injective : Function.Injective nanos := by
  intro d e h
  cases d
  cases e
  cases h
  rfl

instance : LinearOrder Duration := LinearOrder.lift' nanos nanos_injective

theorem le_iff {d e : Duration} : d ≤ e ↔ d.nanos ≤ e.nanos := Iff.rfl

@[simp] theorem nanos_min (d e : Duration) : (min d e).nanos = min d.nanos e.nanos := by
  rcases le_total d e with h | h
  · rw [min_eq_left h, min_eq_left (le_iff.mp h)]
  · rw [min_eq_right h, min_eq_right (le_iff.mp h)]

def saturatingMul (d : Duration) (k : ℕ) : Duration :=
  ⟨min (d.nanos * k) (2 ^ 64 * 10 ^ 9 - 1), by omega⟩

@[simp] theorem nanos_saturatingMul (d : Duration) (k : ℕ) :
    (d.saturatingMul k).nanos = min (d.nanos * k) (2 ^ 64 * 10 ^ 9 - 1) := rfl

theorem lt_of_word (n : UInt64) {k : ℕ} (hk : k ≤ 10 ^ 9) : n.toNat * k < 2 ^ 64 * 10 ^ 9 := by
  calc n.toNat * k ≤ n.toNat * 10 ^ 9 := Nat.mul_le_mul_left _ hk
    _ < 2 ^ 64 * 10 ^ 9 := Nat.mul_lt_mul_of_pos_right n.toNat_lt (by decide)

def ofMillis (n : UInt64) : Duration := ⟨n.toNat * 10 ^ 6, lt_of_word n (by decide)⟩

def ofSecs (n : UInt64) : Duration := ⟨n.toNat * 10 ^ 9, lt_of_word n (le_refl _)⟩

def asMillis (d : Duration) : ℕ := d.nanos / 10 ^ 6

@[simp] theorem nanos_ofMillis (n : UInt64) : (ofMillis n).nanos = n.toNat * 10 ^ 6 := rfl

/-- A cap hides the saturation of the product. -/
theorem nanos_min_saturatingMul (d cap : Duration) (k : ℕ) :
    (min (d.saturatingMul k) cap).nanos = min (d.nanos * k) cap.nanos := by
  have hcap := cap.nanos_lt
  rw [nanos_min, nanos_saturatingMul]
  omega

theorem asMillis_min_saturatingMul (n cap : UInt64) (k : ℕ) :
    (min ((ofMillis n).saturatingMul k) (ofMillis cap)).asMillis = min (n.toNat * k) cap.toNat := by
  have hmul : n.toNat * 10 ^ 6 * k = n.toNat * k * 10 ^ 6 := Nat.mul_right_comm n.toNat (10 ^ 6) k
  unfold asMillis
  rw [nanos_min_saturatingMul, nanos_ofMillis, nanos_ofMillis, hmul, Nat.mul_min_mul_right]
  exact Nat.mul_div_cancel _ (by decide)

def doubled (cap d : Duration) : Duration := min (d.saturatingMul 2) cap

/-- Doubling again and again under the cap: the exact power, capped once. -/
theorem nanos_iterate_doubled {cap d : Duration} (h : d ≤ cap) (k : ℕ) :
    ((doubled cap)^[k] d).nanos = min (d.nanos * 2 ^ k) cap.nanos := by
  induction k with
  | zero =>
    rw [Function.iterate_zero_apply, pow_zero, mul_one]
    exact (min_eq_left (le_iff.mp h)).symm
  | succ k ih =>
    have hpow : d.nanos * 2 ^ (k + 1) = d.nanos * 2 ^ k * 2 := by rw [pow_succ, mul_assoc]
    rw [Function.iterate_succ_apply', doubled, nanos_min_saturatingMul, ih, hpow]
    omega

end Duration
end Base
