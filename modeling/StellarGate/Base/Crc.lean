import Mathlib.Algebra.Field.ZMod
import Mathlib.Algebra.Polynomial.FieldDivision
import Mathlib.Tactic.LinearCombination
import StellarGate.Base.Bits

/-! Cyclic redundancy checks: lists of bits as polynomials over the field of two elements, the
remainder that a shift register leaves of them, and the errors that a remainder shows. -/
namespace Base
open Polynomial

def bitValue (b : Bool) : ZMod 2 := if b then 1 else 0

noncomputable def bitPoly : List Bool → (ZMod 2)[X]
  | [] => 0
  | b :: l => C (bitValue b) * X ^ l.length + bitPoly l

section Polynomials
variable {u v : List Bool} {w n m : ℕ}

theorem bitValue_xor (a b : Bool) : bitValue (a ^^ b) = bitValue a + bitValue b := by
  cases a <;> cases b <;> decide

theorem bitValue_inj {a b : Bool} (h : bitValue a = bitValue b) : a = b := by
  cases a <;> cases b <;> first | rfl | exact absurd h (by decide)

theorem bitPoly_append (u v : List Bool) :
    bitPoly (u ++ v) = bitPoly u * X ^ v.length + bitPoly v := by
  induction u with
  | nil => simp [bitPoly]
  | cons b u ih =>
    rw [List.cons_append, bitPoly, bitPoly, ih, List.length_append, pow_add]
    ring

theorem degree_bitPoly_lt (l : List Bool) : (bitPoly l).degree < l.length := by
  induction l with
  | nil => simp [bitPoly]
  | cons b l ih =>
    have hlead : (C (bitValue b) * X ^ l.length).degree < ((b :: l).length : WithBot ℕ) := by
      apply (degree_C_mul_X_pow_le _ _).trans_lt
      rw [List.length_cons]
      exact_mod_cast Nat.lt_succ_self _
    apply (degree_add_le _ _).trans_lt
    apply max_lt hlead (ih.trans _)
    rw [List.length_cons]
    exact_mod_cast Nat.lt_succ_self _

theorem coeff_bitPoly_bits (w n i : ℕ) :
    (bitPoly (bits w n)).coeff i = if i < w then bitValue (n.testBit i) else 0 := by
  induction w with
  | zero => simp [bits, bitPoly]
  | succ w ih =>
    rw [bits, bitPoly, coeff_add, ih, coeff_C_mul_X_pow, length_bits]
    rcases lt_trichotomy i w with h | h | h
    · rw [if_neg h.ne, if_pos h, if_pos (by omega), zero_add]
    · rw [if_pos h, if_neg (by omega), if_pos (by omega), h, add_zero]
    · rw [if_neg h.ne', if_neg (by omega), if_neg (by omega), zero_add]

theorem bitPoly_bits_xor (w n m : ℕ) :
    bitPoly (bits w (n ^^^ m)) = bitPoly (bits w n) + bitPoly (bits w m) := by
  ext i
  rw [coeff_add, coeff_bitPoly_bits, coeff_bitPoly_bits, coeff_bitPoly_bits, Nat.testBit_xor,
    bitValue_xor]
  split_ifs
  · rfl
  · rw [add_zero]

theorem bitPoly_inj (hlen : u.length = v.length) (h : bitPoly u = bitPoly v) : u = v := by
  rw [← bits_ofBits u, ← bits_ofBits v, hlen] at h ⊢
  apply bits_congr
  intro i hi
  have hcoeff := congrArg (fun p => p.coeff i) h
  simp only [coeff_bitPoly_bits, if_pos hi] at hcoeff
  exact bitValue_inj hcoeff

theorem bitPoly_sub (p q : List Bool) (hlen : u.length = v.length) :
    bitPoly (p ++ (u ++ q)) - bitPoly (p ++ (v ++ q)) = (bitPoly u - bitPoly v) * X ^ q.length := by
  rw [bitPoly_append, bitPoly_append, bitPoly_append, bitPoly_append, List.length_append,
    List.length_append, hlen]
  ring

theorem degree_bitPoly_sub_lt (hu : u.length = n) (hv : v.length = n) :
    (bitPoly u - bitPoly v).degree < n := by
  apply (degree_sub_le _ _).trans_lt
  apply max_lt
  · rw [← hu]
    exact degree_bitPoly_lt u
  · rw [← hv]
    exact degree_bitPoly_lt v

end Polynomials

/-! The shift register. -/
section Register
variable {w v : ℕ} (g : BitVec w)

noncomputable def wordPoly {w : ℕ} (r : BitVec w) : (ZMod 2)[X] := bitPoly (bits w r.toNat)

/-- The polynomial whose lower coefficients are those of `g`. -/
noncomputable def generator : (ZMod 2)[X] := X ^ w + wordPoly g

def shift (r : BitVec w) : BitVec w := if r.msb then (r <<< 1) ^^^ g else r <<< 1

def feed (r : BitVec w) (x : BitVec v) : BitVec w :=
  (shift g)^[v] (r ^^^ (x.setWidth w <<< (w - v)))

theorem coeff_wordPoly (r : BitVec w) (i : ℕ) : (wordPoly r).coeff i = bitValue (r.getLsbD i) := by
  unfold wordPoly
  rw [coeff_bitPoly_bits, BitVec.testBit_toNat]
  split_ifs with h
  · rfl
  · rw [BitVec.getLsbD_of_ge r i (by omega)]
    rfl

theorem wordPoly_xor (x y : BitVec w) : wordPoly (x ^^^ y) = wordPoly x + wordPoly y := by
  unfold wordPoly
  rw [BitVec.toNat_xor, bitPoly_bits_xor]

theorem wordPoly_setWidth_shiftLeft (hv : v ≤ w) (x : BitVec v) :
    wordPoly (x.setWidth w <<< (w - v)) = wordPoly x * X ^ (w - v) := by
  ext i
  rw [coeff_wordPoly, coeff_mul_X_pow', BitVec.getLsbD_shiftLeft, BitVec.getLsbD_setWidth]
  split_ifs with h
  · rw [coeff_wordPoly]
    by_cases hi : i < w
    · simp [hi, show ¬ i < w - v by omega, show i - (w - v) < w by omega]
    · simp [hi, BitVec.getLsbD_of_ge x (i - (w - v)) (by omega)]
  · simp [show i < w - v by omega, bitValue]

theorem degree_wordPoly_lt (r : BitVec w) : (wordPoly r).degree < w := by
  have h := degree_bitPoly_lt (bits w r.toNat)
  rw [length_bits] at h
  exact h

theorem monic_generator : (generator g).Monic := monic_X_pow_add (degree_wordPoly_lt g)

theorem degree_generator : (generator g).degree = w := by
  unfold generator
  rw [degree_add_eq_left_of_degree_lt] <;> rw [degree_X_pow]
  exact degree_wordPoly_lt g

theorem wordPoly_shift (hw : 0 < w) (r : BitVec w) :
    wordPoly (shift g r) = wordPoly r * X + C (bitValue r.msb) * generator g := by
  have hdouble : wordPoly (r <<< 1) = wordPoly r * X + C (bitValue r.msb) * X ^ w := by
    ext i
    rw [coeff_wordPoly, coeff_add, coeff_C_mul_X_pow, BitVec.getLsbD_shiftLeft,
      BitVec.msb_eq_getLsbD_last]
    cases i with
    | zero =>
      rw [if_neg hw.ne]
      simp [bitValue]
    | succ i =>
      rw [coeff_mul_X, coeff_wordPoly]
      rcases lt_trichotomy (i + 1) w with h | h | h
      · simp [h, h.ne]
      · have htwo : bitValue (r.getLsbD i) + bitValue (r.getLsbD i) = 0 :=
            CharTwo.add_self_eq_zero _
        rw [if_pos h, show w - 1 = i by omega, htwo]
        simp [h, bitValue]
      · simp [h.ne', show ¬ i + 1 < w by omega, BitVec.getLsbD_of_ge r i (by omega), bitValue]
  unfold shift generator
  cases hm : r.msb with
  | false => simp [hdouble, hm, bitValue]
  | true =>
    rw [if_pos rfl, wordPoly_xor, hdouble, hm]
    simp only [bitValue, if_true, map_one, one_mul]
    ring

theorem dvd_iterate_shift (hw : 0 < w) (k : ℕ) (r : BitVec w) :
    generator g ∣ wordPoly ((shift g)^[k] r) - wordPoly r * X ^ k := by
  induction k with
  | zero => simp
  | succ k ih =>
    obtain ⟨q, hq⟩ := ih
    rw [Function.iterate_succ_apply', wordPoly_shift g hw]
    refine ⟨q * X + C (bitValue ((shift g)^[k] r).msb), ?_⟩
    linear_combination X * hq

theorem dvd_feed (hv : v ≤ w) (hw : 0 < w) (r : BitVec w) (x : BitVec v) :
    generator g ∣ wordPoly (feed g r x) - (wordPoly r * X ^ v + wordPoly x * X ^ w) := by
  obtain ⟨q, hq⟩ := dvd_iterate_shift g hw v (r ^^^ (x.setWidth w <<< (w - v)))
  refine ⟨q, ?_⟩
  have hpow : (X : (ZMod 2)[X]) ^ (w - v) * X ^ v = X ^ w := by
    rw [← pow_add, Nat.sub_add_cancel hv]
  rw [wordPoly_xor, wordPoly_setWidth_shiftLeft hv] at hq
  unfold feed
  linear_combination hq + wordPoly x * hpow

theorem dvd_foldl_feed (hv : v ≤ w) (hw : 0 < w) (data : List (BitVec v)) :
    generator g ∣ wordPoly (data.foldl (feed g) 0) - bitPoly (wordBits data) * X ^ w := by
  induction data using List.reverseRecOn with
  | nil =>
    have hzero : wordPoly (0 : BitVec w) = 0 := by
      ext i
      have hbit : (0 : BitVec w).getLsbD i = false := BitVec.getLsbD_zero
      rw [coeff_wordPoly, hbit, coeff_zero]
      rfl
    rw [List.foldl_nil, hzero]
    simp [wordBits, bitPoly]
  | append_singleton data x ih =>
    obtain ⟨q, hq⟩ := ih
    obtain ⟨q', hq'⟩ := dvd_feed g hv hw (data.foldl (feed g) 0) x
    have hbits : wordBits (data ++ [x]) = wordBits data ++ bits v x.toNat := by simp [wordBits]
    rw [List.foldl_append, List.foldl_cons, List.foldl_nil, hbits, bitPoly_append, length_bits]
    refine ⟨q' + q * X ^ v, ?_⟩
    have hx : wordPoly x = bitPoly (bits v x.toNat) := rfl
    rw [hx] at hq'
    linear_combination hq' + X ^ v * hq

/-- The register holds the remainder of what went in, moved up by the width of the register. -/
theorem foldl_feed_eq_modByMonic (hv : v ≤ w) (hw : 0 < w) (data : List (BitVec v)) :
    wordPoly (data.foldl (feed g) 0) = (bitPoly (wordBits data) * X ^ w) %ₘ generator g := by
  have hself : wordPoly (data.foldl (feed g) 0) %ₘ generator g =
      wordPoly (data.foldl (feed g) 0) := by
    apply (modByMonic_eq_self_iff (monic_generator g)).mpr
    rw [degree_generator]
    exact degree_wordPoly_lt _
  rw [← hself]
  exact modByMonic_eq_of_dvd_sub (monic_generator g) (dvd_foldl_feed g hv hw data)

end Register

/-! What a remainder shows. -/
section Burst
variable {K : Type*} [Field K] {g b : K[X]}

theorem dvd_of_dvd_mul_X_pow (hg : g.coeff 0 ≠ 0) {k : ℕ} (h : g ∣ b * X ^ k) : g ∣ b := by
  have hcop : IsCoprime g (X ^ k) := by
    apply IsCoprime.pow_right
    apply IsCoprime.symm
    have hX : Irreducible (X : K[X]) := irreducible_X
    apply hX.coprime_iff_not_dvd.mpr
    rw [X_dvd_iff]
    exact hg
  exact hcop.dvd_of_dvd_mul_right h

/-- No burst shorter than the generator is a multiple of it. -/
theorem eq_zero_of_dvd_burst (hg : g.coeff 0 ≠ 0) (hdeg : b.degree < g.degree) {k : ℕ}
    (h : g ∣ b * X ^ k) :
    b = 0 :=
  eq_zero_of_dvd_of_degree_lt (dvd_of_dvd_mul_X_pow hg h) hdeg

end Burst
end Base
