import Mathlib.Data.Nat.Bitwise
import Mathlib.Tactic.Common

/-! Numbers as lists of bits, the most significant bit first, and lists of bits in groups. -/
namespace Base

/-- The lowest `w` bits of a number. -/
def bits : ℕ → ℕ → List Bool
  | 0, _ => []
  | w + 1, n => n.testBit w :: bits w n

def ofBits : List Bool → ℕ
  | [] => 0
  | b :: l => 2 ^ l.length * b.toNat + ofBits l

/-- The bits of a list of words. -/
def wordBits {w : ℕ} (data : List (BitVec w)) : List Bool := data.flatMap fun x => bits w x.toNat

/-- The first `k` groups of `n`. -/
def groups {α : Type*} (n : ℕ) : ℕ → List α → List (List α)
  | 0, _ => []
  | k + 1, l => l.take n :: groups n k (l.drop n)

theorem length_flatMap_of_length {α β : Type*} {f : β → List α} {xs : List β} {n : ℕ}
    (hf : ∀ x ∈ xs, (f x).length = n) : (xs.flatMap f).length = xs.length * n := by
  induction xs with
  | nil => exact (Nat.zero_mul n).symm
  | cons x xs ih =>
    rw [List.flatMap_cons, List.length_append, hf x List.mem_cons_self,
      ih fun y hy => hf y (List.mem_cons_of_mem _ hy), List.length_cons, Nat.succ_mul, Nat.add_comm]

section Bits
variable {w n m : ℕ}

@[simp] theorem length_bits (w n : ℕ) : (bits w n).length = w := by
  induction w with
  | zero => rfl
  | succ w ih => simp only [bits, List.length_cons, ih]

theorem bits_congr (h : ∀ i < w, n.testBit i = m.testBit i) : bits w n = bits w m := by
  induction w with
  | zero => rfl
  | succ w ih =>
    unfold bits
    rw [h w (Nat.lt_succ_self w), ih fun i hi => h i (by omega)]

theorem bits_mod (w n : ℕ) : bits w (n % 2 ^ w) = bits w n := by
  apply bits_congr
  intro i hi
  rw [Nat.testBit_mod_two_pow, decide_eq_true hi, Bool.true_and]

theorem bits_append (v w n : ℕ) : bits (v + w) n = bits v (n >>> w) ++ bits w n := by
  induction v with
  | zero => simp [bits]
  | succ v ih =>
    rw [Nat.succ_add, bits, bits, ih, Nat.testBit_shiftRight, Nat.add_comm w v]
    rfl

theorem bits_or {v w : ℕ} (hm : m < 2 ^ w) :
    bits (v + w) ((n <<< w) ||| m) = bits v n ++ bits w m := by
  rw [bits_append]
  congr 1
  · apply bits_congr
    intro i _
    have hzero : m.testBit (w + i) = false :=
      Nat.testBit_lt_two_pow (hm.trans_le (Nat.pow_le_pow_right (by omega) (by omega)))
    rw [Nat.testBit_shiftRight, Nat.testBit_or, Nat.testBit_shiftLeft, hzero]
    simp
  · apply bits_congr
    intro i hi
    rw [Nat.testBit_or, Nat.testBit_shiftLeft, decide_eq_false (by omega)]
    simp

theorem bits_and_mask (w n : ℕ) : bits w (n &&& ((1 <<< w) - 1)) = bits w n := by
  apply bits_congr
  intro i hi
  rw [Nat.testBit_and, Nat.one_shiftLeft, Nat.testBit_two_pow_sub_one, decide_eq_true hi,
    Bool.and_true]

theorem ofBits_lt (l : List Bool) : ofBits l < 2 ^ l.length := by
  induction l with
  | nil => exact Nat.one_pos
  | cons b l ih =>
    have hb : b.toNat ≤ 1 := Bool.toNat_le b
    have hmul : 2 ^ l.length * b.toNat ≤ 2 ^ l.length * 1 := Nat.mul_le_mul_left _ hb
    unfold ofBits
    rw [List.length_cons, Nat.pow_succ]
    omega

theorem ofBits_bits (w n : ℕ) : ofBits (bits w n) = n % 2 ^ w := by
  induction w with
  | zero => simp [bits, ofBits, Nat.mod_one]
  | succ w ih =>
    rw [bits, ofBits, length_bits, ih, Nat.toNat_testBit, Nat.mod_pow_succ, Nat.add_comm]

theorem bits_ofBits (l : List Bool) : bits l.length (ofBits l) = l := by
  induction l with
  | nil => rfl
  | cons b l ih =>
    rw [List.length_cons, bits, ofBits, Nat.testBit_two_pow_mul_add _ (ofBits_lt l),
      if_neg (lt_irrefl _), Nat.sub_self]
    have htail : bits l.length (2 ^ l.length * b.toNat + ofBits l) = bits l.length (ofBits l) := by
      apply bits_congr
      intro i hi
      rw [Nat.testBit_two_pow_mul_add _ (ofBits_lt l), if_pos hi]
    rw [htail, ih]
    cases b <;> rfl

theorem bits_inj (hn : n < 2 ^ w) (hm : m < 2 ^ w) (h : bits w n = bits w m) : n = m := by
  have hof := congrArg ofBits h
  rw [ofBits_bits, ofBits_bits, Nat.mod_eq_of_lt hn, Nat.mod_eq_of_lt hm] at hof
  exact hof

theorem length_wordBits (data : List (BitVec w)) : (wordBits data).length = data.length * w :=
  length_flatMap_of_length fun x _ => length_bits w x.toNat

theorem wordBits_append (x y : List (BitVec w)) : wordBits (x ++ y) = wordBits x ++ wordBits y :=
  List.flatMap_append

end Bits

section Groups
variable {α β : Type*} {n : ℕ}

@[simp] theorem length_groups (n k : ℕ) (l : List α) : (groups n k l).length = k := by
  induction k generalizing l with
  | zero => rfl
  | succ k ih => simp only [groups, List.length_cons, ih]

theorem length_of_mem_groups {k : ℕ} {l g : List α} (hlen : n * k ≤ l.length)
    (h : g ∈ groups n k l) :
    g.length = n := by
  induction k generalizing l with
  | zero => cases h
  | succ k ih =>
    rw [Nat.mul_succ] at hlen
    rcases List.mem_cons.mp h with rfl | h
    · rw [List.length_take]
      omega
    · apply ih _ h
      rw [List.length_drop]
      omega

theorem groups_append {k : ℕ} {x : List α} (hx : x.length = n) (l : List α) :
    groups n (k + 1) (x ++ l) = x :: groups n k l := by
  rw [groups, ← hx, List.take_left, List.drop_left]

theorem groups_flatMap {f : β → List α} {xs : List β} (hf : ∀ x ∈ xs, (f x).length = n)
    (l : List α) :
    groups n xs.length (xs.flatMap f ++ l) = xs.map f := by
  induction xs with
  | nil => rfl
  | cons x xs ih =>
    rw [List.flatMap_cons, List.append_assoc, List.length_cons,
      groups_append (hf x List.mem_cons_self), ih fun y hy => hf y (List.mem_cons_of_mem _ hy),
      List.map_cons]

theorem flatten_groups (n k : ℕ) (l : List α) : (groups n k l).flatten = l.take (n * k) := by
  induction k generalizing l with
  | zero => simp [groups]
  | succ k ih =>
    rw [groups, List.flatten_cons, ih, Nat.mul_succ, Nat.add_comm, List.take_add]

theorem flatMap_bits_groups {k : ℕ} {l : List Bool} (hlen : n * k ≤ l.length) :
    ((groups n k l).map ofBits).flatMap (bits n) = l.take (n * k) := by
  have hself : (groups n k l).map (bits n ∘ ofBits) = groups n k l := by
    nth_rewrite 2 [← List.map_id (groups n k l)]
    apply List.map_congr_left
    intro g hg
    have hg := length_of_mem_groups hlen hg
    simp only [Function.comp_apply, id_eq]
    nth_rewrite 1 [← hg]
    exact bits_ofBits g
  rw [List.flatMap_def, List.map_map, hself, flatten_groups]

end Groups
end Base
