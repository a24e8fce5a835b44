import Mathlib.Algebra.Order.Ring.Int
import Mathlib.Tactic.Common
import Mathlib.Tactic.Linarith

/-! Integers of a bounded width as texts: the reading of `from_str` for the integer types of Rust,
with its errors, and the numerals that it reads back. -/
namespace Base

inductive IntErrorKind where
  | empty
  | invalidDigit
  | posOverflow
  | negOverflow
  deriving DecidableEq, Repr

/-- `ParseIntError`, as it is displayed. -/
def IntErrorKind.display : IntErrorKind → String
  | .empty => "cannot parse integer from empty string"
  | .invalidDigit => "invalid digit found in string"
  | .posOverflow => "number too large to fit in target type"
  | .negOverflow => "number too small to fit in target type"

/-- The digits of a number that is at most `max`, from what those before them make. Each is looked
at before the number that it makes. -/
def scanDigits (max : ℕ) (tooMuch : IntErrorKind) : ℕ → List Char → Except IntErrorKind ℕ
  | n, [] => .ok n
  | n, c :: cs =>
    if c.isDigit then
      if max < 10 * n + (c.toNat - '0'.toNat) then .error tooMuch
      else scanDigits max tooMuch (10 * n + (c.toNat - '0'.toNat)) cs
    else .error .invalidDigit

/-- `from_str` for an unsigned type with this greatest value. -/
def parseUnsigned (max : ℕ) : List Char → Except IntErrorKind ℕ
  | [] => .error .empty
  | ['+'] => .error .invalidDigit
  | '+' :: ds => scanDigits max .posOverflow 0 ds
  | cs => scanDigits max .posOverflow 0 cs

/-- `from_str` for a signed type with this greatest value. -/
def parseSigned (max : ℕ) : List Char → Except IntErrorKind ℤ
  | [] => .error .empty
  | ['+'] => .error .invalidDigit
  | ['-'] => .error .invalidDigit
  | '+' :: ds => (scanDigits max .posOverflow 0 ds).map fun n : ℕ => (n : ℤ)
  | '-' :: ds => (scanDigits (max + 1) .negOverflow 0 ds).map fun n : ℕ => -(n : ℤ)
  | cs => (scanDigits max .posOverflow 0 cs).map fun n : ℕ => (n : ℤ)

def showInt (z : ℤ) : List Char := if z < 0 then '-' :: Nat.toDigits 10 z.natAbs
    else Nat.toDigits 10 z.natAbs

variable {max n m : ℕ} {tooMuch : IntErrorKind} {cs : List Char} {z : ℤ}

theorem le_ofDigitChars (n : ℕ) (cs : List Char) : n ≤ Nat.ofDigitChars 10 cs n := by
  induction cs generalizing n with
  | nil => exact le_of_eq Nat.ofDigitChars_nil.symm
  | cons c cs ih =>
    rw [Nat.ofDigitChars_cons]
    exact le_trans (by omega) (ih _)

theorem scanDigits_eq_ok (hn : n ≤ max) : scanDigits max tooMuch n cs = .ok m ↔
    (∀ c ∈ cs, c.isDigit = true) ∧ Nat.ofDigitChars 10 cs n = m ∧ m ≤ max := by
  induction cs generalizing n with
  | nil =>
    rw [scanDigits, Nat.ofDigitChars_nil]
    constructor
    · intro h
      cases h
      exact ⟨fun c hc => (by cases hc), rfl, hn⟩
    · rintro ⟨-, rfl, -⟩
      rfl
  | cons c cs ih =>
    rw [scanDigits, Nat.ofDigitChars_cons, List.forall_mem_cons]
    by_cases hdigit : c.isDigit = true
    · rw [if_pos hdigit]
      split_ifs with hover
      · refine iff_of_false (fun h => by cases h) ?_
        rintro ⟨-, hvalue, hle⟩
        have hless := le_ofDigitChars (10 * n + (c.toNat - '0'.toNat)) cs
        omega
      · rw [ih (by omega), and_iff_right hdigit]
    · rw [if_neg hdigit]
      exact iff_of_false (fun h => by cases h) fun h => hdigit h.1.1

theorem scanDigits_toDigits (hn : n ≤ max) : scanDigits max tooMuch 0 (Nat.toDigits 10 n) = .ok n :=
  (scanDigits_eq_ok (Nat.zero_le max)).mpr
    ⟨fun _ hc => Nat.isDigit_of_mem_toDigits (by decide) le_rfl hc, Nat.ofDigitChars_ten_toDigits,
      hn⟩

theorem toDigits_cons (n : ℕ) : ∃ c cs, Nat.toDigits 10 n = c :: cs ∧ c ≠ '+' ∧ c ≠ '-' := by
  obtain ⟨c, cs, hcs⟩ := List.exists_cons_of_ne_nil (Nat.toDigits_ne_nil (b := 10) (n := n))
  have hdigit : c.isDigit = true :=
    Nat.isDigit_of_mem_toDigits (b := 10) (n := n) (by decide) le_rfl
      (by rw [hcs]; exact List.mem_cons_self)
  refine ⟨c, cs, hcs, ?_, ?_⟩
  · rintro rfl
    exact absurd hdigit (by decide)
  · rintro rfl
    exact absurd hdigit (by decide)

theorem parseUnsigned_toDigits (hn : n ≤ max) : parseUnsigned max (Nat.toDigits 10 n) = .ok n := by
  obtain ⟨c, cs, hcs, hplus, -⟩ := toDigits_cons n
  have hscan : scanDigits max .posOverflow 0 (Nat.toDigits 10 n) = .ok n := scanDigits_toDigits hn
  rw [hcs] at hscan ⊢
  unfold parseUnsigned
  split
  · rename_i h
    cases h
  · rename_i h
    cases h
    exact absurd rfl hplus
  · rename_i h
    cases h
    exact absurd rfl hplus
  · exact hscan

theorem le_of_parseUnsigned (h : parseUnsigned max cs = .ok n) : n ≤ max := by
  unfold parseUnsigned at h
  split at h
  · cases h
  · cases h
  · exact ((scanDigits_eq_ok (Nat.zero_le max)).mp h).2.2
  · exact ((scanDigits_eq_ok (Nat.zero_le max)).mp h).2.2

theorem parseSigned_showInt (hlo : -(max + 1 : ℤ) ≤ z) (hhi : z ≤ max) :
    parseSigned max (showInt z) = .ok z := by
  obtain ⟨c, cs, hcs, hplus, hminus⟩ := toDigits_cons z.natAbs
  unfold showInt
  split_ifs with hneg
  · have hscan : scanDigits (max + 1) .negOverflow 0 (Nat.toDigits 10 z.natAbs) = .ok z.natAbs :=
      scanDigits_toDigits (by omega)
    rw [hcs] at hscan ⊢
    show (scanDigits (max + 1) .negOverflow 0 (c :: cs)).map (fun n : ℕ => -(n : ℤ)) = .ok z
    rw [hscan]
    show Except.ok (-(z.natAbs : ℤ)) = Except.ok z
    rw [show -(z.natAbs : ℤ) = z by omega]
  · have hscan : scanDigits max .posOverflow 0 (Nat.toDigits 10 z.natAbs) = .ok z.natAbs :=
      scanDigits_toDigits (by omega)
    have hok : (scanDigits max .posOverflow 0 (c :: cs)).map (fun n : ℕ => (n : ℤ)) = .ok z := by
      rw [hcs] at hscan
      rw [hscan]
      show Except.ok (z.natAbs : ℤ) = Except.ok z
      rw [show (z.natAbs : ℤ) = z by omega]
    rw [hcs]
    unfold parseSigned
    split
    · rename_i h
      cases h
    · rename_i h
      cases h
      exact absurd rfl hplus
    · rename_i h
      cases h
      exact absurd rfl hminus
    · rename_i h
      cases h
      exact absurd rfl hplus
    · rename_i h
      cases h
      exact absurd rfl hminus
    · exact hok

theorem map_eq_ok {α β : Type*} {f : α → β} {x : Except IntErrorKind α} {b : β} :
    x.map f = .ok b ↔ ∃ a, x = .ok a ∧ f a = b := by
  cases x with
  | error e => exact iff_of_false (fun h => by cases h) fun ⟨a, h, _⟩ => by cases h
  | ok a =>
    constructor
    · intro h
      cases h
      exact ⟨a, rfl, rfl⟩
    · rintro ⟨_, h, rfl⟩
      cases h
      rfl

theorem mem_range_of_parseSigned (h : parseSigned max cs = .ok z) :
    -(max + 1 : ℤ) ≤ z ∧ z ≤ max := by
  have hpos : ∀ {ds : List Char}, (scanDigits max .posOverflow 0 ds).map (fun n : ℕ => (n : ℤ)) =
      .ok z →
      -(max + 1 : ℤ) ≤ z ∧ z ≤ max := by
    intro ds h
    obtain ⟨n, hn, rfl⟩ := map_eq_ok.mp h
    have hle := ((scanDigits_eq_ok (Nat.zero_le max)).mp hn).2.2
    omega
  unfold parseSigned at h
  split at h
  · cases h
  · cases h
  · cases h
  · exact hpos h
  · obtain ⟨n, hn, rfl⟩ := map_eq_ok.mp h
    have hle := ((scanDigits_eq_ok (Nat.zero_le (max + 1))).mp hn).2.2
    omega
  · exact hpos h

end Base
