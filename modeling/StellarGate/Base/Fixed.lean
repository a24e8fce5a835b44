import Mathlib.Data.List.DropRight
import Mathlib.Data.List.Induction
import Mathlib.Data.Rat.Defs
import Mathlib.Tactic.FieldSimp
import Mathlib.Tactic.Linarith
import Mathlib.Tactic.Positivity
import Mathlib.Tactic.Ring
import StellarGate.Base.Decimal

/-! Decimal texts with a point: their grammar, their exact value, and the
shortest text of a value. -/
namespace Base

/-- The digits of `body` before and after its point, which is left out only
where nothing follows it. -/
structure IsDecimal (places : ℕ) (body whole frac : List Char) : Prop where
  text : body = whole ++ '.' :: frac ∨ body = whole ∧ frac = []
  digits : ∀ c ∈ whole ++ frac, c.isDigit = true
  some_digit : whole ++ frac ≠ []
  short : frac.length ≤ places

/-- What the digits after the point are worth. -/
def fraction : List Char → ℚ
  | [] => 0
  | c :: cs => (((c.toNat - '0'.toNat : ℕ) : ℚ) + fraction cs) / 10

def decimalValue (whole frac : List Char) : ℚ := (Nat.ofDigitChars 10 whole 0 : ℕ) + fraction frac

def padded (places : ℕ) (frac : List Char) : List Char :=
  frac ++ List.replicate (places - frac.length) '0'

/-- The value in units of the last place. -/
def inUnits (places : ℕ) (whole frac : List Char) : ℕ :=
  Nat.ofDigitChars 10 whole 0 * 10 ^ places + Nat.ofDigitChars 10 (padded places frac) 0

/-- The text with a point only where digits follow it. -/
def pointed (whole frac : List Char) : List Char := whole ++ if frac = [] then [] else '.' :: frac

/-- The text of `n` units of the last place without a zero that is not needed. -/
def shortest (places n : ℕ) : List Char :=
  pointed (Nat.toDigits 10 (n / 10 ^ places))
    ((numeral places (n % 10 ^ places)).rdropWhile (· = '0'))

section Digits
variable {cs ds : List Char} {places n : ℕ}

theorem digitChar_digit {c : Char} (h : c.isDigit = true) :
    (c.toNat - '0'.toNat).digitChar = c := by
  have hc := Char.isDigit_iff_toNat.mp h
  have h0 : '0'.toNat = 48 := rfl
  have h9 : '9'.toNat = 57 := rfl
  rw [h0, h9] at hc
  have hofNat : c = Char.ofNat c.toNat := (Char.ofNat_toNat c).symm
  generalize c.toNat = k at hc hofNat
  subst hofNat
  obtain ⟨hlo, hhi⟩ := hc
  interval_cases k <;> rfl

theorem ofDigitChars_concat (cs : List Char) (c : Char) :
    Nat.ofDigitChars 10 (cs ++ [c]) 0 = 10 * Nat.ofDigitChars 10 cs 0 + (c.toNat - '0'.toNat) := by
  rw [Nat.ofDigitChars_append, Nat.ofDigitChars_cons, Nat.ofDigitChars_nil]

theorem digit_lt {c : Char} (h : c.isDigit = true) : c.toNat - '0'.toNat < 10 := by
  have hc := Char.isDigit_iff_toNat.mp h
  have h0 : '0'.toNat = 48 := rfl
  have h9 : '9'.toNat = 57 := rfl
  omega

theorem ofDigitChars_lt (h : ∀ c ∈ cs, c.isDigit = true) :
    Nat.ofDigitChars 10 cs 0 < 10 ^ cs.length := by
  induction cs using List.reverseRecOn with
  | nil => simp
  | append_singleton cs c ih =>
    have hcs := ih fun d hd => h d (List.mem_append_left _ hd)
    have hc := digit_lt (h c (by simp))
    rw [ofDigitChars_concat, List.length_append, List.length_singleton, Nat.pow_succ]
    omega

theorem numeral_ofDigitChars (h : ∀ c ∈ cs, c.isDigit = true) (hne : cs ≠ []) :
    numeral cs.length (Nat.ofDigitChars 10 cs 0) = cs := by
  induction cs using List.reverseRecOn with
  | nil => exact absurd rfl hne
  | append_singleton cs c ih =>
    have hd := digit_lt (h c (by simp))
    have hc := digitChar_digit (h c (by simp))
    rw [ofDigitChars_concat, List.length_append, List.length_singleton]
    by_cases hnil : cs = []
    · subst hnil
      generalize c.toNat - '0'.toNat = d at hd hc
      simp [numeral, Nat.toDigits_of_lt_base hd, hc]
    · have hdiv : (10 * Nat.ofDigitChars 10 cs 0 + (c.toNat - '0'.toNat)) / 10 =
          Nat.ofDigitChars 10 cs 0 := by
        omega
      have hmod : (10 * Nat.ofDigitChars 10 cs 0 + (c.toNat - '0'.toNat)) % 10 =
          c.toNat - '0'.toNat := by
        omega
      rw [numeral_succ (List.length_pos_iff.mpr hnil), hdiv, hmod, hc,
        ih (fun d hd => h d (List.mem_append_left _ hd)) hnil]

theorem length_toDigits_le (h : ∀ c ∈ cs, c.isDigit = true) (hne : cs ≠ []) :
    (Nat.toDigits 10 (Nat.ofDigitChars 10 cs 0)).length ≤ cs.length :=
  (Nat.length_toDigits_le_iff (b := 10) (by omega) (List.length_pos_iff.mpr hne)).mpr
  (ofDigitChars_lt h)

theorem toDigits_eq_of_length (h : ∀ c ∈ cs, c.isDigit = true) (hne : cs ≠ [])
    (hl : cs.length ≤ (Nat.toDigits 10 (Nat.ofDigitChars 10 cs 0)).length) :
    Nat.toDigits 10 (Nat.ofDigitChars 10 cs 0) = cs := by
  have heq := numeral_ofDigitChars h hne
  rw [numeral, List.leftpad, Nat.sub_eq_zero_of_le hl, List.replicate_zero, List.nil_append] at heq
  exact heq

theorem length_padded (h : ds.length ≤ places) : (padded places ds).length = places := by
  rw [padded, List.length_append, List.length_replicate]
  omega

theorem isDigit_of_mem_padded (h : ∀ c ∈ ds, c.isDigit = true) (places : ℕ) :
    ∀ c ∈ padded places ds, c.isDigit = true := by
  intro c hc
  rcases List.mem_append.mp hc with hc | hc
  · exact h c hc
  · rw [List.eq_of_mem_replicate hc]
    rfl

theorem rdropWhile_padded (places : ℕ) (ds : List Char) :
    (padded places ds).rdropWhile (· = '0') = ds.rdropWhile (· = '0') := by
  unfold padded
  generalize places - ds.length = k
  induction k with
  | zero => rw [List.replicate_zero, List.append_nil]
  | succ k ih =>
    rw [List.replicate_succ', ← List.append_assoc, List.rdropWhile_concat_pos _ _ _ (by simp)]
    exact ih

theorem length_rdropWhile_le (ds : List Char) : (ds.rdropWhile (· = '0')).length ≤ ds.length := by
  have hpre := List.rdropWhile_prefix (· = '0') ds
  exact hpre.length_le

/-- What is left out at the end of the digits is a run of zeros. -/
theorem padded_rdropWhile (ds : List Char) : padded ds.length (ds.rdropWhile (· = '0')) = ds := by
  induction ds using List.reverseRecOn with
  | nil => rfl
  | append_singleton ds d ih =>
    rw [List.length_append, List.length_singleton]
    by_cases hd : d = '0'
    · have hle : (ds.rdropWhile (· = '0')).length ≤ ds.length := length_rdropWhile_le ds
      have hsub : ds.length + 1 - (ds.rdropWhile (· = '0')).length =
          ds.length - (ds.rdropWhile (· = '0')).length + 1 := by omega
      rw [List.rdropWhile_concat_pos _ _ _ (by simpa using hd), padded, hsub, List.replicate_succ',
        ← List.append_assoc, hd]
      exact congrArg (· ++ ['0']) ih
    · rw [List.rdropWhile_concat_neg _ _ _ (by simpa using hd), padded, List.length_append,
        List.length_singleton, Nat.sub_self, List.replicate_zero, List.append_nil]

theorem fraction_mul_pow (h : ds.length ≤ places) :
    fraction ds * 10 ^ places = (Nat.ofDigitChars 10 (padded places ds) 0 : ℕ) := by
  induction ds generalizing places with
  | nil => simp [fraction, padded]
  | cons d ds ih =>
    obtain ⟨k, rfl⟩ : ∃ k, places = k + 1 := ⟨places - 1, by rw [List.length_cons] at h; omega⟩
    have hk : ds.length ≤ k := by
      rw [List.length_cons] at h
      omega
    have hpad : padded (k + 1) (d :: ds) = d :: padded k ds := by
      simp [padded]
    have hvalue : Nat.ofDigitChars 10 (padded (k + 1) (d :: ds)) 0 =
        10 ^ k * (d.toNat - '0'.toNat) + Nat.ofDigitChars 10 (padded k ds) 0 := by
      rw [hpad, Nat.ofDigitChars_cons, Nat.ofDigitChars_eq_ofDigitChars_zero, length_padded hk,
        Nat.mul_zero, Nat.zero_add]
    rw [hvalue, Nat.cast_add, ← ih hk, Nat.cast_mul, fraction, pow_succ]
    push_cast
    ring

theorem decimalValue_mul_pow (whole : List Char) (h : ds.length ≤ places) :
    decimalValue whole ds * 10 ^ places = (inUnits places whole ds : ℕ) := by
  rw [decimalValue, add_mul, fraction_mul_pow h, inUnits]
  push_cast
  rfl

end Digits

section Shortest
variable {places n : ℕ} {body whole frac : List Char}

theorem length_pointed (whole frac : List Char) :
    (pointed whole frac).length = whole.length + if frac = [] then 0 else frac.length + 1 := by
  unfold pointed
  split_ifs <;> simp

theorem inUnits_div_mod (whole : List Char) (h : ∀ c ∈ frac, c.isDigit = true)
    (hl : frac.length ≤ places) :
    inUnits places whole frac / 10 ^ places = Nat.ofDigitChars 10 whole 0 ∧
      inUnits places whole frac % 10 ^ places = Nat.ofDigitChars 10 (padded places frac) 0 := by
  have hlt := ofDigitChars_lt (isDigit_of_mem_padded h places)
  rw [length_padded hl] at hlt
  have hpos : 0 < 10 ^ places := by positivity
  unfold inUnits
  constructor
  · rw [Nat.mul_comm, Nat.mul_add_div hpos, Nat.div_eq_of_lt hlt, Nat.add_zero]
  · rw [Nat.mul_comm, Nat.mul_add_mod, Nat.mod_eq_of_lt hlt]

/-- The digits of the shortest text, from those of any text of the value. -/
theorem shortest_inUnits (whole : List Char) (hplaces : 0 < places)
    (h : ∀ c ∈ frac, c.isDigit = true) (hl : frac.length ≤ places) : shortest places
    (inUnits places whole frac) =
      pointed (Nat.toDigits 10 (Nat.ofDigitChars 10 whole 0)) (frac.rdropWhile (· = '0')) := by
  obtain ⟨hdiv, hmod⟩ := inUnits_div_mod whole h hl
  have hne : padded places frac ≠ [] := by
    apply List.ne_nil_of_length_pos
    rw [length_padded hl]
    exact hplaces
  have hnum := numeral_ofDigitChars (isDigit_of_mem_padded h places) hne
  rw [length_padded hl] at hnum
  rw [shortest, hdiv, hmod, hnum, rdropWhile_padded]

theorem IsDecimal.ne_nil (h : IsDecimal places body whole frac) : body ≠ [] := by
  rcases h.text with rfl | ⟨rfl, rfl⟩
  · simp
  · simpa using h.some_digit

theorem isDigit_of_mem_numeral {width : ℕ} {c : Char} (h : c ∈ numeral width n) :
    c.isDigit = true := by
  rcases List.mem_append.mp h with h | h
  · rw [List.eq_of_mem_replicate h]
    rfl
  · exact Nat.isDigit_of_mem_toDigits (by omega) (by omega) h

theorem ofDigitChars_numeral (width n : ℕ) : Nat.ofDigitChars 10 (numeral width n) 0 = n := by
  rw [numeral, List.leftpad, Nat.ofDigitChars_append, Nat.ofDigitChars_replicate_zero, Nat.mul_zero,
    Nat.ofDigitChars_ten_toDigits]

/-- The shortest text is one of the grammar, with a whole part, and has the value. -/
theorem isDecimal_shortest (hplaces : 0 < places) (n : ℕ) : ∃ whole frac,
    IsDecimal places (shortest places n) whole frac ∧ whole ≠ [] ∧
    inUnits places whole frac = n := by
  have hlen : (numeral places (n % 10 ^ places)).length = places :=
    length_numeral hplaces (Nat.mod_lt _ (by positivity))
  have hprefixed := List.rdropWhile_prefix (· = '0') (numeral places (n % 10 ^ places))
  have hpad := padded_rdropWhile (numeral places (n % 10 ^ places))
  rw [hlen] at hpad
  refine ⟨Nat.toDigits 10 (n / 10 ^ places),
    (numeral places (n % 10 ^ places)).rdropWhile (· = '0'), ⟨?_, ?_, ?_, ?_⟩, by simp, ?_⟩
  · unfold shortest pointed
    split_ifs with hnil
    · exact .inr ⟨List.append_nil _, hnil⟩
    · exact .inl rfl
  · intro c hc
    rcases List.mem_append.mp hc with hc | hc
    · exact Nat.isDigit_of_mem_toDigits (by omega) (by omega) hc
    · exact isDigit_of_mem_numeral (hprefixed.subset hc)
  · simp
  · exact hprefixed.length_le.trans hlen.le
  · rw [inUnits, hpad, Nat.ofDigitChars_ten_toDigits, ofDigitChars_numeral, Nat.mul_comm]
    exact Nat.div_add_mod n (10 ^ places)

theorem IsDecimal.length_eq (h : IsDecimal places body whole frac) :
    body.length = whole.length + frac.length + 1 ∨ body.length = whole.length ∧ frac = [] ∧
      body = whole := by
  rcases h.text with rfl | ⟨rfl, hnil⟩
  · left
    rw [List.length_append, List.length_cons, Nat.add_assoc]
  · exact .inr ⟨rfl, hnil, rfl⟩

/-- No text of the value with a whole part is shorter. -/
theorem IsDecimal.shortest_le (hplaces : 0 < places) (h : IsDecimal places body whole frac)
    (hne : whole ≠ []) :
    (shortest places (inUnits places whole frac)).length ≤ body.length := by
  have hwhole := length_toDigits_le (fun c hc => h.digits c (List.mem_append_left _ hc)) hne
  have hfrac := length_rdropWhile_le frac
  rw [shortest_inUnits whole hplaces (fun c hc => h.digits c (List.mem_append_right _ hc)) h.short,
    length_pointed]
  rcases h.length_eq with hl | ⟨hl, rfl, -⟩
  · split_ifs <;> omega
  · rw [List.rdropWhile_nil, if_pos rfl]
    omega

theorem IsDecimal.eq_shortest (hplaces : 0 < places) (h : IsDecimal places body whole frac)
    (hne : whole ≠ []) (hle : body.length ≤ (shortest places (inUnits places whole frac)).length) :
    body = shortest places (inUnits places whole frac) := by
  have hdigits : ∀ c ∈ whole, c.isDigit = true := fun c hc => h.digits c (List.mem_append_left _ hc)
  have hwhole := length_toDigits_le hdigits hne
  have hprefixed := List.rdropWhile_prefix (· = '0') frac
  have hfrac := hprefixed.length_le
  have heq := shortest_inUnits whole hplaces
    (fun c hc => h.digits c (List.mem_append_right _ hc)) h.short
  rw [heq, length_pointed] at hle
  rw [heq]
  rcases h.length_eq with hl | ⟨hl, rfl, hbody⟩
  · split_ifs at hle with hnil
    · omega
    · have hw := toDigits_eq_of_length hdigits hne (by omega)
      have hf := hprefixed.eq_of_length_le (by omega)
      rw [hw, hf, pointed, if_neg (hf ▸ hnil)]
      rcases h.text with htext | ⟨rfl, rfl⟩
      · exact htext
      · exact absurd hl (by simp)
  · rw [List.rdropWhile_nil, if_pos rfl] at hle
    rw [List.rdropWhile_nil, pointed, if_pos rfl, List.append_nil, hbody]
    exact (toDigits_eq_of_length hdigits hne (by omega)).symm

end Shortest
end Base
