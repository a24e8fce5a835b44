import Mathlib.Algebra.Order.Ring.Int
import Mathlib.Tactic.Common
import Mathlib.Tactic.Linarith

/-! Stellar amounts (`src/money.rs`): integer stroops and their decimal text. -/
namespace StellarGate

/-- The largest `i64`. -/
def i64Max : ℤ := 9223372036854775807

/-- Two's complement addition of `i64`, as a release build computes it. -/
def i64Add (a b : ℤ) : ℤ := Int.bmod (a + b) 18446744073709551616

/-- Unicode `White_Space`, the characters `str::trim` removes. -/
def isWhitespace (c : Char) : Bool :=
  (9 ≤ c.toNat && c.toNat ≤ 13) || c.toNat == 0x20 || c.toNat == 0x85 || c.toNat == 0xA0 ||
    c.toNat == 0x1680 || (0x2000 ≤ c.toNat && c.toNat ≤ 0x200A) || c.toNat == 0x2028 ||
    c.toNat == 0x2029 || c.toNat == 0x202F || c.toNat == 0x205F || c.toNat == 0x3000

/-- `str::trim`, on the characters of the text. -/
def trim (cs : List Char) : List Char :=
  ((cs.dropWhile isWhitespace).reverse.dropWhile isWhitespace).reverse

/-- `str::trim_end_matches('0')`. -/
def trimEndZeros (cs : List Char) : List Char :=
  (cs.reverse.dropWhile (· = '0')).reverse

def splitOnce (sep : Char) : List Char → Option (List Char × List Char)
  | [] => none
  | c :: cs =>
    if c = sep then some ([], cs)
    else (splitOnce sep cs).map fun (a, b) => (c :: a, b)

/-- `str::parse::<i64>` on a non-empty string of ASCII digits. -/
def parseDigits (cs : List Char) : Option ℤ :=
  let n : ℤ := Nat.ofDigitChars 10 cs 0
  if n ≤ i64Max then some n else none

namespace Money

def stroopsPerUnit : ℤ := 10000000
def maxDecimals : ℕ := 7

/-- `{:07}` of a number that fits in seven columns, sign included. -/
def padSeven (n : ℤ) : List Char :=
  if n < 0 then '-' :: (Nat.toDigits 10 n.natAbs).leftpad 6 '0'
  else (Nat.toDigits 10 n.natAbs).leftpad 7 '0'

/-- `{}` of an integer. -/
def display (n : ℤ) : List Char :=
  if n < 0 then '-' :: Nat.toDigits 10 n.natAbs else Nat.toDigits 10 n.natAbs

/-- `int_val.checked_mul(STROOPS_PER_UNIT)?.checked_add(frac_val)?`, rejecting
what is not positive. -/
def checkedStroops (intVal fracVal : ℤ) : Option ℤ :=
  if i64Max < intVal * stroopsPerUnit then none
  else if i64Max < intVal * stroopsPerUnit + fracVal then none
  else if intVal * stroopsPerUnit + fracVal ≤ 0 then none
  else some (intVal * stroopsPerUnit + fracVal)

def parseWhole (intPart : List Char) : Option ℤ :=
  if intPart.isEmpty then some 0 else parseDigits intPart

def parseSegments (intPart fracPart : List Char) : Option ℤ :=
  if !intPart.all Char.isDigit then none
  else if !fracPart.all Char.isDigit then none
  else if intPart.isEmpty && fracPart.isEmpty then none
  else if maxDecimals < fracPart.length then none
  else
    (parseWhole intPart).bind fun intVal =>
      (parseDigits (fracPart ++ List.replicate (maxDecimals - fracPart.length) '0')).bind
        fun fracVal => checkedStroops intVal fracVal

end Money
open Money

def parseStroops (input : String) : Option ℤ :=
  let s := trim input.toList
  if s.isEmpty then none
  else
    match splitOnce '.' s with
    | some (intPart, fracPart) => parseSegments intPart fracPart
    | none => parseSegments s []

def isValidAmount (input : String) : Bool := (parseStroops input).isSome

def stroopsToString (stroops : ℤ) : String :=
  let whole := stroops.tdiv stroopsPerUnit
  let frac := stroops.tmod stroopsPerUnit
  if frac = 0 then String.ofList (display whole)
  else String.ofList (display whole ++ '.' :: trimEndZeros (padSeven frac))

example : parseStroops "  2.5  " = some 25000000 := by decide
example : parseStroops "1.00000001" = none := by decide
example : parseStroops "1.2.3" = none := by decide
example : parseStroops "9999999999999999999" = none := by decide
example : stroopsToString 15500000 = "1.55" := by decide
example : stroopsToString 1 = "0.0000001" := by decide

namespace Money

theorem not_isWhitespace_of_isDigit {c : Char} (h : c.isDigit) : isWhitespace c = false := by
  have hl := Char.isDigit_iff_toNat.mp h
  have h0 : '0'.toNat = 48 := rfl
  have h9 : '9'.toNat = 57 := rfl
  simp [isWhitespace]
  omega

theorem trim_eq_self {cs : List Char} (h : ∀ c ∈ cs, isWhitespace c = false) : trim cs = cs := by
  have hd : ∀ l : List Char, (∀ c ∈ l, isWhitespace c = false) → l.dropWhile isWhitespace = l := by
    intro l hl
    cases l with
    | nil => rfl
    | cons c l => simp [List.dropWhile, hl c (by simp)]
  unfold trim
  rw [hd cs h, hd cs.reverse (by simpa using h), List.reverse_reverse]

theorem splitOnce_eq_none {sep : Char} {cs : List Char} (h : sep ∉ cs) :
    splitOnce sep cs = none := by
  induction cs with
  | nil => rfl
  | cons c cs ih =>
    simp only [List.mem_cons, not_or] at h
    simp [splitOnce, Ne.symm h.1, ih h.2]

theorem splitOnce_append {sep : Char} {cs ds : List Char} (h : sep ∉ cs) :
    splitOnce sep (cs ++ sep :: ds) = some (cs, ds) := by
  induction cs with
  | nil => simp [splitOnce]
  | cons c cs ih =>
    simp only [List.mem_cons, not_or] at h
    simp [splitOnce, Ne.symm h.1, ih h.2]

/-- What `trimEndZeros` removes is a run of zeros. -/
theorem trimEndZeros_append (cs : List Char) :
    trimEndZeros cs ++ List.replicate (cs.length - (trimEndZeros cs).length) '0' = cs := by
  have hz : cs.reverse.takeWhile (· = '0') =
      List.replicate (cs.length - (trimEndZeros cs).length) '0' := by
    apply List.eq_replicate_iff.mpr
    have hl := congrArg List.length
      (List.takeWhile_append_dropWhile (p := (· = '0')) (l := cs.reverse))
    simp only [List.length_append, List.length_reverse] at hl
    refine ⟨by simp only [trimEndZeros, List.length_reverse]; omega, ?_⟩
    intro c hc
    simpa using List.all_eq_true.mp List.all_takeWhile c hc
  have he := congrArg List.reverse
    (List.takeWhile_append_dropWhile (p := (· = '0')) (l := cs.reverse))
  rw [List.reverse_append, List.reverse_reverse, hz, List.reverse_replicate] at he
  exact he

theorem parseDigits_eq_some {cs : List Char} {n : ℕ} (h : Nat.ofDigitChars 10 cs 0 = n)
    (hn : (n : ℤ) ≤ i64Max) : parseDigits cs = some (n : ℤ) := by
  simp [parseDigits, h, hn]

theorem isDigit_of_mem_toDigits {n : ℕ} {c : Char} (h : c ∈ Nat.toDigits 10 n) : c.isDigit :=
  Nat.isDigit_of_mem_toDigits (by omega) (by omega) h

theorem isDigit_of_mem_leftpad {n k : ℕ} {c : Char}
    (h : c ∈ (Nat.toDigits 10 n).leftpad k '0') : c.isDigit := by
  rw [List.leftpad, List.mem_append] at h
  rcases h with h | h
  · rw [List.eq_of_mem_replicate h]
    decide
  · exact isDigit_of_mem_toDigits h

theorem ofDigitChars_leftpad (n k : ℕ) :
    Nat.ofDigitChars 10 ((Nat.toDigits 10 n).leftpad k '0') 0 = n := by
  rw [List.leftpad, Nat.ofDigitChars_append, Nat.ofDigitChars_replicate_zero, Nat.mul_zero,
    Nat.ofDigitChars_ten_toDigits]

theorem length_leftpad_toDigits {n k : ℕ} (hk : 0 < k) (hn : n < 10 ^ k) :
    ((Nat.toDigits 10 n).leftpad k '0').length = k := by
  have := (Nat.length_toDigits_le_iff (b := 10) (n := n) (by omega) hk).mpr hn
  rw [List.length_leftpad]
  omega

end Money

theorem checkedStroops_eq_some {a b n : ℤ} :
    checkedStroops a b = some n ↔ a * stroopsPerUnit ≤ i64Max ∧ n = a * stroopsPerUnit + b ∧
      0 < n ∧ n ≤ i64Max := by
  unfold checkedStroops
  split_ifs <;> simp <;> omega

theorem parseSegments_eq_some {w f : ℕ} {ds : List Char} (hd : ∀ c ∈ ds, c.isDigit)
    (hl : ds.length ≤ maxDecimals)
    (hf : Nat.ofDigitChars 10 (ds ++ List.replicate (maxDecimals - ds.length) '0') 0 = f)
    (hpos : 0 < (w : ℤ) * stroopsPerUnit + f) (hmax : (w : ℤ) * stroopsPerUnit + f ≤ i64Max) :
    parseSegments (Nat.toDigits 10 w) ds = some ((w : ℤ) * stroopsPerUnit + f) := by
  have hmul : (w : ℤ) ≤ (w : ℤ) * stroopsPerUnit := by
    unfold stroopsPerUnit
    omega
  have hwe : (Nat.toDigits 10 w).isEmpty = false := by simp
  have hint : parseWhole (Nat.toDigits 10 w) = some (w : ℤ) := by
    unfold parseWhole
    rw [hwe, if_neg (by simp)]
    exact parseDigits_eq_some Nat.ofDigitChars_ten_toDigits (by omega)
  have hfrac := parseDigits_eq_some hf (by omega)
  have hwd : (Nat.toDigits 10 w).all Char.isDigit = true :=
    List.all_eq_true.mpr fun c hc => isDigit_of_mem_toDigits hc
  have hdd : ds.all Char.isDigit = true := List.all_eq_true.mpr hd
  unfold parseSegments
  rw [hwd, hdd, hwe, hint, hfrac, if_neg (by simp), if_neg (by simp), if_neg (by simp),
    if_neg (by omega), Option.bind_some, Option.bind_some]
  exact checkedStroops_eq_some.mpr ⟨by omega, rfl, hpos, hmax⟩

theorem parseStroops_of_toList {s : String} {w : ℕ} (ds : List Char)
    (hs : s.toList = Nat.toDigits 10 w ++ (if ds = [] then [] else '.' :: ds))
    (hd : ∀ c ∈ ds, c.isDigit) : parseStroops s = parseSegments (Nat.toDigits 10 w) ds := by
  have hw : ∀ c ∈ Nat.toDigits 10 w, c.isDigit := fun c hc => isDigit_of_mem_toDigits hc
  have hdot : '.' ∉ Nat.toDigits 10 w := fun h => absurd (hw '.' h) (by decide)
  have htrim : trim s.toList = s.toList := by
    apply trim_eq_self
    intro c hc
    rw [hs] at hc
    split_ifs at hc with hnil
    · exact not_isWhitespace_of_isDigit (hw c (by simpa using hc))
    · simp only [List.mem_append, List.mem_cons] at hc
      rcases hc with hc | rfl | hc
      · exact not_isWhitespace_of_isDigit (hw c hc)
      · decide
      · exact not_isWhitespace_of_isDigit (hd c hc)
  have hne : s.toList.isEmpty = false := by
    rw [hs]
    simp
  unfold parseStroops
  rw [htrim, if_neg (by simp [hne]), hs]
  by_cases hnil : ds = []
  · rw [if_pos hnil, List.append_nil, splitOnce_eq_none hdot, hnil]
  · rw [if_neg hnil, splitOnce_append hdot]

theorem toList_stroopsToString (m : ℕ) :
    (stroopsToString m).toList = Nat.toDigits 10 (m / 10000000) ++
      (if m % 10000000 = 0 then []
        else '.' :: trimEndZeros ((Nat.toDigits 10 (m % 10000000)).leftpad 7 '0')) := by
  have hw : (m : ℤ).tdiv stroopsPerUnit = Int.ofNat (m / 10000000) := by
    rw [Int.tdiv_eq_ediv_of_nonneg (by omega)]
    rfl
  have hf : (m : ℤ).tmod stroopsPerUnit = Int.ofNat (m % 10000000) := by
    rw [Int.tmod_eq_emod_of_nonneg (by omega)]
    rfl
  have hdisp : ∀ k : ℕ, display (Int.ofNat k) = Nat.toDigits 10 k := fun k => by
    rw [display, if_neg (by simp)]
    rfl
  have hpad : ∀ k : ℕ, padSeven (Int.ofNat k) = (Nat.toDigits 10 k).leftpad 7 '0' := fun k => by
    rw [padSeven, if_neg (by simp)]
    rfl
  simp only [stroopsToString, hw, hf, hdisp, hpad]
  by_cases hz : m % 10000000 = 0
  · simp [hz]
  · have hne : ¬ Int.ofNat (m % 10000000) = 0 := fun h => hz (Int.ofNat.inj h)
    rw [if_neg hne, if_neg hz, String.toList_ofList]

/-- Reading back a formatted amount gives the amount. -/
theorem parseStroops_stroopsToString {n : ℤ} (hpos : 0 < n) (hmax : n ≤ i64Max) :
    parseStroops (stroopsToString n) = some n := by
  obtain ⟨m, rfl⟩ := Int.eq_ofNat_of_zero_le hpos.le
  have hsum : ((m / 10000000 : ℕ) : ℤ) * stroopsPerUnit + ((m % 10000000 : ℕ) : ℤ) = m := by
    unfold stroopsPerUnit
    omega
  have hs := toList_stroopsToString m
  by_cases hz : m % 10000000 = 0
  · rw [parseStroops_of_toList [] (by simpa [hz] using hs) (by simp),
      parseSegments_eq_some (f := m % 10000000) (by simp) (by decide) (by rw [hz]; decide)
        (by omega) (by omega), hsum]
  have hdigit := fun c => isDigit_of_mem_leftpad (n := m % 10000000) (k := 7) (c := c)
  have hlen := length_leftpad_toDigits (n := m % 10000000) (k := 7) (by omega) (by omega)
  have hval := ofDigitChars_leftpad (m % 10000000) 7
  generalize (Nat.toDigits 10 (m % 10000000)).leftpad 7 '0' = pad at hs hdigit hlen hval
  have happ := trimEndZeros_append pad
  rw [hlen] at happ
  have hshort := congrArg List.length happ
  simp only [List.length_append, List.length_replicate, hlen] at hshort
  have hnil : trimEndZeros pad ≠ [] := by
    intro h
    rw [h] at happ
    rw [← happ] at hval
    exact hz (hval.symm.trans (by decide))
  have hdigits : ∀ c ∈ trimEndZeros pad, c.isDigit := fun c hc =>
    hdigit c (happ ▸ List.mem_append_left _ hc)
  rw [parseStroops_of_toList (trimEndZeros pad) (by simpa [hz, hnil] using hs) hdigits,
    parseSegments_eq_some (f := m % 10000000) hdigits (by unfold maxDecimals; omega) ?_
      (by omega) (by omega), hsum]
  rw [show maxDecimals = 7 from rfl, happ, hval]

theorem stroopsToString_injOn {a b : ℤ} (ha : 0 < a) (ha' : a ≤ i64Max) (hb : 0 < b)
    (hb' : b ≤ i64Max) (h : stroopsToString a = stroopsToString b) : a = b := by
  have hp := parseStroops_stroopsToString ha ha'
  rw [h, parseStroops_stroopsToString hb hb'] at hp
  exact (Option.some.inj hp).symm

theorem parseStroops_bounds {s : String} {n : ℤ} (h : parseStroops s = some n) :
    0 < n ∧ n ≤ i64Max := by
  have hseg : ∀ a b, parseSegments a b = some n → 0 < n ∧ n ≤ i64Max := by
    intro a b h
    unfold parseSegments at h
    split_ifs at h
    obtain ⟨i, -, h⟩ := Option.bind_eq_some_iff.mp h
    obtain ⟨f, -, h⟩ := Option.bind_eq_some_iff.mp h
    exact (checkedStroops_eq_some.mp h).2.2
  simp only [parseStroops] at h
  split_ifs at h
  split at h <;> exact hseg _ _ h

end StellarGate
