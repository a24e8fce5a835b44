import StellarGate.Base.Fixed
import StellarGate.Money

/-! The amount texts that `parse_stroops` accepts: a decimal grammar with the
exact value of each text. -/
namespace StellarGate
open Base Money

/-- The text is a decimal number with at most seven places, up to white space around it. -/
def Spelled (s : String) (whole frac : List Char) : Prop :=
  ∃ before body after, s.toList = before ++ body ++ after ∧
    (∀ c ∈ before ++ after, isWhitespace c = true) ∧ IsDecimal maxDecimals body whole frac

/-- The text is an amount whose exact value is `n` stroops, in the range of the positive `i64`. -/
def SpellsStroops (s : String) (n : ℤ) : Prop :=
  ∃ whole frac, Spelled s whole frac ∧ decimalValue whole frac * 10 ^ 7 = n ∧ 1 ≤ n ∧ n ≤ 2 ^ 63 - 1

/-- The text is an amount with a whole part of `n` stroops, and no other such text is as short. -/
structure ShortestText (n : ℤ) (s : String) : Prop where
  spelled : ∃ whole frac, Spelled s whole frac ∧ whole ≠ [] ∧ decimalValue whole frac * 10 ^ 7 = n
  least : ∀ t whole frac, Spelled t whole frac → whole ≠ [] → decimalValue whole frac * 10 ^ 7 = n →
    s.length ≤ t.length ∧ (t.length = s.length → t = s)

section Trim
variable {cs before body after : List Char}

theorem dropWhile_isWhitespace (hbefore : ∀ c ∈ before, isWhitespace c = true) (hne : body ≠ [])
    (hbody : ∀ c ∈ body, isWhitespace c = false) (rest : List Char) :
    (before ++ (body ++ rest)).dropWhile isWhitespace = body ++ rest := by
  rw [List.dropWhile_append_of_pos hbefore]
  cases body with
  | nil => exact absurd rfl hne
  | cons c body =>
    have hc := hbody c List.mem_cons_self
    simp [hc]

theorem trim_eq (h : ∀ c ∈ before ++ after, isWhitespace c = true) (hne : body ≠ [])
    (hbody : ∀ c ∈ body, isWhitespace c = false) : trim (before ++ body ++ after) = body := by
  have hfront := dropWhile_isWhitespace (fun c hc => h c (List.mem_append_left _ hc))
    hne hbody after
  have hback : (after.reverse ++ (body.reverse ++ [])).dropWhile isWhitespace =
      body.reverse ++ [] := by
    apply dropWhile_isWhitespace
    · exact fun c hc => h c (List.mem_append_right _ (List.mem_reverse.mp hc))
    · exact fun hnil => hne (List.reverse_eq_nil_iff.mp hnil)
    · exact fun c hc => hbody c (List.mem_reverse.mp hc)
  rw [List.append_nil] at hback
  unfold trim
  rw [List.append_assoc, hfront, List.reverse_append, hback, List.reverse_reverse]

/-- What `trim` removes is white space. -/
theorem append_trim_append (cs : List Char) : ∃ before after, cs = before ++ trim cs ++ after ∧
    ∀ c ∈ before ++ after, isWhitespace c = true := by
  have hfront := List.takeWhile_append_dropWhile (p := isWhitespace) (l := cs)
  have hback := congrArg List.reverse
    (List.takeWhile_append_dropWhile (p := isWhitespace) (l := (cs.dropWhile isWhitespace).reverse))
  rw [List.reverse_append, List.reverse_reverse] at hback
  refine ⟨cs.takeWhile isWhitespace,
    ((cs.dropWhile isWhitespace).reverse.takeWhile isWhitespace).reverse, ?_, ?_⟩
  · rw [trim, List.append_assoc, hback, hfront]
  · intro c hc
    rcases List.mem_append.mp hc with hc | hc
    · exact List.all_eq_true.mp List.all_takeWhile c hc
    · exact List.all_eq_true.mp List.all_takeWhile c (List.mem_reverse.mp hc)

end Trim

section Parse
variable {s : String} {n : ℤ} {body whole frac : List Char}

theorem not_isWhitespace_of_isDecimal {places : ℕ} (h : IsDecimal places body whole frac) :
    ∀ c ∈ body, isWhitespace c = false := by
  intro c hc
  rcases h.text with rfl | ⟨rfl, rfl⟩
  · rcases List.mem_append.mp hc with hc | hc
    · exact not_isWhitespace_of_isDigit (h.digits c (List.mem_append_left _ hc))
    · rcases List.mem_cons.mp hc with rfl | hc
      · rfl
      · exact not_isWhitespace_of_isDigit (h.digits c (List.mem_append_right _ hc))
  · exact not_isWhitespace_of_isDigit (h.digits c (List.mem_append_left _ hc))

/-- The white space around an amount is no part of the grammar. -/
theorem spelled_iff : Spelled s whole frac ↔ IsDecimal maxDecimals (trim s.toList) whole frac := by
  constructor
  · rintro ⟨before, body, after, hs, hws, h⟩
    rw [hs, trim_eq hws h.ne_nil (not_isWhitespace_of_isDecimal h)]
    exact h
  · intro h
    obtain ⟨before, after, hs, hws⟩ := append_trim_append s.toList
    exact ⟨before, trim s.toList, after, hs, hws, h⟩

theorem parseDigits_eq_some_iff {cs : List Char} :
    parseDigits cs = some n ↔ (Nat.ofDigitChars 10 cs 0 : ℤ) = n ∧ n ≤ i64Max := by
  simp only [parseDigits]
  split_ifs with h
  · rw [Option.some.injEq]
    exact ⟨fun he => ⟨he, he ▸ h⟩, And.left⟩
  · constructor
    · intro he
      cases he
    · rintro ⟨rfl, hmax⟩
      exact absurd hmax h

theorem parseWhole_eq_some_iff :
    parseWhole whole = some n ↔ (Nat.ofDigitChars 10 whole 0 : ℤ) = n ∧ n ≤ i64Max := by
  unfold parseWhole
  split_ifs with h
  · rw [List.isEmpty_iff.mp h, Option.some.injEq, Nat.ofDigitChars_nil, Nat.cast_zero]
    constructor
    · rintro rfl
      exact ⟨rfl, by decide⟩
    · exact And.left
  · exact parseDigits_eq_some_iff

theorem parseSegments_eq_some_iff : parseSegments whole frac = some n ↔
    (∀ c ∈ whole ++ frac, c.isDigit = true) ∧ whole ++ frac ≠ [] ∧ frac.length ≤ maxDecimals ∧
      (inUnits maxDecimals whole frac : ℤ) = n ∧ 0 < n ∧ n ≤ i64Max := by
  have hunits : (inUnits maxDecimals whole frac : ℤ) = (Nat.ofDigitChars 10 whole 0 : ℤ) *
      stroopsPerUnit + (Nat.ofDigitChars 10 (padded maxDecimals frac) 0 : ℤ) := by
    unfold inUnits stroopsPerUnit
    push_cast
    rfl
  have hpad : frac ++ List.replicate (maxDecimals - frac.length) '0' = padded maxDecimals frac :=
      rfl
  rw [hunits]
  unfold parseSegments
  rw [hpad]
  constructor
  · intro h
    split_ifs at h with hwhole hfrac hempty hlong
    obtain ⟨i, hi, h⟩ := Option.bind_eq_some_iff.mp h
    obtain ⟨f, hf, h⟩ := Option.bind_eq_some_iff.mp h
    obtain ⟨rfl, -⟩ := parseWhole_eq_some_iff.mp hi
    obtain ⟨rfl, -⟩ := parseDigits_eq_some_iff.mp hf
    obtain ⟨-, rfl, hpos, hmax⟩ := checkedStroops_eq_some.mp h
    refine ⟨fun c hc => ?_, ?_, by omega, rfl, hpos, hmax⟩
    · simp only [Bool.not_eq_true', Bool.not_eq_false] at hwhole hfrac
      rcases List.mem_append.mp hc with hc | hc
      · exact List.all_eq_true.mp hwhole c hc
      · exact List.all_eq_true.mp hfrac c hc
    · simpa using hempty
  · rintro ⟨hdigits, hne, hshort, rfl, hpos, hmax⟩
    have hwhole : whole.all Char.isDigit = true :=
      List.all_eq_true.mpr fun c hc => hdigits c (List.mem_append_left _ hc)
    have hfrac : frac.all Char.isDigit = true :=
      List.all_eq_true.mpr fun c hc => hdigits c (List.mem_append_right _ hc)
    have hempty : (whole.isEmpty && frac.isEmpty) = false := by
      rw [Bool.eq_false_iff]
      simpa using hne
    have hmul : (Nat.ofDigitChars 10 whole 0 : ℤ) ≤ (Nat.ofDigitChars 10 whole 0 : ℤ) *
        stroopsPerUnit := by
      unfold stroopsPerUnit
      omega
    rw [hwhole, hfrac, hempty, if_neg (by simp), if_neg (by simp), if_neg (by simp),
      if_neg (by omega), parseWhole_eq_some_iff.mpr ⟨rfl, by omega⟩, Option.bind_some,
      parseDigits_eq_some_iff.mpr ⟨rfl, by omega⟩, Option.bind_some]
    exact checkedStroops_eq_some.mpr ⟨by omega, rfl, hpos, hmax⟩

theorem splitOnce_eq_some_iff {sep : Char} {cs a b : List Char} :
    splitOnce sep cs = some (a, b) ↔ cs = a ++ sep :: b ∧ sep ∉ a := by
  constructor
  · intro h
    induction cs generalizing a with
    | nil => cases h
    | cons c cs ih =>
      unfold splitOnce at h
      split_ifs at h with hc
      · cases h
        exact ⟨by rw [hc, List.nil_append], List.not_mem_nil⟩
      · obtain ⟨⟨a', b'⟩, hrest, heq⟩ := Option.map_eq_some_iff.mp h
        cases heq
        obtain ⟨rfl, hmem⟩ := ih hrest
        refine ⟨rfl, ?_⟩
        rw [List.mem_cons, not_or]
        exact ⟨fun he => hc he.symm, hmem⟩
  · rintro ⟨rfl, hmem⟩
    exact splitOnce_append hmem

/-- The split at the first point finds the segments of a text of the grammar. -/
theorem parseStroops_eq_some_iff : parseStroops s = some n ↔ ∃ whole frac,
    IsDecimal maxDecimals (trim s.toList) whole frac ∧ (inUnits maxDecimals whole frac : ℤ) = n ∧
      0 < n ∧ n ≤ i64Max := by
  have hdot : ∀ c : Char, c.isDigit = true → c ≠ '.' := by
    rintro c hc rfl
    cases hc
  constructor
  · intro h
    simp only [parseStroops] at h
    split_ifs at h
    split at h
    · next whole frac hsplit =>
      obtain ⟨hdigits, hne, hshort, hrest⟩ := parseSegments_eq_some_iff.mp h
      exact ⟨whole, frac, ⟨.inl (splitOnce_eq_some_iff.mp hsplit).1, hdigits, hne, hshort⟩, hrest⟩
    · obtain ⟨hdigits, hne, hshort, hrest⟩ := parseSegments_eq_some_iff.mp h
      exact ⟨_, [], ⟨.inr ⟨rfl, rfl⟩, hdigits, hne, hshort⟩, hrest⟩
  · rintro ⟨whole, frac, h, hrest⟩
    have hsegments := parseSegments_eq_some_iff.mpr ⟨h.digits, h.some_digit, h.short, hrest⟩
    have hmem : '.' ∉ whole := fun hc => hdot _ (h.digits _ (List.mem_append_left _ hc)) rfl
    have hempty : (trim s.toList).isEmpty = false := by
      rw [Bool.eq_false_iff]
      simpa using h.ne_nil
    simp only [parseStroops]
    rw [if_neg (by simp [hempty])]
    rcases h.text with htext | ⟨htext, rfl⟩
    · rw [htext, splitOnce_append hmem]
      exact hsegments
    · rw [htext, splitOnce_eq_none hmem]
      exact hsegments

theorem parseStroops_iff_spellsStroops : parseStroops s = some n ↔ SpellsStroops s n := by
  rw [parseStroops_eq_some_iff]
  have hvalue : ∀ whole frac, IsDecimal maxDecimals (trim s.toList) whole frac →
      ((inUnits maxDecimals whole frac : ℤ) = n ↔ decimalValue whole frac * 10 ^ 7 = n) := by
    intro whole frac h
    have hunits := decimalValue_mul_pow whole h.short
    rw [show maxDecimals = 7 from rfl] at hunits ⊢
    rw [hunits]
    norm_cast
  constructor
  · rintro ⟨whole, frac, h, hn, hpos, hmax⟩
    exact ⟨whole, frac, spelled_iff.mpr h, (hvalue whole frac h).mp hn, hpos, hmax⟩
  · rintro ⟨whole, frac, h, hn, hpos, hmax⟩
    have hdecimal := spelled_iff.mp h
    exact ⟨whole, frac, hdecimal, (hvalue whole frac hdecimal).mpr hn, hpos, hmax⟩

/-- `parse_stroops` accepts exactly the texts of the grammar in range, with their exact value. -/
theorem parseStroops_exact (s : String) : (∀ n, parseStroops s = some n ↔ SpellsStroops s n) ∧
    ((∀ n, ¬ SpellsStroops s n) → parseStroops s = none) := by
  constructor
  · exact fun n => parseStroops_iff_spellsStroops
  · intro h
    rw [Option.eq_none_iff_forall_not_mem]
    exact fun n hn => h n (parseStroops_iff_spellsStroops.mp hn)

end Parse

section Shortest
variable {n : ℤ} {m : ℕ} {s : String} {body whole frac : List Char}

theorem toList_stroopsToString_eq_shortest (m : ℕ) :
    (stroopsToString m).toList = shortest maxDecimals m := by
  have hnil : (numeral 7 (m % 10000000)).rdropWhile (· = '0') = [] ↔ m % 10000000 = 0 := by
    constructor
    · intro hnil
      have hpad := congrArg (Nat.ofDigitChars 10 · 0) (padded_rdropWhile (numeral 7 (m % 10000000)))
      simp only [hnil, padded, List.nil_append, Nat.ofDigitChars_replicate_zero, Nat.mul_zero,
        ofDigitChars_numeral] at hpad
      exact hpad.symm
    · intro hzero
      rw [hzero]
      rfl
  have hdef : shortest maxDecimals m = Nat.toDigits 10 (m / 10000000) ++
      if (numeral 7 (m % 10000000)).rdropWhile (· = '0') = [] then []
      else '.' :: (numeral 7 (m % 10000000)).rdropWhile (· = '0') := rfl
  rw [toList_stroopsToString, hdef]
  simp only [hnil]
  rfl

theorem length_le_of_spelled (h : Spelled s whole frac) :
    ∃ body, IsDecimal maxDecimals body whole frac ∧
    body.length ≤ s.length ∧ (s.length ≤ body.length → s.toList = body) := by
  obtain ⟨before, body, after, hs, -, hbody⟩ := h
  have hlen := congrArg List.length hs
  simp only [List.length_append, String.length_toList] at hlen
  refine ⟨body, hbody, by omega, fun hle => ?_⟩
  have hbefore : before = [] := List.length_eq_zero_iff.mp (by omega)
  have hafter : after = [] := List.length_eq_zero_iff.mp (by omega)
  rw [hs, hbefore, hafter, List.nil_append, List.append_nil]

/-- The formatted amount is the shortest of the accepted texts of its value. -/
theorem shortestText_stroopsToString (hpos : 0 < n) (hmax : n ≤ i64Max) :
    ShortestText n (stroopsToString n) := by
  obtain ⟨m, rfl⟩ := Int.eq_ofNat_of_zero_le hpos.le
  have htext := toList_stroopsToString_eq_shortest m
  have hunits : ∀ whole frac, frac.length ≤ maxDecimals →
      decimalValue whole frac * 10 ^ 7 = ((m : ℤ) : ℚ) → inUnits maxDecimals whole frac = m := by
    intro whole frac hshort hvalue
    have hexact := decimalValue_mul_pow whole hshort
    rw [show maxDecimals = 7 from rfl] at hexact ⊢
    rw [hvalue] at hexact
    exact_mod_cast hexact.symm
  constructor
  · obtain ⟨whole, frac, h, hne, hm⟩ := isDecimal_shortest (show 0 < maxDecimals by decide) m
    have hvalue := decimalValue_mul_pow whole h.short
    rw [hm] at hvalue
    refine ⟨whole, frac, ⟨[], _, [], ?_, by simp, h⟩, hne, by exact_mod_cast hvalue⟩
    exact htext.trans (List.append_nil _).symm
  · intro t whole frac hspelled hne hvalue
    obtain ⟨body, hbody, hle, heq⟩ := length_le_of_spelled hspelled
    have hm := hunits whole frac hbody.short hvalue
    have hleast := hbody.shortest_le (by decide) hne
    rw [hm, ← htext, String.length_toList] at hleast
    refine ⟨hleast.trans hle, fun hlen => ?_⟩
    have hsame := hbody.eq_shortest (by decide) hne
    rw [hm, ← htext, String.length_toList] at hsame
    apply String.toList_inj.mp
    rw [heq (by omega), hsame (by omega)]

end Shortest
end StellarGate
