import StellarGate.Strkey.Account

/-! Typing errors in an address: a wrong character, and two neighbours that have changed places. -/
namespace StellarGate
namespace Strkey
open Base Polynomial

def charBits (c : Char) : List Bool := bits 5 (alphabet.idxOf c)

/-- The bits of an address: they end in the checksum of those before, the low byte first. -/
def Checked (l : List Bool) : Prop :=
  l.length = 280 ∧ xmodem ∣ bitPoly (l.take 264) * X ^ 16 - bitPoly
    (l.drop 272 ++ (l.drop 264).take 8)

section Remainders
variable {p r : (ZMod 2)[X]} {a : ZMod 2}

theorem coeff_zero_xmodem : xmodem.coeff 0 ≠ 0 := by
  unfold xmodem
  simp [coeff_X_pow, coeff_one]

/-- A change of the last four bits before the checksum is not made up for in the next eight. -/
theorem eq_zero_of_dvd_four (hp : p.degree < 4) (hr : r.degree < 8) (h : xmodem ∣ p * X ^ 16 - r) :
    p = 0 ∧ r = 0 := by
  have hlow : (X ^ 12 + X ^ 5 + 1 : (ZMod 2)[X]).degree = 12 := by
    compute_degree!
  have hdvd : xmodem ∣ p * (X ^ 12 + X ^ 5 + 1) + r := by
    obtain ⟨q, hq⟩ := h
    refine ⟨p - q, ?_⟩
    unfold xmodem at hq ⊢
    linear_combination -hq
  by_cases hzero : p = 0
  · refine ⟨hzero, ?_⟩
    rw [hzero, zero_mul, zero_add] at hdvd
    apply eq_zero_of_dvd_of_degree_lt hdvd
    rw [degree_xmodem]
    exact hr.trans (by norm_num)
  · exfalso
    have hnat : p.natDegree < 4 := (natDegree_lt_iff_degree_lt hzero).mpr hp
    have hdegree : (p * (X ^ 12 + X ^ 5 + 1)).degree = ((p.natDegree + 12 : ℕ) : WithBot ℕ) := by
      rw [degree_mul, hlow, degree_eq_natDegree hzero]
      norm_cast
    have hless : r.degree < (p * (X ^ 12 + X ^ 5 + 1)).degree := by
      rw [hdegree]
      apply hr.trans_le
      exact_mod_cast (by omega : 8 ≤ p.natDegree + 12)
    have hsum : (p * (X ^ 12 + X ^ 5 + 1) + r).degree = ((p.natDegree + 12 : ℕ) : WithBot ℕ) := by
      rw [degree_add_eq_left_of_degree_lt hless, hdegree]
    have hvanish := eq_zero_of_dvd_of_degree_lt hdvd (by
      rw [hsum, degree_xmodem]
      exact_mod_cast (by omega : p.natDegree + 12 < 16))
    rw [hvanish, degree_zero] at hsum
    exact absurd hsum.symm (WithBot.coe_ne_bot)

/-- A change of the last nine bits before the checksum is not made up for in the next one. -/
theorem eq_zero_of_dvd_nine (hp : p.degree < 9) (h : xmodem ∣ p * X ^ 16 - C a * X ^ 7) :
    p = 0 ∧ a = 0 := by
  have hdvd : xmodem ∣ p * X ^ 9 - C a := by
    apply @dvd_of_dvd_mul_X_pow _ _ _ _ coeff_zero_xmodem 7
    have heq : (p * X ^ 9 - C a) * X ^ 7 = p * X ^ 16 - C a * X ^ 7 := by ring
    rw [heq]
    exact h
  have ha : a = 0 := by
    obtain ⟨q, hq⟩ := hdvd
    have hexpand : xmodem * q = q * X ^ 16 + q * X ^ 12 + q * X ^ 5 + q := by
      unfold xmodem
      ring
    have hq5 : q.coeff 5 = 0 := by
      by_cases hzero : q = 0
      · rw [hzero, coeff_zero]
      have hle : (xmodem * q).degree < 18 := by
        rw [← hq]
        apply (degree_sub_le _ _).trans_lt
        apply max_lt _ ((degree_C_le).trans_lt (by norm_num))
        by_cases hp0 : p = 0
        · rw [hp0, zero_mul, degree_zero]
          exact WithBot.bot_lt_coe 18
        have hnat : p.natDegree < 9 := (natDegree_lt_iff_degree_lt hp0).mpr hp
        rw [degree_mul, degree_X_pow, degree_eq_natDegree hp0]
        exact_mod_cast (by omega : p.natDegree + 9 < 18)
      rw [degree_mul, degree_xmodem, degree_eq_natDegree hzero] at hle
      have hnat : 16 + q.natDegree < 18 := by exact_mod_cast hle
      exact coeff_eq_zero_of_natDegree_lt (by omega)
    rw [hexpand] at hq
    have hfifth : q.coeff 0 = 0 := by
      have h5 := congrArg (fun f => f.coeff 5) hq
      simpa [coeff_mul_X_pow', coeff_C, hq5] using h5.symm
    have hfirst := congrArg (fun f => f.coeff 0) hq
    simpa [coeff_mul_X_pow', coeff_C, hfifth] using hfirst
  refine ⟨?_, ha⟩
  rw [ha, map_zero, sub_zero] at hdvd
  apply eq_zero_of_dvd_burst coeff_zero_xmodem _ hdvd
  rw [degree_xmodem]
  exact hp.trans (by norm_num)

end Remainders

section Windows
variable {p u v q a b c a' b' c' : List Bool}

theorem checked_iff (ha : a.length = 264) (hb : b.length = 8) (hc : c.length = 8) :
    Checked (a ++ (b ++ c)) ↔ xmodem ∣ bitPoly a * X ^ 16 - bitPoly (c ++ b) := by
  have htake : (a ++ (b ++ c)).take 264 = a := by
    rw [← ha, List.take_left]
  have hdrop : (a ++ (b ++ c)).drop 264 = b ++ c := by
    rw [← ha, List.drop_left]
  have hlast : (a ++ (b ++ c)).drop 272 = c := by
    have hab : (a ++ b).length = 272 := by
      rw [List.length_append, ha, hb]
    rw [← List.append_assoc, ← hab, List.drop_left]
  have hmid : (b ++ c).take 8 = b := by
    rw [← hb, List.take_left]
  unfold Checked
  rw [htake, hdrop, hlast, hmid]
  simp only [List.length_append, ha, hb, hc]
  exact and_iff_right trivial

theorem dvd_sub_of_checked (ha : a.length = 264) (hb : b.length = 8) (hc : c.length = 8)
    (ha' : a'.length = 264) (hb' : b'.length = 8) (hc' : c'.length = 8)
    (h : Checked (a ++ (b ++ c))) (h' : Checked (a' ++ (b' ++ c'))) :
    xmodem ∣ (bitPoly a - bitPoly a') * X ^ 16 - (bitPoly (c ++ b) - bitPoly (c' ++ b')) := by
  have hsub := dvd_sub ((checked_iff ha hb hc).mp h) ((checked_iff ha' hb' hc').mp h')
  have heq : (bitPoly a - bitPoly a') * X ^ 16 - (bitPoly (c ++ b) - bitPoly (c' ++ b')) =
      bitPoly a * X ^ 16 - bitPoly (c ++ b) - (bitPoly a' * X ^ 16 - bitPoly (c' ++ b')) := by ring
  rw [heq]
  exact hsub

theorem eq_of_bitPoly_sub (hlen : u.length = v.length) (h : bitPoly u - bitPoly v = 0) : u = v :=
  bitPoly_inj hlen (sub_eq_zero.mp h)

theorem window_before (hu : u.length = 10) (hv : v.length = 10) (hlen : p.length + 10 ≤ 264)
    (h : Checked (p ++ (u ++ q))) (h' : Checked (p ++ (v ++ q))) : u = v := by
  obtain ⟨x, b, c, rfl, hx, hb, hc⟩ : ∃ x b c, q = x ++ (b ++ c) ∧ p.length + 10 + x.length = 264 ∧
      b.length = 8 ∧
      c.length = 8 := by
    have htotal := h.1
    simp only [List.length_append] at htotal
    refine ⟨q.take (254 - p.length), (q.drop (254 - p.length)).take 8,
      (q.drop (254 - p.length)).drop 8, ?_, ?_, ?_, ?_⟩
    · rw [List.take_append_drop, List.take_append_drop]
    all_goals
      simp only [List.length_take, List.length_drop]
      omega
  have hsplit : ∀ w : List Bool, p ++ (w ++ (x ++ (b ++ c))) = (p ++ (w ++ x)) ++ (b ++ c) := by
    intro w
    simp only [List.append_assoc]
  rw [hsplit] at h h'
  have hdvd := dvd_sub_of_checked (by simp only [List.length_append]; omega) hb hc
    (by simp only [List.length_append]; omega) hb hc h h'
  rw [bitPoly_sub p x (hu.trans hv.symm), sub_self, sub_zero, mul_assoc, ← pow_add] at hdvd
  apply eq_of_bitPoly_sub (hu.trans hv.symm)
  apply eq_zero_of_dvd_burst coeff_zero_xmodem _ hdvd
  rw [degree_xmodem]
  exact (degree_bitPoly_sub_lt hu hv).trans (by norm_num)

theorem window_after (hu : u.length = 10) (hv : v.length = 10) (hlen : 264 ≤ p.length)
    (h : Checked (p ++ (u ++ q))) (h' : Checked (p ++ (v ++ q))) : u = v := by
  have htotal := h.1
  simp only [List.length_append] at htotal
  have hsplit : ∀ w : List Bool, w.length = 10 →
      ∃ b c, p.drop 264 ++ (w ++ q) = b ++ c ∧ b.length = 8 ∧ c.length = 8 := by
    intro w hw
    refine ⟨(p.drop 264 ++ (w ++ q)).take 8, (p.drop 264 ++ (w ++ q)).drop 8, ?_, ?_, ?_⟩
    · rw [List.take_append_drop]
    all_goals
      simp only [List.length_take, List.length_drop, List.length_append]
      omega
  obtain ⟨b, c, hbc, hb, hc⟩ := hsplit u hu
  obtain ⟨b', c', hbc', hb', hc'⟩ := hsplit v hv
  have ha : (p.take 264).length = 264 := by
    rw [List.length_take]
    omega
  have hjoin : ∀ w : List Bool, p ++ (w ++ q) = p.take 264 ++ (p.drop 264 ++ (w ++ q)) := by
    intro w
    rw [← List.append_assoc (p.take 264), List.take_append_drop]
  rw [hjoin, hbc] at h
  rw [hjoin, hbc'] at h'
  have hdvd := dvd_sub_of_checked ha hb hc ha hb' hc' h h'
  rw [sub_self, zero_mul, zero_sub, dvd_neg] at hdvd
  have hbits : c ++ b = c' ++ b' := by
    have hlen : (c ++ b).length = 16 := by
      rw [List.length_append, hb, hc]
    have hlen' : (c' ++ b').length = 16 := by
      rw [List.length_append, hb', hc']
    apply eq_of_bitPoly_sub (hlen.trans hlen'.symm)
    apply eq_zero_of_dvd_of_degree_lt hdvd
    rw [degree_xmodem]
    exact degree_bitPoly_sub_lt hlen hlen'
  obtain ⟨rfl, rfl⟩ := List.append_inj hbits (hc.trans hc'.symm)
  have hsame := List.append_cancel_left (hbc.trans hbc'.symm)
  exact List.append_cancel_right hsame

/-- What two windows that begin before the checksum and end in it differ by. -/
theorem window_across {x u' v' : List Bool} (hu : u.length + p.length = 264)
    (hv : v.length = u.length) (hx : u'.length + x.length = 8) (hv' : v'.length = u'.length)
    (hc : c.length = 8) (h : Checked (p ++ (u ++ (u' ++ (x ++ c)))))
    (h' : Checked (p ++ (v ++ (v' ++ (x ++ c))))) :
    xmodem ∣ (bitPoly u - bitPoly v) * X ^ 16 - (bitPoly u' - bitPoly v') * X ^ x.length := by
  have hsplit : ∀ w w' : List Bool, p ++ (w ++ (w' ++ (x ++ c))) = (p ++ (w ++ [])) ++
      ((w' ++ x) ++ c) := by
    intro w w'
    simp only [List.append_assoc, List.append_nil]
  rw [hsplit] at h h'
  have hdvd := dvd_sub_of_checked (by simp only [List.length_append, List.length_nil]; omega)
    (by rw [List.length_append, hx]) hc (by simp only [List.length_append, List.length_nil]; omega)
    (by rw [List.length_append, hv', hx]) hc h h'
  rw [bitPoly_sub p [] hv.symm, bitPoly_sub c x hv'.symm, List.length_nil, pow_zero,
    mul_one] at hdvd
  exact hdvd

/-- Nine bits before the checksum and one of it, or four and six: no change
of them is a multiple. -/
theorem eq_zero_of_across {k : ℕ} (hk : k = 9 ∨ k = 4) {f g : (ZMod 2)[X]} (hf : f.degree < k)
    (hg : g.degree < (10 - k : ℕ)) (h : xmodem ∣ f * X ^ 16 - g * X ^ (k - 2)) : f = 0 ∧ g = 0 := by
  rcases hk with rfl | rfl
  · have hconst := eq_C_of_degree_le_zero (Nat.WithBot.lt_one_iff_le_zero.mp hg)
    rw [hconst] at h ⊢
    obtain ⟨hzero, hbit⟩ := eq_zero_of_dvd_nine hf h
    rw [hbit, map_zero]
    exact ⟨hzero, rfl⟩
  · have hmoved : (g * X ^ 2).degree < 8 := by
      by_cases hzero : g = 0
      · rw [hzero, zero_mul, degree_zero]
        exact WithBot.bot_lt_coe 8
      have hnat := (natDegree_lt_iff_degree_lt hzero).mpr hg
      rw [degree_mul, degree_X_pow, degree_eq_natDegree hzero]
      exact_mod_cast (by omega : g.natDegree + 2 < 8)
    obtain ⟨hzero, hrest⟩ := eq_zero_of_dvd_four hf hmoved h
    exact ⟨hzero, (mul_eq_zero.mp hrest).resolve_right (pow_ne_zero 2 X_ne_zero)⟩

theorem window_boundary (hu : u.length = 10) (hv : v.length = 10)
    (hp : p.length = 255 ∨ p.length = 260) (h : Checked (p ++ (u ++ q)))
    (h' : Checked (p ++ (v ++ q))) : u = v := by
  have htotal := h.1
  simp only [List.length_append] at htotal
  obtain ⟨k, hk⟩ : ∃ k, k = 264 - p.length := ⟨_, rfl⟩
  have hcut : ∀ w : List Bool, p ++ (w ++ q) =
      p ++ (w.take k ++ (w.drop k ++ (q.take (k - 2) ++ q.drop (k - 2)))) := by
    intro w
    rw [List.take_append_drop, ← List.append_assoc (w.take k), List.take_append_drop]
  have htake : ∀ w : List Bool, w.length = 10 → (w.take k).length = k := by
    intro w hw
    rw [List.length_take]
    omega
  have hdrop : ∀ w : List Bool, w.length = 10 → (w.drop k).length = 10 - k := by
    intro w hw
    rw [List.length_drop, hw]
  have hmid : (q.take (k - 2)).length = k - 2 := by
    rw [List.length_take]
    omega
  have hend : (q.drop (k - 2)).length = 8 := by
    rw [List.length_drop]
    omega
  rw [hcut] at h h'
  have hdvd := window_across (by rw [htake u hu]; omega) ((htake v hv).trans (htake u hu).symm)
    (by rw [hdrop u hu, hmid]; omega) ((hdrop v hv).trans (hdrop u hu).symm) hend h h'
  rw [hmid] at hdvd
  have hzero := eq_zero_of_across (by omega) (degree_bitPoly_sub_lt (htake u hu) (htake v hv))
    (degree_bitPoly_sub_lt (hdrop u hu) (hdrop v hv)) hdvd
  have hfront := eq_of_bitPoly_sub ((htake u hu).trans (htake v hv).symm) hzero.1
  have hback := eq_of_bitPoly_sub ((hdrop u hu).trans (hdrop v hv).symm) hzero.2
  rw [← List.take_append_drop k u, ← List.take_append_drop k v, hfront, hback]

/-- A change of two neighbours is seen. -/
theorem window_eq (hu : u.length = 10) (hv : v.length = 10) (hp : 5 ∣ p.length)
    (h : Checked (p ++ (u ++ q))) (h' : Checked (p ++ (v ++ q))) : u = v := by
  by_cases hbefore : p.length + 10 ≤ 264
  · exact window_before hu hv hbefore h h'
  by_cases hafter : 264 ≤ p.length
  · exact window_after hu hv hafter h h'
  -- only two boundaries of letters lie less than ten bits before the checksum
  · exact window_boundary hu hv (by omega) h h'

end Windows
section Texts
variable {s t : String} {data : List (BitVec 8)}

theorem length_charBits (c : Char) : (charBits c).length = 5 := length_bits 5 _

theorem charBits_letter {v : ℕ} (h : v < 32) : charBits (letter v) = bits 5 v := by
  have hindex : ∀ v < 32, alphabet.idxOf (letter v) = v := by decide
  unfold charBits
  rw [hindex v h]

theorem charBits_inj {c d : Char} (hc : c ∈ alphabet) (hd : d ∈ alphabet)
    (h : charBits c = charBits d) :
    c = d := by
  have hlen : alphabet.length = 32 := rfl
  have hlt := List.idxOf_lt_length_of_mem hc
  have hlt' := List.idxOf_lt_length_of_mem hd
  rw [hlen] at hlt hlt'
  exact (List.idxOf_inj hc).mp (bits_inj hlt hlt' h)

theorem wordBits_of_decode (hs : 8 ∣ s.toList.length) (h : base32Decode s = some data) :
    (∀ c ∈ s.toList, c ∈ alphabet) ∧ wordBits data = s.toList.flatMap charBits := by
  have hletter : ∀ v < 32, letter v ∈ alphabet := by decide
  unfold base32Decode at h
  obtain ⟨vs, hvs, hletters⟩ := exists_letters h
  rw [hletters, List.length_map] at hs
  rw [hletters, base32Loop_letters hvs (by omega)] at h
  have hdata : octets (vs.flatMap (bits 5)) = data := Option.some.inj h
  have hchars : s.toList.flatMap charBits = vs.flatMap (bits 5) := by
    rw [hletters, List.flatMap_def, List.map_map, List.flatMap_def]
    congr 1
    apply List.map_congr_left
    intro v hv
    exact charBits_letter (hvs v hv)
  constructor
  · intro c hc
    rw [hletters] at hc
    obtain ⟨v, hv, rfl⟩ := List.mem_map.mp hc
    exact hletter v (hvs v hv)
  · rw [hchars, ← hdata]
    apply wordBits_octets
    rw [length_flatMap_of_length fun v _ => length_bits 5 v]
    exact Dvd.dvd.mul_right hs 5

theorem checked_accountBytes (key : Vector (BitVec 8) 32) :
    Checked (wordBits (accountBytes key)) := by
  have hcrc := isXmodem_crc16Xmodem (payload key)
  have hlen : (wordBits (payload key)).length = 264 := by
    rw [length_wordBits, length_payload]
  have hsplit : wordBits (accountBytes key) = wordBits (payload key) ++
      (bits 8 (crc16Xmodem (payload key)).toNat ++ bits 8
        ((crc16Xmodem (payload key)).toNat >>> 8)) := by
    unfold accountBytes
    rw [wordBits_append]
    have hmod : ∀ n, bits 8 (n % 256) = bits 8 n := bits_mod 8
    simp [leBytes, wordBits, BitVec.extractLsb'_toNat, hmod]
  rw [hsplit, checked_iff hlen (length_bits 8 _) (length_bits 8 _), ← bits_append]
  unfold IsXmodem wordPoly at hcrc
  rw [hcrc]
  exact ⟨_, (eq_sub_of_add_eq' (modByMonic_add_div _ xmodem)).symm⟩

theorem checked_of_accepted (h : validateAccountId s = .ok ()) :
    (∀ c ∈ s.toList, c ∈ alphabet) ∧ Checked (s.toList.flatMap charBits) := by
  obtain ⟨key, rfl⟩ := validateAccountId_ok_iff.mp h
  have hdecode := base32Decode_accountBytes key
  have hlen : (base32Text (accountBytes key)).toList.length = 56 := by
    rw [← utf8ByteSize_of_decode hdecode]
    exact utf8ByteSize_of_valid h
  obtain ⟨halphabet, hbits⟩ := wordBits_of_decode (by omega) hdecode
  rw [← hbits]
  exact ⟨halphabet, checked_accountBytes key⟩

theorem neighbours_eq {before after : List Char} {a b c d : Char}
    (h : validateAccountId (String.ofList (before ++ a :: b :: after)) = .ok ())
    (h' : validateAccountId (String.ofList (before ++ c :: d :: after)) = .ok ()) :
    a = c ∧ b = d := by
  obtain ⟨halphabet, hchecked⟩ := checked_of_accepted h
  obtain ⟨halphabet', hchecked'⟩ := checked_of_accepted h'
  rw [String.toList_ofList] at halphabet hchecked halphabet' hchecked'
  have hsplit : ∀ x y : Char, (before ++ x :: y :: after).flatMap charBits =
      before.flatMap charBits ++ ((charBits x ++ charBits y) ++ after.flatMap charBits) := by
    intro x y
    simp only [List.flatMap_append, List.flatMap_cons, List.append_assoc]
  have hboundary : (before.flatMap charBits).length = before.length * 5 :=
    length_flatMap_of_length fun x _ => length_charBits x
  rw [hsplit] at hchecked hchecked'
  have hpair : ∀ x y : Char, (charBits x ++ charBits y).length = 10 := by
    intro x y
    rw [List.length_append, length_charBits, length_charBits]
  have hwindow := window_eq (hpair a b) (hpair c d) (by omega) hchecked hchecked'
  obtain ⟨hfirst, hsecond⟩ :=
      List.append_inj hwindow ((length_charBits a).trans (length_charBits c).symm)
  exact ⟨charBits_inj (halphabet a (by simp)) (halphabet' c (by simp)) hfirst,
    charBits_inj (halphabet b (by simp)) (halphabet' d (by simp)) hsecond⟩

end Texts

/-- No accepted address stays accepted when one character is replaced by another, or when two
different neighbours change places. -/
theorem typing_error_rejected {s : String} (h : validateAccountId s = .ok ()) :
    (∀ before a after c, s.toList = before ++ a :: after → c ≠ a →
      validateAccountId (String.ofList (before ++ c :: after)) ≠ .ok ()) ∧
    ∀ before a b after, s.toList = before ++ a :: b :: after → a ≠ b →
      validateAccountId (String.ofList (before ++ b :: a :: after)) ≠ .ok () := by
  have hself : s = String.ofList s.toList := String.ofList_toList.symm
  constructor
  · intro before a after c hs hne h'
    rw [hself, hs] at h
    cases after with
    | cons b after => exact hne (neighbours_eq h h').1.symm
    | nil =>
      -- the last character has its neighbour before it
      rcases List.eq_nil_or_concat before with rfl | ⟨before, b, rfl⟩
      · have hlen := (checked_of_accepted h).2.1
        rw [List.nil_append, String.toList_ofList, length_flatMap_of_length fun x _ =>
          length_charBits x] at hlen
        cases hlen
      · rw [List.concat_eq_append, List.append_assoc] at h h'
        exact hne (neighbours_eq h h').2.symm
  · intro before a b after hs hne h'
    rw [hself, hs] at h
    exact hne (neighbours_eq h h').1

/-- The default issuer of USDC with a wrong last character, and with its second and
third letters exchanged. -/
theorem typing_error_rejected_sample :
    validateAccountId "GBBD47IF6LWK7P7MDEVSCWR7DPUWV3NY3DTQEVFL4NAT4AQH3ZLLFLA5" = .ok () ∧
    validateAccountId "GBBD47IF6LWK7P7MDEVSCWR7DPUWV3NY3DTQEVFL4NAT4AQH3ZLLFLA4" ≠ .ok () ∧
    validateAccountId "GBDB47IF6LWK7P7MDEVSCWR7DPUWV3NY3DTQEVFL4NAT4AQH3ZLLFLA5" ≠ .ok () := by
  have hok : validateAccountId "GBBD47IF6LWK7P7MDEVSCWR7DPUWV3NY3DTQEVFL4NAT4AQH3ZLLFLA5" =
      .ok () := by
    decide +kernel
  refine ⟨hok, ?_, ?_⟩
  · exact (typing_error_rejected hok).1
      "GBBD47IF6LWK7P7MDEVSCWR7DPUWV3NY3DTQEVFL4NAT4AQH3ZLLFLA".toList '5' [] '4' (by decide)
        (by decide)
  · exact (typing_error_rejected hok).2 "GB".toList 'B' 'D'
      "47IF6LWK7P7MDEVSCWR7DPUWV3NY3DTQEVFL4NAT4AQH3ZLLFLA5".toList (by decide) (by decide)

end Strkey
end StellarGate
