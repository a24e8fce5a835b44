import StellarGate.Horizon.Stream

/-! UTF-8 and its lossy decoder: what `String::from_utf8_lossy` does to the bytes of a text. -/
namespace StellarGate
variable {b t u v : ℕ}

theorem utf8Head_two (rest : List ℕ) (hb : 0xc2 ≤ b ∧ b ≤ 0xdf) (ht : 0x80 ≤ t ∧ t ≤ 0xbf) :
    utf8Head b (t :: rest) = (some (Char.ofNat (b % 32 * 64 + t % 64)), 2) := by
  unfold utf8Head
  have hlow : ¬ b < 0x80 := by omega
  simp [hlow, hb, ht]

theorem utf8Head_three (rest : List ℕ) (hb : 0xe0 ≤ b ∧ b ≤ 0xef) (ht : 0x80 ≤ t ∧ t ≤ 0xbf)
    (hu : 0x80 ≤ u ∧ u ≤ 0xbf) (hlo : b = 0xe0 → 0xa0 ≤ t) (hhi : b = 0xed → t ≤ 0x9f) :
    utf8Head b (t :: u :: rest) =
      (some (Char.ofNat (b % 16 * 4096 + t % 64 * 64 + u % 64)), 3) := by
  unfold utf8Head
  have hlow : ¬ b < 0x80 := by omega
  have htwo : ¬ (b ≤ 0xdf) := by omega
  have hrange : (if b = 0xe0 then 0xa0 else 0x80) ≤ t ∧ t ≤ (if b = 0xed then 0x9f else 0xbf) := by
    split_ifs <;> omega
  simp [hlow, htwo, hb, hrange, hu]

theorem utf8Head_four (rest : List ℕ) (hb : 0xf0 ≤ b ∧ b ≤ 0xf4) (ht : 0x80 ≤ t ∧ t ≤ 0xbf)
    (hu : 0x80 ≤ u ∧ u ≤ 0xbf) (hv : 0x80 ≤ v ∧ v ≤ 0xbf) (hlo : b = 0xf0 → 0x90 ≤ t)
    (hhi : b = 0xf4 → t ≤ 0x8f) :
    utf8Head b (t :: u :: v :: rest) =
      (some (Char.ofNat (b % 8 * 262144 + t % 64 * 4096 + u % 64 * 64 + v % 64)), 4) := by
  unfold utf8Head
  have hlow : ¬ b < 0x80 := by omega
  have htwo : ¬ (b ≤ 0xdf) := by omega
  have hthree : ¬ (b ≤ 0xef) := by omega
  have hrange : (if b = 0xf0 then 0x90 else 0x80) ≤ t ∧ t ≤ (if b = 0xf4 then 0x8f else 0xbf) := by
    split_ifs <;> omega
  simp [hlow, htwo, hthree, hb, hrange, hu, hv]

theorem utf8Head_utf8EncodeChar (c : Char) (rest : List ℕ) :
    ∃ b tail, (String.utf8EncodeChar c).map UInt8.toNat = b :: tail ∧
      utf8Head b (tail ++ rest) = (some c, tail.length + 1) := by
  have hc : Char.ofNat c.val.toNat = c := Char.ofNat_toNat c
  have hv : c.val.toNat < 0xd800 ∨ 0xdfff < c.val.toNat ∧ c.val.toNat < 0x110000 := c.valid
  generalize hn : c.val.toNat = n at hv hc
  unfold String.utf8EncodeChar
  rw [hn]
  simp only
  split_ifs with h1 h2 h3
  · have hb : n % 256 = n := by omega
    refine ⟨n, [], by simp [hb], ?_⟩
    unfold utf8Head
    rw [if_pos (by omega), hc]
    rfl
  · refine ⟨n / 64 % 32 + 192, [n % 64 + 128], ?_, ?_⟩
    · simp
      omega
    · have hval : (n / 64 % 32 + 192) % 32 * 64 + (n % 64 + 128) % 64 = n := by omega
      rw [List.singleton_append, utf8Head_two _ (by omega) (by omega), hval, hc]
      rfl
  · refine ⟨n / 4096 % 16 + 224, [n / 64 % 64 + 128, n % 64 + 128], ?_, ?_⟩
    · simp
      omega
    · have hval : (n / 4096 % 16 + 224) % 16 * 4096 + (n / 64 % 64 + 128) % 64 * 64 +
        (n % 64 + 128) % 64 = n := by omega
      rw [List.cons_append, List.singleton_append, utf8Head_three _ (by omega) (by omega) (by omega)
        (by omega) (by omega), hval, hc]
      rfl
  · refine ⟨n / 262144 % 8 + 240, [n / 4096 % 64 + 128, n / 64 % 64 + 128, n % 64 + 128], ?_, ?_⟩
    · simp
      omega
    · have hval : (n / 262144 % 8 + 240) % 8 * 262144 + (n / 4096 % 64 + 128) % 64 * 4096 +
        (n / 64 % 64 + 128) % 64 * 64 + (n % 64 + 128) % 64 = n := by omega
      rw [List.cons_append, List.cons_append, List.singleton_append,
        utf8Head_four _ (by omega) (by omega) (by omega) (by omega) (by omega) (by omega), hval, hc]
      rfl

/-- A lossy decoder loses nothing of a text. -/
theorem lossyChars_utf8 (cs : List Char) (k : ℕ)
    (hk : ((cs.flatMap String.utf8EncodeChar).map UInt8.toNat).length ≤ k) :
    lossyChars k ((cs.flatMap String.utf8EncodeChar).map UInt8.toNat) = cs := by
  induction cs generalizing k with
  | nil => cases k <;> rfl
  | cons c cs ih =>
    obtain ⟨b, tail, hbytes, hhead⟩ :=
      utf8Head_utf8EncodeChar c ((cs.flatMap String.utf8EncodeChar).map UInt8.toNat)
    rw [List.flatMap_cons, List.map_append, hbytes, List.cons_append] at hk ⊢
    rw [List.length_cons, List.length_append] at hk
    obtain ⟨k, rfl⟩ : ∃ j, k = j + 1 := ⟨k - 1, by omega⟩
    unfold lossyChars
    simp only [hhead, Option.getD_some, Nat.add_sub_cancel, List.drop_left']
    rw [ih k (by omega)]

theorem utf8_ofList (cs : List Char) :
    utf8 (String.ofList cs) = cs.flatMap String.utf8EncodeChar := by
  unfold utf8
  rw [String.toByteArray_ofList, List.utf8Encode]
  simp

/-- `String::from_utf8_lossy` of a text's bytes is the text. -/
theorem fromUtf8Lossy_utf8 (s : String) : fromUtf8Lossy (utf8 s) = s := by
  obtain ⟨cs, rfl⟩ : ∃ cs, s = String.ofList cs := ⟨s.toList, String.ofList_toList.symm⟩
  unfold fromUtf8Lossy
  rw [utf8_ofList, lossyChars_utf8 cs _ (by rw [List.length_map])]

theorem utf8_append (s t : String) : utf8 (s ++ t) = utf8 s ++ utf8 t := by
  unfold utf8
  rw [String.toByteArray_append]
  simp

theorem exists_of_mem_utf8 {s : String} {x : UInt8} (h : x ∈ utf8 s) (hx : x.toNat < 128) :
    ∃ c ∈ s.toList, c.toNat = x.toNat := by
  obtain ⟨cs, rfl⟩ : ∃ cs, s = String.ofList cs := ⟨s.toList, String.ofList_toList.symm⟩
  rw [utf8_ofList, List.mem_flatMap] at h
  obtain ⟨c, hc, hmem⟩ := h
  refine ⟨c, by rwa [String.toList_ofList], ?_⟩
  have hnat : c.toNat = c.val.toNat := rfl
  have hbyte : x.toNat ∈ (String.utf8EncodeChar c).map UInt8.toNat := List.mem_map_of_mem hmem
  unfold String.utf8EncodeChar at hbyte
  generalize hn : c.val.toNat = n at hbyte hnat
  simp only at hbyte
  split_ifs at hbyte with h1 h2 h3
  all_goals simp at hbyte
  · omega
  all_goals omega

theorem not_mem_utf8 {s : String} {c : Char} (hc : c.toNat < 128) (h : c ∉ s.toList) :
    UInt8.ofNat c.toNat ∉ utf8 s := by
  intro hmem
  have hnat : (UInt8.ofNat c.toNat).toNat = c.toNat := by
    rw [UInt8.toNat_ofNat']
    omega
  obtain ⟨d, hd, heq⟩ := exists_of_mem_utf8 hmem (hnat.symm ▸ hc)
  have hdc : d = c := Char.toNat_inj.mp (heq.trans hnat)
  exact h (hdc ▸ hd)

theorem utf8_join (l : List String) : utf8 (String.join l) = l.flatMap utf8 := by
  induction l with
  | nil => rfl
  | cons s l ih => rw [String.join_cons, utf8_append, ih, List.flatMap_cons]

end StellarGate
