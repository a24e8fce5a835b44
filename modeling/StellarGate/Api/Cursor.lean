import StellarGate.Db.Forms

/-! The opaque cursor of the listing endpoints (`encode_cursor` and `decode_cursor` in
`src/api/payments.rs`): a timestamp and an id, joined by a tab, as hex digits. -/
namespace StellarGate

namespace Hex

def encode (bytes : List UInt8) : List Char :=
  bytes.flatMap fun b => [Nat.digitChar (b.toNat / 16), Nat.digitChar (b.toNat % 16)]

def digit (c : Char) : Option ℕ :=
  if 48 ≤ c.toNat ∧ c.toNat ≤ 57 then some (c.toNat - 48)
  else if 97 ≤ c.toNat ∧ c.toNat ≤ 102 then some (c.toNat - 87)
  else if 65 ≤ c.toNat ∧ c.toNat ≤ 70 then some (c.toNat - 55)
  else none

def decode : List Char → Option (List UInt8)
  | [] => some []
  | [_] => none
  | a :: b :: cs =>
    (digit a).bind fun x => (digit b).bind fun y =>
      (decode cs).map fun bytes => UInt8.ofNat (16 * x + y) :: bytes

theorem digit_digitChar : ∀ n < 16, digit (Nat.digitChar n) = some n := by decide

theorem decode_encode (bytes : List UInt8) : decode (encode bytes) = some bytes := by
  induction bytes with
  | nil => rfl
  | cons b bytes ih =>
    have hb := b.toNat_lt
    have hhigh := digit_digitChar (b.toNat / 16) (by omega)
    have hlow := digit_digitChar (b.toNat % 16) (by omega)
    have hsum : 16 * (b.toNat / 16) + b.toNat % 16 = b.toNat := Nat.div_add_mod _ _
    have hstep : encode (b :: bytes) =
        Nat.digitChar (b.toNat / 16) :: Nat.digitChar (b.toNat % 16) :: encode bytes := rfl
    rw [hstep, decode, hhigh, hlow, ih]
    simp only [Option.bind_some, Option.map_some, hsum, UInt8.ofNat_toNat]

end Hex

def utf8 (s : String) : List UInt8 := s.toByteArray.data.toList

def fromUtf8 (bytes : List UInt8) : Option String := String.fromUTF8? ⟨bytes.toArray⟩

theorem fromUtf8_utf8 (s : String) : fromUtf8 (utf8 s) = some s := by
  unfold fromUtf8 utf8 String.fromUTF8?
  have hb : (⟨s.toByteArray.data.toList.toArray⟩ : ByteArray) = s.toByteArray := by simp
  rw [dif_pos (hb ▸ s.isValidUTF8)]
  congr 1

def encodeCursor (ts id : String) : String :=
  String.ofList (Hex.encode (utf8 (ts ++ "\t" ++ id)))

def decodeCursor (raw : String) : Option (String × String) :=
  (Hex.decode raw.toList).bind fun bytes => (fromUtf8 bytes).bind fun s =>
    (splitOnce '\t' s.toList).map fun (ts, id) => (String.ofList ts, String.ofList id)

theorem decodeCursor_encodeCursor {ts id : String} (h : '\t' ∉ ts.toList) :
    decodeCursor (encodeCursor ts id) = some (ts, id) := by
  have hsplit : splitOnce '\t' (ts ++ "\t" ++ id).toList = some (ts.toList, id.toList) := by
    have htab : "\t".toList = ['\t'] := rfl
    rw [String.toList_append, String.toList_append, htab, List.append_assoc, List.singleton_append]
    exact Money.splitOnce_append h
  simp only [decodeCursor, encodeCursor, String.toList_ofList, Hex.decode_encode, Option.bind_some,
    fromUtf8_utf8, hsplit, Option.map_some, String.ofList_toList]

/-! Which timestamps pass through a cursor unchanged. -/

/-- A timestamp of the stored form without a tab that starts with no white space, as every
one that `strftime` writes. -/
def Plain (ts : String) : Prop :=
  hasTsForm ts = true ∧ (∀ c ∈ ts.toList.head?, isWhitespace c = false) ∧ '\t' ∉ ts.toList

instance (ts : String) : Decidable (Plain ts) :=
  decidable_of_iff (hasTsForm ts = true ∧ ts.toList.head?.all (fun c => !isWhitespace c) = true ∧
    '\t' ∉ ts.toList) (by simp [Plain, Option.all_eq_true])

example : Plain "2026-04-29T15:00:00Z" := by decide
example : hasTsForm " 026-04-29T15:00:00Z" = true := by decide

theorem getLast?_of_likeMatches {ps cs : List Char} {p : Char} (hp : p ≠ '_')
    (h : likeMatches (ps ++ [p]) cs = true) :
    ∃ c, cs.getLast? = some c ∧ p.toLower = c.toLower := by
  induction ps generalizing cs with
  | nil =>
    cases cs with
    | nil => cases h
    | cons c cs =>
      simp only [List.nil_append, likeMatches, Bool.and_eq_true, Bool.or_eq_true, decide_eq_true_eq,
        hp, false_or] at h
      have hnil : cs = [] := List.length_eq_zero_iff.mp (length_of_likeMatches h.2)
      exact ⟨c, by simp [hnil], h.1⟩
  | cons q ps ih =>
    cases cs with
    | nil => cases h
    | cons c cs =>
      simp only [List.cons_append, likeMatches, Bool.and_eq_true] at h
      obtain ⟨d, hd, heq⟩ := ih h.2
      exact ⟨d, by rw [List.getLast?_cons, hd]; rfl, heq⟩

theorem trim_eq_self_of_ends {cs : List Char} (hh : ∀ c ∈ cs.head?, isWhitespace c = false)
    (hl : ∀ c ∈ cs.getLast?, isWhitespace c = false) : trim cs = cs := by
  have hd : ∀ l : List Char, (∀ c ∈ l.head?, isWhitespace c = false) →
      l.dropWhile isWhitespace = l := by
    intro l h
    cases l with
    | nil => rfl
    | cons c l => simp [List.dropWhile, h c (by simp)]
  unfold trim
  rw [hd cs hh, hd cs.reverse (by simpa using hl), List.reverse_reverse]

theorem length_le_utf8ByteSize (cs : List Char) : cs.length ≤ (String.ofList cs).utf8ByteSize := by
  induction cs with
  | nil => simp
  | cons c cs ih =>
    have hsplit : String.ofList (c :: cs) = String.singleton c ++ String.ofList cs := by
      apply String.toList_inj.mp
      simp
    have := Char.utf8Size_pos c
    rw [hsplit, String.utf8ByteSize_append, String.utf8ByteSize_singleton, List.length_cons]
    omega

/-- The last character of a stored timestamp is a `Z`, in either case. -/
theorem not_isWhitespace_of_toLower {c : Char} (h : 'Z'.toLower = c.toLower) :
    isWhitespace c = false := by
  have hcases : (65 ≤ c.toNat ∧ c.toNat ≤ 90) ∨ c = 'z' := by
    unfold Char.toLower at h
    by_cases hc : c.val ≥ 'A'.val ∧ c.val ≤ 'Z'.val
    · exact .inl hc
    · right
      rw [dif_neg hc] at h
      exact h.symm
  rcases hcases with hc | rfl
  · simp [isWhitespace]
    omega
  · rfl

theorem normalizeTs_of_plain {ts : String} (h : Plain ts) : normalizeTs ts = ts := by
  obtain ⟨hform, hhead, -⟩ := h
  have hlen := length_of_likeMatches hform
  have hsplit : likeMatches ("____-__-__T__:__:__".toList ++ ['Z']) ts.toList = true := hform
  obtain ⟨c, hc, hz⟩ := getLast?_of_likeMatches (by decide) hsplit
  have htrim : trim ts.toList = ts.toList := by
    apply trim_eq_self_of_ends hhead
    intro d hd
    cases Option.some.inj (hc.symm.trans hd)
    exact not_isWhitespace_of_toLower hz
  have hlong : ts.utf8ByteSize ≠ 19 := by
    have hle := length_le_utf8ByteSize ts.toList
    have hpat : tsPattern.toList.length = 20 := by decide
    rw [String.ofList_toList] at hle
    omega
  simp only [normalizeTs, htrim, String.ofList_toList, if_neg hlong, ite_self]

end StellarGate
