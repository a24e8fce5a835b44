import StellarGate.Base.Crc
import StellarGate.Strkey.Base32

/-! What `validate_account_id` accepts: the texts of keys, with a checksum that is a
remainder of polynomials. -/
namespace StellarGate
namespace Strkey
open Base Polynomial

noncomputable def xmodem : (ZMod 2)[X] := X ^ 16 + X ^ 12 + X ^ 5 + 1

/-- The CRC16-XModem of bytes: the remainder of their polynomial, moved up by 16. -/
def IsXmodem (data : List (BitVec 8)) (crc : BitVec 16) : Prop :=
  wordPoly crc = (bitPoly (wordBits data) * X ^ 16) %ₘ xmodem

/-- `u16::to_le_bytes`. -/
def leBytes (crc : BitVec 16) : List (BitVec 8) := [crc.extractLsb' 0 8, crc.extractLsb' 8 8]

def payload (key : Vector (BitVec 8) 32) : List (BitVec 8) := 0x30 :: key.toList

/-- The text is the account strkey of the key. -/
def IsAccountText (key : Vector (BitVec 8) 32) (s : String) : Prop :=
  ∃ crc, IsXmodem (payload key) crc ∧ s = base32Text (payload key ++ leBytes crc)

/-- The key is what `base32_decode` finds between the version byte and the checksum. -/
def DecodesTo (s : String) (key : Vector (BitVec 8) 32) : Prop :=
  ∃ lo hi, base32Decode s = some (payload key ++ [lo, hi])

def accountBytes (key : Vector (BitVec 8) 32) : List (BitVec 8) :=
  payload key ++ leBytes (crc16Xmodem (payload key))

section Checksum

theorem crcShift_eq (crc : BitVec 16) : crcShift crc = shift 0x1021 crc := by
  have hmask : crc &&& 0x8000 = if crc.msb then 0x8000 else 0 := by
    have htwo : (0x8000 : BitVec 16) = BitVec.twoPow 16 15 := by decide
    rw [htwo, BitVec.and_twoPow, BitVec.msb_eq_getLsbD_last]
    rfl
  unfold crcShift shift
  rw [hmask]
  cases crc.msb <;> simp

theorem crcByte_eq (crc : BitVec 16) (byte : BitVec 8) :
    crcByte crc byte = feed 0x1021 crc byte := by
  have hshift : crcShift = shift 0x1021 := funext crcShift_eq
  unfold crcByte feed
  rw [hshift]

theorem generator_xmodem : generator (0x1021 : BitVec 16) = xmodem := by
  have hbits : bits 16 (0x1021 : BitVec 16).toNat =
      [false, false, false, true, false, false, false, false, false, false, true, false, false,
        false, false, true] := by decide
  unfold generator wordPoly xmodem
  rw [hbits]
  simp [bitPoly, bitValue]
  ring

theorem degree_xmodem : xmodem.degree = 16 := by
  rw [← generator_xmodem, degree_generator]
  rfl

/-- `crc16_xmodem` is the remainder. -/
theorem isXmodem_crc16Xmodem (data : List (BitVec 8)) : IsXmodem data (crc16Xmodem data) := by
  have hbyte : crcByte = feed 0x1021 := funext fun crc => funext fun byte => crcByte_eq crc byte
  unfold IsXmodem crc16Xmodem
  rw [hbyte, ← generator_xmodem]
  exact foldl_feed_eq_modByMonic 0x1021 (by omega) (by omega) data

theorem isXmodem_iff {data : List (BitVec 8)} {crc : BitVec 16} :
    IsXmodem data crc ↔ crc = crc16Xmodem data := by
  constructor
  · intro h
    have hpoly : wordPoly crc = wordPoly (crc16Xmodem data) :=
        h.trans (isXmodem_crc16Xmodem data).symm
    apply BitVec.eq_of_getLsbD_eq
    intro i _
    have hcoeff := congrArg (fun p => p.coeff i) hpoly
    simp only [coeff_wordPoly] at hcoeff
    exact bitValue_inj hcoeff
  · rintro rfl
    exact isXmodem_crc16Xmodem data

theorem fromLeBytes_leBytes (crc : BitVec 16) : fromLeBytes (leBytes crc) = crc := by
  unfold leBytes fromLeBytes
  apply BitVec.eq_of_getLsbD_eq
  intro i hi
  rw [BitVec.getLsbD_append, BitVec.getLsbD_extractLsb', BitVec.getLsbD_extractLsb']
  by_cases h : i < 8
  · simp [h]
  · simp [h, show i - 8 < 8 by omega, show 8 + (i - 8) = i by omega]

theorem leBytes_fromLeBytes (lo hi : BitVec 8) : leBytes (fromLeBytes [lo, hi]) = [lo, hi] := by
  unfold leBytes fromLeBytes
  have hlo : (hi ++ lo).extractLsb' 0 8 = lo := by
    apply BitVec.eq_of_getLsbD_eq
    intro i h
    rw [BitVec.getLsbD_extractLsb', BitVec.getLsbD_append, Nat.zero_add, if_pos h, decide_eq_true h,
      Bool.true_and]
  have hhi : (hi ++ lo).extractLsb' 8 8 = hi := by
    apply BitVec.eq_of_getLsbD_eq
    intro i h
    rw [BitVec.getLsbD_extractLsb', BitVec.getLsbD_append, if_neg (by omega),
      Nat.add_sub_cancel_left, decide_eq_true h, Bool.true_and]
  rw [hlo, hhi]

end Checksum

section Accepted
variable {s : String} {key key' : Vector (BitVec 8) 32} {data : List (BitVec 8)}

theorem isAccountText_iff : IsAccountText key s ↔ s = base32Text (accountBytes key) := by
  constructor
  · rintro ⟨crc, hcrc, rfl⟩
    rw [isXmodem_iff.mp hcrc]
    rfl
  · rintro rfl
    exact ⟨_, isXmodem_crc16Xmodem _, rfl⟩

theorem length_payload (key : Vector (BitVec 8) 32) : (payload key).length = 33 := by
  unfold payload
  rw [List.length_cons, Vector.length_toList]

theorem length_accountBytes (key : Vector (BitVec 8) 32) : (accountBytes key).length = 35 := by
  unfold accountBytes
  rw [List.length_append, length_payload]
  rfl

theorem utf8ByteSize_letters {vs : List ℕ} (hvs : ∀ v ∈ vs, v < 32) :
    (String.ofList (vs.map letter)).utf8ByteSize = vs.length := by
  have hsize : ∀ v < 32, (letter v).utf8Size = 1 := by decide
  induction vs with
  | nil => rfl
  | cons v vs ih =>
    have hsplit : String.ofList ((v :: vs).map letter) =
        String.singleton (letter v) ++ String.ofList (vs.map letter) := by
      apply String.toList_injective
      simp
    rw [hsplit, String.utf8ByteSize_append, String.utf8ByteSize_singleton,
      hsize v (hvs v List.mem_cons_self), ih fun x hx => hvs x (List.mem_cons_of_mem _ hx),
      List.length_cons, Nat.add_comm]

/-- A text that can be decoded has as many bytes as characters. -/
theorem utf8ByteSize_of_decode (h : base32Decode s = some data) :
    s.utf8ByteSize = s.toList.length := by
  obtain ⟨vs, hvs, hletters⟩ := exists_letters h
  have hs : s = String.ofList (vs.map letter) := by
    rw [← hletters, String.ofList_toList]
  rw [hletters, List.length_map, ← utf8ByteSize_letters hvs, ← hs]

theorem length_of_decode (hs : s.utf8ByteSize = accountStrkeyLen) (h : base32Decode s = some data) :
    s = base32Text data ∧ data.length = accountDecodedLen := by
  rw [utf8ByteSize_of_decode h] at hs
  unfold accountStrkeyLen at hs
  obtain ⟨htext, hlen⟩ := base32Text_of_base32Decode (by omega) h
  refine ⟨htext, ?_⟩
  unfold accountDecodedLen
  omega

theorem checks_iff (hlen : data.length = 35) :
    (data.head? = some ed25519PublicKeyVersion ∧ crc16Xmodem (data.take 33) = fromLeBytes
      (data.drop 33)) ↔
      ∃ key, data = accountBytes key := by
  constructor
  · rintro ⟨hversion, hcrc⟩
    obtain ⟨lo, hi, htail⟩ : ∃ lo hi, data.drop 33 = [lo, hi] := by
      apply List.length_eq_two.mp
      rw [List.length_drop]
      omega
    obtain ⟨rest, hrest⟩ : ∃ rest, data = ed25519PublicKeyVersion :: rest :=
        List.head?_eq_some_iff.mp hversion
    have hkey : (rest.take 32).toArray.size = 32 := by
      have hlen' : rest.length + 1 = 35 := by
        rw [← hlen, hrest, List.length_cons]
      rw [List.size_toArray, List.length_take]
      omega
    have hpayload : data.take 33 = payload ⟨(rest.take 32).toArray, hkey⟩ := by
      rw [hrest]
      rfl
    refine ⟨⟨(rest.take 32).toArray, hkey⟩, ?_⟩
    unfold accountBytes
    rw [← hpayload, hcrc, htail, leBytes_fromLeBytes, ← htail, List.take_append_drop]
  · rintro ⟨key, rfl⟩
    refine ⟨rfl, ?_⟩
    unfold accountBytes
    rw [← length_payload key, List.take_left, List.drop_left, fromLeBytes_leBytes]

theorem base32Decode_accountBytes (key : Vector (BitVec 8) 32) :
    base32Decode (base32Text (accountBytes key)) = some (accountBytes key) := by
  have hlen := length_accountBytes key
  exact base32Decode_base32Text (by omega)

/-- The accepted texts are those of the keys. -/
theorem validateAccountId_ok_iff :
    validateAccountId s = .ok () ↔ ∃ key, s = base32Text (accountBytes key) := by
  constructor
  · intro h
    unfold validateAccountId at h
    split_ifs at h with hlen
    cases hd : base32Decode s with
    | none =>
      rw [hd] at h
      cases h
    | some data =>
      obtain ⟨htext, hcount⟩ := length_of_decode (not_not.mp hlen) hd
      have hlast : data.length - 2 = 33 := by
        rw [hcount]
        rfl
      rw [hd] at h
      simp only [hlast] at h
      split_ifs at h with hlen' hversion hcrc
      obtain ⟨key, rfl⟩ := (checks_iff hcount).mp ⟨not_not.mp hversion, not_not.mp hcrc⟩
      exact ⟨key, htext⟩
  · rintro ⟨key, rfl⟩
    have hlen := length_accountBytes key
    have hdecode := base32Decode_accountBytes key
    have hsize : (base32Text (accountBytes key)).utf8ByteSize = accountStrkeyLen := by
      rw [utf8ByteSize_of_decode hdecode]
      unfold base32Text accountStrkeyLen
      rw [String.toList_ofList, List.length_map, length_groups, hlen]
    have hcount : (accountBytes key).length = accountDecodedLen := hlen
    obtain ⟨hversion, hcrc⟩ := (checks_iff hlen).mpr ⟨key, rfl⟩
    unfold validateAccountId
    rw [if_neg (not_not.mpr hsize), hdecode]
    simp only
    rw [if_neg (not_not.mpr hcount), if_neg (not_not.mpr hversion), hlen, if_neg (not_not.mpr hcrc)]

theorem key_eq_of_append {x y : List (BitVec 8)} (h : payload key ++ x = payload key' ++ y) :
    key = key' := by
  have hlen : (payload key).length = (payload key').length :=
      (length_payload key).trans (length_payload key').symm
  have hpayload := List.append_inj_left h hlen
  exact Vector.toList_inj.mp (List.cons.inj hpayload).2

theorem decodesTo_iff (h : validateAccountId s = .ok ()) :
    DecodesTo s key ↔ s = base32Text (accountBytes key) := by
  obtain ⟨key', rfl⟩ := validateAccountId_ok_iff.mp h
  constructor
  · rintro ⟨lo, hi, hd⟩
    rw [base32Decode_accountBytes] at hd
    rw [key_eq_of_append (Option.some.inj hd)]
  · intro heq
    refine ⟨(crc16Xmodem (payload key)).extractLsb' 0 8,
      (crc16Xmodem (payload key)).extractLsb' 8 8, ?_⟩
    rw [heq, base32Decode_accountBytes]
    rfl

/-- `validate_account_id` accepts exactly the account strkeys, one for each key. -/
theorem validateAccountId_exact :
    (∀ s, validateAccountId s = .ok () ↔ ∃ key, IsAccountText key s) ∧
    (∀ key, ∃! s, validateAccountId s = .ok () ∧ DecodesTo s key) ∧
    (∀ s, validateAccountId s = .ok () → ∃! key, DecodesTo s key) ∧
    ∀ s data, s.utf8ByteSize = accountStrkeyLen → base32Decode s = some data →
      data.length = accountDecodedLen := by
  refine ⟨?_, ?_, ?_, ?_⟩
  · intro s
    rw [validateAccountId_ok_iff]
    simp only [isAccountText_iff]
  · intro key
    have hok := validateAccountId_ok_iff.mpr ⟨key, rfl⟩
    refine ⟨base32Text (accountBytes key), ⟨hok, (decodesTo_iff hok).mpr rfl⟩, ?_⟩
    rintro s ⟨hs, hd⟩
    exact (decodesTo_iff hs).mp hd
  · intro s hs
    obtain ⟨key, heq⟩ := validateAccountId_ok_iff.mp hs
    refine ⟨key, (decodesTo_iff hs).mpr heq, ?_⟩
    intro key' hd
    have htext := (decodesTo_iff hs).mp hd
    have hdecode := congrArg base32Decode (heq.symm.trans htext)
    rw [base32Decode_accountBytes, base32Decode_accountBytes] at hdecode
    exact (key_eq_of_append (Option.some.inj hdecode)).symm
  · intro s data hs hd
    exact (length_of_decode hs hd).2

end Accepted
end Strkey
end StellarGate
