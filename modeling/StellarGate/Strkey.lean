import Mathlib.Logic.Function.Iterate
import Mathlib.Tactic.Common

/-! Stellar account addresses: `src/strkey.rs`. -/
namespace StellarGate

/-- Why a text is no account address. -/
inductive StrkeyError where
  | length | alphabet | version | checksum
  deriving DecidableEq, Repr

/-- `Display`. -/
def StrkeyError.message : StrkeyError → String
  | length => "must be 56 characters"
  | alphabet => "contains non-base32 characters"
  | version => "wrong version byte (expected a 'G' account address)"
  | checksum => "checksum mismatch (corrupted or mistyped)"

namespace Strkey

def ed25519PublicKeyVersion : BitVec 8 := 6 <<< 3

def accountStrkeyLen : ℕ := 56

def accountDecodedLen : ℕ := 35

def alphabet : List Char := "ABCDEFGHIJKLMNOPQRSTUVWXYZ234567".toList

/-- The loop of `base32_decode`. `buffer` holds `bits` bits, at most 12, so that no `u32` overflows;
the bytes of a character outside ASCII are as foreign to the alphabet as the character. -/
def base32Loop : List Char → ℕ → ℕ → Option (List (BitVec 8))
  | [], _, _ => some []
  | c :: cs, buffer, bits =>
    (alphabet.idxOf? c).bind fun value =>
      let buffer := (buffer <<< 5) ||| value
      let bits := bits + 5
      if 8 ≤ bits then
        let rest := bits - 8
        (base32Loop cs (buffer &&& ((1 <<< rest) - 1)) rest).map
        (BitVec.ofNat 8 (buffer >>> rest) :: ·)
      else base32Loop cs buffer bits

def base32Decode (s : String) : Option (List (BitVec 8)) := base32Loop s.toList 0 0

/-- One round of the inner loop of `crc16_xmodem`. -/
def crcShift (crc : BitVec 16) : BitVec 16 :=
  if crc &&& 0x8000 ≠ 0 then (crc <<< 1) ^^^ 0x1021 else crc <<< 1

/-- One round of the outer loop of `crc16_xmodem`. -/
def crcByte (crc : BitVec 16) (byte : BitVec 8) : BitVec 16 :=
  crcShift^[8] (crc ^^^ (byte.setWidth 16 <<< 8))

def crc16Xmodem (data : List (BitVec 8)) : BitVec 16 := data.foldl crcByte 0

/-- `u16::from_le_bytes`; a checksum has two bytes. -/
def fromLeBytes : List (BitVec 8) → BitVec 16
  | lo :: hi :: _ => hi ++ lo
  | _ => 0

def validateAccountId (s : String) : Except StrkeyError Unit :=
  if s.utf8ByteSize ≠ accountStrkeyLen then .error .length
  else
    match base32Decode s with
    | none => .error .alphabet
    | some decoded =>
      if decoded.length ≠ accountDecodedLen then .error .length
      else if decoded.head? ≠ some ed25519PublicKeyVersion then .error .version
      else
        let payload := decoded.take (decoded.length - 2)
        let checksum := decoded.drop (decoded.length - 2)
        if crc16Xmodem payload ≠ fromLeBytes checksum then .error .checksum else .ok ()

example : validateAccountId "GBBD47IF6LWK7P7MDEVSCWR7DPUWV3NY3DTQEVFL4NAT4AQH3ZLLFLA5" =
    .ok () := by
  decide +kernel
example : validateAccountId "GBBD47IF6LWK7P7MDEVSCWR7DPUWV3NY3DTQEVFL4NAT4AQH3ZLLFLB5" =
    .error .checksum := by
  decide +kernel

theorem utf8ByteSize_of_valid {s : String} (h : validateAccountId s = .ok ()) :
    s.utf8ByteSize = 56 := by
  unfold validateAccountId at h
  split_ifs at h with hlen
  exact not_not.mp hlen

theorem ne_empty_of_valid {s : String} (h : validateAccountId s = .ok ()) : s ≠ "" := by
  rintro rfl
  exact absurd (utf8ByteSize_of_valid h) (by decide)

end Strkey
end StellarGate
