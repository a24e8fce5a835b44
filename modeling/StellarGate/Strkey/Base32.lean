import StellarGate.Base.Bits
import StellarGate.Strkey

/-! The base32 text of bytes, and what `base32_decode` makes of a text. -/
namespace StellarGate
namespace Strkey
open Base

/-- The letter of a group of five bits, by RFC 4648. -/
def letter (v : ℕ) : Char := Char.ofNat (if v < 26 then 65 + v else 24 + v)

/-- The base32 text of RFC 4648, without padding: the last group of bits is filled up with zeros. -/
def base32Text (data : List (BitVec 8)) : String :=
  String.ofList ((groups 5 ((8 * data.length + 4) / 5) (wordBits data)).map fun g =>
    letter (ofBits (g.rightpad 5 false)))

def octets (l : List Bool) : List (BitVec 8) :=
  (groups 8 (l.length / 8) l).map fun g => BitVec.ofNat 8 (ofBits g)

section Letters
variable {v : ℕ} {c : Char}

theorem idxOf?_letter (h : v < 32) : alphabet.idxOf? (letter v) = some v := by
  revert v
  decide

theorem letter_of_idxOf? (h : alphabet.idxOf? c = some v) : v < 32 ∧ c = letter v := by
  have hlen : alphabet.length = 32 := rfl
  have hall : ∀ v < 32, alphabet[v]? = some (letter v) := by decide
  have hget : alphabet[v]? = some c := by
    obtain ⟨hv, heq, -⟩ := List.idxOf?_eq_some_iff.mp h
    rw [List.getElem?_eq_getElem hv, heq]
  have hv : v < 32 := by
    rw [← hlen]
    exact (List.getElem?_eq_some_iff.mp hget).1
  refine ⟨hv, ?_⟩
  rw [hall v hv] at hget
  exact (Option.some.inj hget).symm

end Letters

section Octets
variable {l : List Bool}

theorem octets_of_short (h : l.length < 8) : octets l = [] := by
  unfold octets
  rw [Nat.div_eq_of_lt h]
  rfl

theorem octets_bits_append (n : ℕ) (l : List Bool) :
    octets (bits 8 n ++ l) = BitVec.ofNat 8 n :: octets l := by
  unfold octets
  have hlen : (bits 8 n ++ l).length / 8 = l.length / 8 + 1 := by
    rw [List.length_append, length_bits]
    omega
  rw [hlen, groups_append (length_bits 8 n), List.map_cons, ofBits_bits]
  congr 1
  apply BitVec.eq_of_toNat_eq
  simp

theorem length_octets (l : List Bool) : (octets l).length = l.length / 8 := by
  unfold octets
  rw [List.length_map, length_groups]

theorem octets_wordBits (data : List (BitVec 8)) : octets (wordBits data) = data := by
  induction data with
  | nil => rfl
  | cons x data ih =>
    have hbits : wordBits (x :: data) = bits 8 x.toNat ++ wordBits data := rfl
    rw [hbits, octets_bits_append, ih, BitVec.ofNat_toNat, BitVec.setWidth_eq]

theorem wordBits_octets (h : 8 ∣ l.length) : wordBits (octets l) = l := by
  have hlen : 8 * (l.length / 8) = l.length := Nat.mul_div_cancel' h
  have hwords : wordBits (octets l) = ((groups 8 (l.length / 8) l).map ofBits).flatMap
      (bits 8) := by
    unfold wordBits octets
    rw [List.flatMap_def, List.flatMap_def, List.map_map, List.map_map]
    congr 1
    apply List.map_congr_left
    intro g _
    simp only [Function.comp_apply]
    rw [BitVec.toNat_ofNat, bits_mod]
  rw [hwords, flatMap_bits_groups hlen.le, hlen, List.take_length]

end Octets

theorem base32Loop_letters {vs : List ℕ} (hvs : ∀ v ∈ vs, v < 32) {buffer n : ℕ} (hn : n < 8) :
    base32Loop (vs.map letter) buffer n = some (octets (bits n buffer ++ vs.flatMap (bits 5))) := by
  induction vs generalizing buffer n with
  | nil =>
    rw [octets_of_short (by simpa using hn)]
    rfl
  | cons v vs ih =>
    have ih := @ih fun x hx => hvs x (List.mem_cons_of_mem _ hx)
    have hv : v < 2 ^ 5 := hvs v List.mem_cons_self
    have hbits : bits n buffer ++ (v :: vs).flatMap (bits 5) =
        bits (n + 5) ((buffer <<< 5) ||| v) ++ vs.flatMap (bits 5) := by
      rw [List.flatMap_cons, ← List.append_assoc, bits_or hv]
    rw [hbits, List.map_cons, base32Loop, idxOf?_letter hv, Option.bind_some]
    simp only
    split_ifs with hfull
    · have hsplit : bits (n + 5) ((buffer <<< 5) ||| v) =
          bits 8 (((buffer <<< 5) ||| v) >>> (n + 5 - 8)) ++ bits (n + 5 - 8)
            (((buffer <<< 5) ||| v) &&& ((1 <<< (n + 5 - 8)) - 1)) := by
        rw [bits_and_mask, ← bits_append]
        congr 1
        omega
      rw [ih (by omega), hsplit, List.append_assoc, octets_bits_append]
      rfl
    · exact ih (by omega)

/-- What the loop decodes is made of letters. -/
theorem exists_letters {cs : List Char} {buffer n : ℕ} {out : List (BitVec 8)}
    (h : base32Loop cs buffer n = some out) :
    ∃ vs : List ℕ, (∀ v ∈ vs, v < 32) ∧ cs = vs.map letter := by
  induction cs generalizing buffer n out with
  | nil => exact ⟨[], by simp, rfl⟩
  | cons c cs ih =>
    unfold base32Loop at h
    obtain ⟨v, hv, hout⟩ := Option.bind_eq_some_iff.mp h
    obtain ⟨hlt, rfl⟩ := letter_of_idxOf? hv
    have hrest : ∃ vs : List ℕ, (∀ v ∈ vs, v < 32) ∧ cs = vs.map letter := by
      simp only at hout
      split_ifs at hout with hfull
      · obtain ⟨out', hout, -⟩ := Option.map_eq_some_iff.mp hout
        exact ih hout
      · exact ih hout
    obtain ⟨vs, hvs, rfl⟩ := hrest
    exact ⟨v :: vs, List.forall_mem_cons.mpr ⟨hlt, hvs⟩, rfl⟩

section Texts
variable {data : List (BitVec 8)} {s : String}

theorem rightpad_eq_self {g : List Bool} (h : g.length = 5) : g.rightpad 5 false = g := by
  unfold List.rightpad
  rw [h]
  exact List.append_nil g

theorem base32Decode_base32Text (h : 5 ∣ data.length) :
    base32Decode (base32Text data) = some data := by
  obtain ⟨k, hk⟩ := h
  have hlen : (wordBits data).length = 5 * (8 * k) := by
    rw [length_wordBits]
    omega
  have hcount : (8 * data.length + 4) / 5 = 8 * k := by omega
  have hgroup : ∀ g ∈ groups 5 (8 * k) (wordBits data), g.length = 5 :=
      fun g hg => length_of_mem_groups hlen.ge hg
  have hletters : ((groups 5 (8 * k) (wordBits data)).map fun g => letter
      (ofBits (g.rightpad 5 false))) =
      ((groups 5 (8 * k) (wordBits data)).map ofBits).map letter := by
    rw [List.map_map]
    apply List.map_congr_left
    intro g hg
    rw [rightpad_eq_self (hgroup g hg)]
    rfl
  have hbits : ((groups 5 (8 * k) (wordBits data)).map ofBits).flatMap (bits 5) =
      wordBits data := by
    rw [flatMap_bits_groups hlen.ge, ← hlen, List.take_length]
  unfold base32Decode base32Text
  rw [String.toList_ofList, hcount, hletters, base32Loop_letters _ (by omega), hbits]
  · exact congrArg some (octets_wordBits data)
  · intro v hv
    obtain ⟨g, hg, rfl⟩ := List.mem_map.mp hv
    have hlt := ofBits_lt g
    rw [hgroup g hg] at hlt
    exact hlt

/-- A text of groups of eight characters is the text of the bytes that it decodes to. -/
theorem base32Text_of_base32Decode (hs : 8 ∣ s.toList.length) (h : base32Decode s = some data) :
    s = base32Text data ∧ 8 * data.length = 5 * s.toList.length := by
  obtain ⟨k, hk⟩ := hs
  unfold base32Decode at h
  obtain ⟨vs, hvs, hletters⟩ := exists_letters h
  have hcount : vs.length = 8 * k := by
    rw [← hk, hletters, List.length_map]
  have hbitlen : (vs.flatMap (bits 5)).length = 5 * vs.length := by
    rw [length_flatMap_of_length fun v _ => length_bits 5 v, Nat.mul_comm]
  rw [hletters, base32Loop_letters hvs (by omega)] at h
  have hdata : octets (vs.flatMap (bits 5)) = data := Option.some.inj h
  have hlen : data.length = 5 * k := by
    rw [← hdata, length_octets]
    omega
  refine ⟨?_, by omega⟩
  have hgroups : groups 5 ((8 * data.length + 4) / 5) (wordBits data) = vs.map (bits 5) := by
    rw [← hdata, wordBits_octets (by omega), hdata, show (8 * data.length + 4) / 5 = vs.length by
      omega]
    have hmap := groups_flatMap (fun v (_ : v ∈ vs) => length_bits 5 v) []
    rw [List.append_nil] at hmap
    exact hmap
  apply String.toList_injective
  unfold base32Text
  rw [String.toList_ofList, hgroups, List.map_map, hletters]
  apply List.map_congr_left
  intro v hv
  simp only [Function.comp_apply]
  have hlt : v < 2 ^ 5 := hvs v hv
  rw [rightpad_eq_self (length_bits 5 v), ofBits_bits, Nat.mod_eq_of_lt hlt]

end Texts
end Strkey
end StellarGate
