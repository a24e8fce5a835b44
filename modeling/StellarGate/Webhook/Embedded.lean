import StellarGate.Net.IpText
import StellarGate.Webhook.Ssrf

/-! IPv4 addresses written as IPv6 ones, and the forms the guard of `src/ssrf.rs` sees through. -/
namespace StellarGate

namespace IpText

theorem toUInt8_fromBeBytes (hi lo : UInt8) : (fromBeBytes hi lo).toUInt8 = lo := by
  have hhi : hi.toNat < 256 := hi.toNat_lt
  have hlo : lo.toNat < 256 := lo.toNat_lt
  apply UInt8.toNat_inj.mp
  unfold fromBeBytes
  rw [UInt16.toNat_toUInt8, UInt16.toNat_ofNat']
  omega

theorem toUInt8_fromBeBytes_shift (hi lo : UInt8) : (fromBeBytes hi lo >>> 8).toUInt8 = hi := by
  have hhi : hi.toNat < 256 := hi.toNat_lt
  have hlo : lo.toNat < 256 := lo.toNat_lt
  apply UInt8.toNat_inj.mp
  unfold fromBeBytes
  simp [Nat.shiftRight_eq_div_pow]
  omega

theorem fromBeBytes_injective {hi lo hi' lo' : UInt8}
    (h : fromBeBytes hi lo = fromBeBytes hi' lo') :
    hi = hi' ∧ lo = lo' := by
  constructor
  · rw [← toUInt8_fromBeBytes_shift hi lo, h, toUInt8_fromBeBytes_shift]
  · rw [← toUInt8_fromBeBytes hi lo, h, toUInt8_fromBeBytes]

end IpText

open IpText (fromBeBytes)

inductive Embedding where
  | mapped
  | compatible
  | sixToFour (s₃ s₄ s₅ s₆ s₇ : UInt16)
  | nat64
  deriving DecidableEq, Repr

namespace Embedding

/-- `::ffff:a`, `::a`, an address of `2002:a::/48`, and `64:ff9b::a`. -/
def embed (e : Embedding) (a : Ipv4Addr) : Ipv6Addr :=
  let hi := fromBeBytes a.a a.b
  let lo := fromBeBytes a.c a.d
  match e with
  | .mapped => ⟨0, 0, 0, 0, 0, 0xffff, hi, lo⟩
  | .compatible => ⟨0, 0, 0, 0, 0, 0, hi, lo⟩
  | .sixToFour s₃ s₄ s₅ s₆ s₇ => ⟨0x2002, hi, lo, s₃, s₄, s₅, s₆, s₇⟩
  | .nat64 => ⟨0x64, 0xff9b, 0, 0, 0, 0, hi, lo⟩

/-- Where the guard still sees the address: every IPv4-mapped one, and the two IPv4-compatible
ones that are `::` and `::1`. -/
def SeenThrough (e : Embedding) (a : Ipv4Addr) : Prop :=
  e = .mapped ∨ (e = .compatible ∧ (a = ⟨0, 0, 0, 0⟩ ∨ a = ⟨0, 0, 0, 1⟩))

theorem embed_injective (e : Embedding) : Function.Injective e.embed := by
  intro a a' h
  have hparts : fromBeBytes a.a a.b = fromBeBytes a'.a a'.b ∧
      fromBeBytes a.c a.d = fromBeBytes a'.c a'.d := by
    cases e <;> simpa [embed] using h
  obtain ⟨ha, hb⟩ := IpText.fromBeBytes_injective hparts.1
  obtain ⟨hc, hd⟩ := IpText.fromBeBytes_injective hparts.2
  cases a
  cases a'
  simp_all

theorem toIpv4Mapped_mapped (a : Ipv4Addr) : (mapped.embed a).toIpv4Mapped = some a := by
  unfold embed Ipv6Addr.toIpv4Mapped
  simp [IpText.toUInt8_fromBeBytes, IpText.toUInt8_fromBeBytes_shift]

/-- An IPv4-mapped address is blocked as its IPv4 address is. -/
theorem isBlockedIpv6_mapped (a : Ipv4Addr) : isBlockedIpv6 (mapped.embed a) = isBlockedIpv4 a := by
  unfold isBlockedIpv6
  rw [toIpv4Mapped_mapped]
  simp [embed, Ipv6Addr.isLoopback, Ipv6Addr.isUnspecified, Ipv6Addr.isMulticast]

/-- Of the addresses whose upper six segments are zero, only `::` and `::1` are blocked. -/
theorem isBlockedIpv6_compatible (a : Ipv4Addr) :
    isBlockedIpv6 (compatible.embed a) = true ↔ a = ⟨0, 0, 0, 0⟩ ∨ a = ⟨0, 0, 0, 1⟩ := by
  have hone : compatible.embed a = ⟨0, 0, 0, 0, 0, 0, 0, 1⟩ ↔ a = ⟨0, 0, 0, 1⟩ :=
    (embed_injective compatible).eq_iff' (by decide)
  have hzero : compatible.embed a = ⟨0, 0, 0, 0, 0, 0, 0, 0⟩ ↔ a = ⟨0, 0, 0, 0⟩ :=
    (embed_injective compatible).eq_iff' (by decide)
  have hmapped : (compatible.embed a).toIpv4Mapped = none := by
    unfold embed Ipv6Addr.toIpv4Mapped
    simp
  have hfirst : (compatible.embed a).s₀ = 0 := rfl
  unfold isBlockedIpv6
  rw [hmapped]
  simp only [Ipv6Addr.isLoopback, Ipv6Addr.isUnspecified, Ipv6Addr.isMulticast, hone, hzero, hfirst]
  simp [or_comm]

/-- No test of the filter looks past a first segment outside `fc00::/7`,
`fe80::/10`, `ff00::/8` and `0`. -/
theorem isBlockedIpv6_of_first {ip : Ipv6Addr} (h : ip.s₀ = 0x2002 ∨ ip.s₀ = 0x64) :
    isBlockedIpv6 ip = false := by
  have hne : ip.s₀ ≠ 0 := by
    intro hzero
    rw [hzero] at h
    exact absurd h (by decide)
  have hmapped : ip.toIpv4Mapped = none := by
    unfold Ipv6Addr.toIpv4Mapped
    simp [hne]
  have hlow : ∀ s : UInt16, ip ≠ ⟨0, 0, 0, 0, 0, 0, 0, s⟩ := by
    intro s hip
    exact hne (congrArg Ipv6Addr.s₀ hip)
  unfold isBlockedIpv6
  rw [hmapped]
  simp only [Ipv6Addr.isLoopback, Ipv6Addr.isUnspecified, Ipv6Addr.isMulticast, hlow]
  cases h with
  | inl h => rw [h]; decide
  | inr h => rw [h]; decide

theorem isBlockedIpv6_embed_iff {a : Ipv4Addr} (ha : isBlockedIpv4 a = true) (e : Embedding) :
    isBlockedIpv6 (e.embed a) = true ↔ e.SeenThrough a := by
  unfold SeenThrough
  cases e with
  | mapped => simp [isBlockedIpv6_mapped, ha]
  | compatible => simp [isBlockedIpv6_compatible]
  | sixToFour s₃ s₄ s₅ s₆ s₇ =>
    have hout : isBlockedIpv6 ((sixToFour s₃ s₄ s₅ s₆ s₇).embed a) = false :=
      isBlockedIpv6_of_first (.inl rfl)
    simp [hout]
  | nat64 =>
    have hout : isBlockedIpv6 (nat64.embed a) = false := isBlockedIpv6_of_first (.inr rfl)
    simp [hout]

/-- A blocked IPv4 address stays blocked in exactly the forms the guard sees through. -/
theorem stays_blocked_iff (a : Ipv4Addr) (e : Embedding) :
    (isBlockedIpv4 a = true → isBlockedIp (.v6 (e.embed a)) = true) ↔
      isBlockedIpv4 a = false ∨ e.SeenThrough a := by
  unfold isBlockedIp
  cases ha : isBlockedIpv4 a with
  | true => simp [isBlockedIpv6_embed_iff ha]
  | false => simp

/-- The metadata address is let through as an IPv4-compatible, 6to4 or NAT64 one. -/
theorem metadata_disguised :
    ¬ ∀ (a : Ipv4Addr) (e : Embedding), isBlockedIpv4 a = true →
      isBlockedIp (.v6 (e.embed a)) = true := by
  intro h
  have hnat := h ⟨169, 254, 169, 254⟩ .nat64 (by decide)
  exact absurd hnat (by decide)

end Embedding
end StellarGate
