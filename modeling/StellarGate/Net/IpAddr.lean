import Mathlib.Tactic.Common

/-! Internet addresses: `Ipv4Addr`, `Ipv6Addr` and `IpAddr` of the standard library. -/
namespace StellarGate

/-- `Ipv4Addr`, by its octets. -/
structure Ipv4Addr where
  a : UInt8
  b : UInt8
  c : UInt8
  d : UInt8
  deriving DecidableEq, Repr

/-- `Ipv6Addr`, by its segments. -/
structure Ipv6Addr where
  s₀ : UInt16
  s₁ : UInt16
  s₂ : UInt16
  s₃ : UInt16
  s₄ : UInt16
  s₅ : UInt16
  s₆ : UInt16
  s₇ : UInt16
  deriving DecidableEq, Repr

inductive IpAddr where
  | v4 (ip : Ipv4Addr)
  | v6 (ip : Ipv6Addr)
  deriving DecidableEq, Repr

namespace Ipv6Addr

/-- `::ffff:a.b.c.d` as `a.b.c.d`. -/
def toIpv4Mapped (ip : Ipv6Addr) : Option Ipv4Addr :=
  if ip.s₀ = 0 && ip.s₁ = 0 && ip.s₂ = 0 && ip.s₃ = 0 && ip.s₄ = 0 && ip.s₅ = 0xffff then
    some ⟨(ip.s₆ >>> 8).toUInt8, ip.s₆.toUInt8, (ip.s₇ >>> 8).toUInt8, ip.s₇.toUInt8⟩
  else none

end Ipv6Addr
end StellarGate
