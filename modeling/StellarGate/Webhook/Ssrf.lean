import StellarGate.Net.IpAddr
import StellarGate.Webhook.Dispatch
import StellarGate.Webhook.Resend

/-! The guard of `src/ssrf.rs` and the connections a webhook is sent over: `validate`,
`pinned_client`, and a client that follows redirects. -/
namespace StellarGate

namespace Ipv4Addr

def isLoopback (ip : Ipv4Addr) : Bool := ip.a = 127
def isLinkLocal (ip : Ipv4Addr) : Bool := ip.a = 169 && ip.b = 254
def isUnspecified (ip : Ipv4Addr) : Bool := ip = ⟨0, 0, 0, 0⟩
def isBroadcast (ip : Ipv4Addr) : Bool := ip = ⟨255, 255, 255, 255⟩
def isMulticast (ip : Ipv4Addr) : Bool := 224 ≤ ip.a && ip.a ≤ 239

def isPrivate (ip : Ipv4Addr) : Bool :=
  ip.a = 10 || (ip.a = 172 && 16 ≤ ip.b && ip.b ≤ 31) || (ip.a = 192 && ip.b = 168)

def isDocumentation (ip : Ipv4Addr) : Bool :=
  (ip.a = 192 && ip.b = 0 && ip.c = 2) || (ip.a = 198 && ip.b = 51 && ip.c = 100) ||
    (ip.a = 203 && ip.b = 0 && ip.c = 113)

end Ipv4Addr

namespace Ipv6Addr

def isLoopback (ip : Ipv6Addr) : Bool := ip = ⟨0, 0, 0, 0, 0, 0, 0, 1⟩
def isUnspecified (ip : Ipv6Addr) : Bool := ip = ⟨0, 0, 0, 0, 0, 0, 0, 0⟩
def isMulticast (ip : Ipv6Addr) : Bool := ip.s₀ &&& 0xff00 = 0xff00

end Ipv6Addr

def isBlockedIpv4 (ip : Ipv4Addr) : Bool :=
  ip.isLoopback || ip.isLinkLocal || ip.isPrivate || ip.isUnspecified || ip.isBroadcast ||
    ip.isDocumentation || ip.isMulticast || ip.a = 0 || (ip.a = 100 && 64 ≤ ip.b && ip.b ≤ 127) ||
    (ip.a = 192 && ip.b = 0 && ip.c = 0) || (ip.a = 198 && 18 ≤ ip.b && ip.b ≤ 19) || 240 ≤ ip.a

def isBlockedIpv6 (ip : Ipv6Addr) : Bool :=
  ip.isLoopback || ip.isUnspecified || ip.isMulticast || ip.s₀ &&& 0xfe00 = 0xfc00 ||
    ip.s₀ &&& 0xffc0 = 0xfe80 || ip.toIpv4Mapped.any isBlockedIpv4

def isBlockedIp : IpAddr → Bool
  | .v4 ip => isBlockedIpv4 ip
  | .v6 ip => isBlockedIpv6 ip

example : isBlockedIp (.v4 ⟨169, 254, 169, 254⟩) = true := by decide
example : isBlockedIp (.v6 ⟨0, 0, 0, 0, 0, 0xffff, 0x0a00, 0x0001⟩) = true := by decide
example : isBlockedIp (.v4 ⟨93, 184, 216, 34⟩) = false := by decide

structure Url where
  scheme : String
  host : Option String
  port : Option ℕ
  deriving DecidableEq, Repr

/-- The URL library: `Url::parse`, and `Url::join` for a `Location`. -/
structure UrlParser where
  parse : String → Option Url
  join : Url → String → Option Url

/-- A webhook target resolved to one address. -/
structure SafeTarget where
  host : String
  addr : IpAddr
  port : ℕ
  deriving DecidableEq, Repr

inductive SsrfError where
  | invalidUrl
  | scheme (other : String)
  | noHost
  | noPort
  | unresolved (host : String)
  | disallowed (host : String) (addr : IpAddr)
  deriving DecidableEq, Repr

namespace Ssrf
section
variable (urls : UrlParser)

def isHttp (u : Url) : Bool := u.scheme = "http" || u.scheme = "https"

/-- `validate`. `lookup` is the answer of `lookup_host`, `none` when it fails or times out. -/
def validate (url : String) (allowPrivate : Bool) (lookup : Option (List IpAddr)) :
    Except SsrfError SafeTarget :=
  match urls.parse url with
  | none => .error .invalidUrl
  | some parsed =>
    if !isHttp parsed then .error (.scheme parsed.scheme)
    else
      match parsed.host with
      | none => .error .noHost
      | some host =>
        match parsed.port with
        | none => .error .noPort
        | some port =>
          match lookup.bind List.head? with
          | none => .error (.unresolved host)
          | some addr =>
            if !allowPrivate && isBlockedIp addr then .error (.disallowed host addr)
            else .ok ⟨host, addr, port⟩

/-! A request of the pinned client, with the default redirect policy. -/

structure HttpResponse where
  status : ℕ
  location : Option String
  deriving DecidableEq, Repr

structure Hop where
  resolved : Option IpAddr
  response : Option HttpResponse
  deriving DecidableEq, Repr

/-- `Policy::limited(10)`. -/
def maxRedirects : ℕ := 10

def isRedirect (status : ℕ) : Bool := [301, 302, 303, 307, 308].contains status

def address (target : SafeTarget) (u : Url) (hop : Hop) : Option IpAddr :=
  u.host.bind fun host => if host = target.host then some target.addr else hop.resolved

def redirect (u : Url) (hop : Hop) : Option Url :=
  match hop.response with
  | none => none
  | some r => if isRedirect r.status then (r.location.bind (urls.join u)).filter isHttp else none

/-- Send to `u` with so many redirects left; the `i`-th request of the chain comes first. The
result is the addresses connected to and the status of the last response. -/
def sendFrom (target : SafeTarget) (hops : ℕ → Hop) (left i : ℕ) (u : Url) :
    List IpAddr × Option ℕ :=
  match address target u (hops i) with
  | none => ([], none)
  | some ip =>
    match redirect urls u (hops i) with
    | none => ([ip], (hops i).response.map (·.status))
    | some next =>
      match left with
      | 0 => ([ip], none)
      | left + 1 =>
        let r := sendFrom target hops left (i + 1) next
        (ip :: r.1, r.2)

def send (target : SafeTarget) (u : Url) (hops : ℕ → Hop) : List IpAddr × Option ℕ :=
  sendFrom urls target hops maxRedirects 0 u

def made (target : SafeTarget) (u : Url) : List (ℕ → Hop) → List (ℕ → Hop)
  | [] => []
  | hops :: rest =>
    hops :: if (send urls target u hops).2.any isSuccess then [] else made target u rest

/-- The functions that send a webhook. -/
inductive Sender where
  | dispatch
  | redriveOne
  | redeliverWebhook
  deriving DecidableEq, Repr

/-- How often a sender posts over the client it has made. -/
def Sender.attempts (env : Env) : Sender → ℕ
  | .dispatch => Dispatch.attempts env
  | .redriveOne => 1
  | .redeliverWebhook => 1

def opened (env : Env) (allowPrivate : Bool) (sender : Sender) (url : String)
    (lookup : Option (List IpAddr)) (attempts : List (ℕ → Hop)) : List IpAddr :=
  match validate urls url allowPrivate lookup with
  | .error _ => []
  | .ok target =>
    match urls.parse url with
    | none => []
    | some u =>
      (made urls target u (attempts.take (sender.attempts env))).flatMap fun hops =>
        (send urls target u hops).1

/-- Redirects lead from the `i`-th request, for `u`, to the `j`-th, for `v`. -/
inductive Leads (target : SafeTarget) (hops : ℕ → Hop) : ℕ → ℕ → Url → ℕ → Url → Prop
  | here (left i : ℕ) (u : Url) : Leads target hops left i u i u
  | next {left i j : ℕ} {u next v : Url} (ha : (address target u (hops i)).isSome)
      (hr : redirect urls u (hops i) = some next) (h : Leads target hops left (i + 1) next j v) :
      Leads target hops (left + 1) i u j v

section
variable {urls} {target : SafeTarget} {hops : ℕ → Hop} {left i j : ℕ} {u v : Url} {ip : IpAddr}

theorem leads_zero : Leads urls target hops 0 i u j v ↔ j = i ∧ v = u := by
  constructor
  · intro h
    cases h
    exact ⟨rfl, rfl⟩
  · rintro ⟨rfl, rfl⟩
    exact .here ..

theorem leads_succ : Leads urls target hops (left + 1) i u j v ↔
    (j = i ∧ v = u) ∨ ((address target u (hops i)).isSome ∧
      ∃ next, redirect urls u (hops i) = some next ∧
      Leads urls target hops left (i + 1) next j v) := by
  constructor
  · intro h
    cases h with
    | here => exact .inl ⟨rfl, rfl⟩
    | next ha hr h => exact .inr ⟨ha, _, hr, h⟩
  · rintro (⟨rfl, rfl⟩ | ⟨ha, next, hr, h⟩)
    · exact .here ..
    · exact .next ha hr h

/-- A send connects to the addresses of the URLs that redirects lead to. -/
theorem mem_sendFrom :
    ip ∈ (sendFrom urls target hops left i u).1 ↔
      ∃ j v, Leads urls target hops left i u j v ∧ address target v (hops j) = some ip := by
  induction left generalizing i u with
  | zero =>
    have hmem : ip ∈ (sendFrom urls target hops 0 i u).1 ↔ address target u (hops i) = some ip := by
      unfold sendFrom
      cases address target u (hops i) with
      | none => simp
      | some a => cases redirect urls u (hops i) <;> simp [eq_comm]
    rw [hmem]
    constructor
    · exact fun h => ⟨i, u, .here .., h⟩
    · rintro ⟨j, v, hl, hv⟩
      obtain ⟨rfl, rfl⟩ := leads_zero.mp hl
      exact hv
  | succ left ih =>
    have hmem : ip ∈ (sendFrom urls target hops (left + 1) i u).1 ↔
        address target u (hops i) = some ip ∨
        ((address target u (hops i)).isSome ∧ ∃ next, redirect urls u (hops i) = some next ∧
          ip ∈ (sendFrom urls target hops left (i + 1) next).1) := by
      conv_lhs => unfold sendFrom
      cases address target u (hops i) with
      | none => simp
      | some a => cases redirect urls u (hops i) <;> simp [eq_comm]
    rw [hmem]
    simp only [leads_succ, ih]
    constructor
    · rintro (h | ⟨ha, next, hr, j, v, hl, hv⟩)
      · exact ⟨i, u, .inl ⟨rfl, rfl⟩, h⟩
      · exact ⟨j, v, .inr ⟨ha, next, hr, hl⟩, hv⟩
    · rintro ⟨j, v, ⟨rfl, rfl⟩ | ⟨ha, next, hr, hl⟩, hv⟩
      · exact .inl hv
      · exact .inr ⟨ha, next, hr, j, v, hl, hv⟩

/-- No redirect leads to a host other than the pinned one that resolves to a blocked address. -/
def StaysPublic (urls : UrlParser) (env : Env) (sender : Sender) (url : String)
    (lookup : Option (List IpAddr)) (attempts : List (ℕ → Hop)) : Prop :=
  ∀ target, validate urls url false lookup = .ok target → ∀ u, urls.parse url = some u →
    ∀ hops ∈ made urls target u (attempts.take (sender.attempts env)),
      ∀ j v, Leads urls target hops maxRedirects 0 u j v → ∀ host ∈ v.host, host ≠ target.host →
        ∀ ip ∈ (hops j).resolved, isBlockedIp ip = false

/-- A target that passes the guard has a public address. -/
theorem isBlockedIp_of_validate {url : String} {lookup : Option (List IpAddr)}
    (h : validate urls url false lookup = .ok target) : isBlockedIp target.addr = false := by
  unfold validate at h
  repeat' split at h
  all_goals cases h
  next hb => simpa using hb

theorem public_of_address (ht : isBlockedIp target.addr = false) (hop : Hop) :
    (∀ ip, address target v hop = some ip → isBlockedIp ip = false) ↔
      ∀ host ∈ v.host, host ≠ target.host → ∀ ip ∈ hop.resolved, isBlockedIp ip = false := by
  unfold address
  cases v.host with
  | none => simp
  | some host =>
    by_cases hh : host = target.host
    · simp [hh, ht]
    · simp [hh]

end
end

/-- A webhook reaches a blocked address exactly when a redirect leads there. -/
theorem opens_public_iff (urls : UrlParser) (env : Env) (sender : Sender) (url : String)
    (lookup : Option (List IpAddr)) (attempts : List (ℕ → Hop)) :
    (∀ ip ∈ opened urls env false sender url lookup attempts, isBlockedIp ip = false) ↔
      StaysPublic urls env sender url lookup attempts := by
  unfold opened StaysPublic
  cases hv : validate urls url false lookup with
  | error e => simp
  | ok target =>
    have ht := isBlockedIp_of_validate hv
    cases hp : urls.parse url with
    | none => simp
    | some u =>
      simp only [List.mem_flatMap, send, mem_sendFrom]
      constructor
      · rintro h t ⟨⟩ w ⟨⟩ hops hh j v hl
        refine (public_of_address ht _).mp fun ip hip => ?_
        exact h ip ⟨hops, hh, j, v, hl, hip⟩
      · rintro h ip ⟨hops, hh, j, v, hl, hip⟩
        exact (public_of_address ht _).mpr (h target rfl u rfl hops hh j v hl) ip hip

/-! Where the body of a request goes: a 307 or a 308 has the POST repeated at its location, after
another redirect the client goes on with a GET. -/
section Posted
variable (urls : UrlParser)

/-- The URL at which a response has the POST repeated. -/
def again (u : Url) (hop : Hop) : Option Url :=
  if hop.response.any fun r => r.status = 307 || r.status = 308 then redirect urls u hop else none

/-- The URLs that a send POSTs its body to, or tries to. -/
def posted (target : SafeTarget) (hops : ℕ → Hop) : ℕ → ℕ → Url → List Url
  | 0, _, u => [u]
  | left + 1, i, u =>
    u :: match (address target u (hops i)).bind fun _ => again urls u (hops i) with
      | none => []
      | some next => posted target hops left (i + 1) next

/-- No answer to a POST at `u` has it repeated elsewhere. -/
def Unrepeated (hops : ℕ → Hop) (left i : ℕ) (u : Url) : Prop :=
  ∀ k < left, (∀ m < k, again urls u (hops (i + m)) = some u) →
    ∀ v ∈ again urls u (hops (i + k)), v = u

variable {urls} {target : SafeTarget} {hops : ℕ → Hop} {left i : ℕ} {u : Url}

theorem mem_posted (target : SafeTarget) (hops : ℕ → Hop) (left i : ℕ) (u : Url) :
    u ∈ posted urls target hops left i u := by
  cases left with
  | zero => exact List.mem_singleton_self u
  | succ left => exact List.mem_cons_self

theorem unrepeated_succ : Unrepeated urls hops (left + 1) i u ↔
    (∀ v ∈ again urls u (hops i), v = u) ∧
      (again urls u (hops i) = some u → Unrepeated urls hops left (i + 1) u) := by
  unfold Unrepeated
  constructor
  · intro h
    constructor
    · exact h 0 (Nat.zero_lt_succ left) fun m hm => absurd hm (Nat.not_lt_zero m)
    · intro hfirst k hk hbefore v hv
      have hshift : i + (k + 1) = i + 1 + k := by omega
      refine h (k + 1) (Nat.succ_lt_succ hk) (fun m hm => ?_) v (hshift ▸ hv)
      cases m with
      | zero => exact hfirst
      | succ m =>
        have hnext := hbefore m (Nat.lt_of_succ_lt_succ hm)
        rwa [Nat.add_assoc, Nat.add_comm 1] at hnext
  · rintro ⟨hfirst, hrest⟩ k hk hbefore v hv
    cases k with
    | zero => exact hfirst v hv
    | succ k =>
      refine hrest (hbefore 0 (Nat.zero_lt_succ k)) k (Nat.lt_of_succ_lt_succ hk)
        (fun m hm => ?_) v ?_
      · have hnext := hbefore (m + 1) (Nat.succ_lt_succ hm)
        rwa [Nat.add_comm m, ← Nat.add_assoc] at hnext
      · rwa [Nat.add_comm k, ← Nat.add_assoc] at hv

/-- The POSTs of a send stay at its URL exactly as long as no answer has them repeated elsewhere. -/
theorem posted_eq_self_iff (hu : u.host = some target.host) :
    (∀ v ∈ posted urls target hops left i u, v = u) ↔ Unrepeated urls hops left i u := by
  induction left generalizing i with
  | zero =>
    refine iff_of_true (fun v hv => List.mem_singleton.mp hv) fun k hk => ?_
    exact absurd hk (Nat.not_lt_zero k)
  | succ left ih =>
    have haddress : address target u (hops i) = some target.addr := by
      unfold address
      rw [hu]
      exact if_pos rfl
    rw [unrepeated_succ, posted, haddress, Option.bind_some]
    cases hagain : again urls u (hops i) with
    | none =>
      refine iff_of_true (fun v hv => List.mem_singleton.mp hv) ⟨fun v hv => ?_, fun h => ?_⟩
      · exact absurd hv (Option.not_mem_none v)
      · cases h
    | some next =>
      simp only [List.forall_mem_cons, Option.mem_def, Option.some.injEq, true_and]
      constructor
      · intro h
        have hnext : next = u := h next (mem_posted target hops left (i + 1) next)
        subst hnext
        exact ⟨fun v hv => hv.symm, fun _ => ih.mp h⟩
      · rintro ⟨hsame, hrest⟩
        obtain rfl := hsame next rfl
        exact ih.mpr (hrest rfl)

/-- The host that is pinned is that of the URL. -/
theorem host_of_validate {url : String} {allowPrivate : Bool} {lookup : Option (List IpAddr)}
    (h : validate urls url allowPrivate lookup = .ok target) (hu : urls.parse url = some u) :
    u.host = some target.host := by
  unfold validate at h
  rw [hu] at h
  simp only at h
  split_ifs at h
  split at h
  · cases h
  · next host hhost =>
    repeat' split at h
    all_goals cases h
    exact hhost

end Posted

namespace Sample

def urls : UrlParser where
  parse s :=
    if s = "https://shop.example/hook" then some ⟨"https", some "shop.example", some 443⟩
    else if s = "http://169.254.169.254/latest" then some ⟨"http", some "169.254.169.254", some 80⟩
    else none
  join _ s :=
    if s = "http://169.254.169.254/latest" then some ⟨"http", some "169.254.169.254", some 80⟩
    else none

def env : Env :=
  ⟨⟨"testnet", "GATE", [], 1, ["https"], 3600, 500⟩, id, fun _ => some "https"⟩

/-- The receiver answers every request with a redirect to the metadata service. -/
def hops : ℕ → Hop
  | 0 => ⟨none, some ⟨307, some "http://169.254.169.254/latest"⟩⟩
  | _ + 1 => ⟨some (.v4 ⟨169, 254, 169, 254⟩), some ⟨200, none⟩⟩

end Sample

/-- A receiver at a public address sends the webhook on to a link-local one. -/
theorem redirect_to_metadata :
    opened Sample.urls Sample.env false .redriveOne "https://shop.example/hook"
        (some [.v4 ⟨93, 184, 216, 34⟩]) [Sample.hops] =
      [.v4 ⟨93, 184, 216, 34⟩, .v4 ⟨169, 254, 169, 254⟩] ∧
    ¬ ∀ ip ∈ opened Sample.urls Sample.env false .redriveOne "https://shop.example/hook"
        (some [.v4 ⟨93, 184, 216, 34⟩]) [Sample.hops], isBlockedIp ip = false := by
  decide

end Ssrf
end StellarGate
