import StellarGate.Money
import StellarGate.Net.IpText

/-! The identity a request is rate limited under: `client_ip_key` of `src/api/mod.rs`, over the
headers of a request and the trusted CIDRs. -/
namespace StellarGate

inductive Method where
  | get
  | post
  | delete
  | other (name : String)
  deriving DecidableEq, Repr

/-- What the middleware reads of a request: its header field lines in order, under lower-case names,
and the address of the socket peer. -/
structure HttpRequest where
  method : Method
  path : String
  headers : List (String × List UInt8)
  peer : Option IpAddr
  deriving DecidableEq, Repr

namespace HttpRequest

/-- The field lines of a name. -/
def lines (req : HttpRequest) (name : String) : List (List UInt8) :=
  (req.headers.filter fun h => h.1 = name).map (·.2)

/-- `HeaderMap::get`. -/
def header (req : HttpRequest) (name : String) : Option (List UInt8) := (req.lines name).head?

end HttpRequest

/-- A byte that `HeaderValue::to_str` takes: visible ASCII, a blank or a tab. -/
def isVisibleAscii (b : UInt8) : Bool := (32 ≤ b && b < 127) || b = 9

/-- The bytes of a header value as characters. -/
def headerText (value : List UInt8) : List Char := value.map fun b => Char.ofNat b.toNat

/-- `HeaderValue::to_str`. -/
def headerToStr (value : List UInt8) : Option (List Char) :=
  if value.all isVisibleAscii then some (headerText value) else none

namespace ClientIp

def clientIpUnknown : String := "unknown"

section
variable {IpNet : Type} (contains : IpNet → IpAddr → Bool) (trustedProxies : List IpNet)

/-- The address is in a trusted CIDR; `contains` is `IpNet::contains`. -/
def isTrusted (ip : IpAddr) : Bool := trustedProxies.any fun net => contains net ip

/-- The hops of `X-Forwarded-For`, the last one first. -/
def walk : List (List Char) → Option (List Char)
  | [] => none
  | hop :: hops =>
    if hop = [] then walk hops
    else
      match IpAddr.parse hop with
      | some ip => if isTrusted contains trustedProxies ip then walk hops else some ip.display
      | none => some hop

def forwardedFor (req : HttpRequest) : Option (List Char) :=
  ((req.header "x-forwarded-for").bind headerToStr).bind fun value =>
    walk contains trustedProxies ((value.splitOn ',').map trim).reverse

def realIp (req : HttpRequest) : Option (List Char) :=
  ((req.header "x-real-ip").bind headerToStr).bind fun value =>
    ((IpAddr.parse (trim value)).filter fun ip => !isTrusted contains trustedProxies ip).map
      IpAddr.display

def clientIpKey (req : HttpRequest) : String :=
  match req.peer with
  | none => clientIpUnknown
  | some peer =>
    if !isTrusted contains trustedProxies peer then String.ofList peer.display
    else
      String.ofList ((forwardedFor contains trustedProxies req).getD
        ((realIp contains trustedProxies req).getD peer.display))

end

/-! The list a field stands for, by RFC 9110. -/

def isOws (c : Char) : Bool := c = ' ' || c = '\t'

def stripBy (p : Char → Bool) (cs : List Char) : List Char :=
  ((cs.dropWhile p).reverse.dropWhile p).reverse

def elements (value : List Char) : List (List Char) :=
  ((value.splitOn ',').map (stripBy isOws)).filter (· ≠ [])

/-- Several field lines are one, joined in order with commas. -/
def combined (lines : List (List UInt8)) : List Char := [','].intercalate (lines.map headerText)

/-- The field ends with a hop that is the address. -/
def EndsWith (lines : List (List UInt8)) (ip : IpAddr) : Prop :=
  ∃ hop, (elements (combined lines)).getLast? = some hop ∧ IpAddr.parse hop = some ip

section
variable {value : List UInt8} {lines : List (List UInt8)} {cs : List Char} {p q : Char → Bool}

theorem stripBy_congr (h : ∀ c ∈ cs, p c = q c) : stripBy p cs = stripBy q cs := by
  have hdrop : ∀ ds : List Char, (∀ c ∈ ds, p c = q c) → ds.dropWhile p = ds.dropWhile q := by
    intro ds hds
    induction ds with
    | nil => rfl
    | cons d ds ih =>
      have hrest := ih (fun c hc => hds c (List.mem_cons_of_mem d hc))
      rw [List.dropWhile_cons, List.dropWhile_cons, hds d List.mem_cons_self, hrest]
  have hrev : ∀ c ∈ (cs.dropWhile q).reverse, p c = q c := by
    intro c hc
    exact h c ((List.dropWhile_sublist q).subset (List.mem_reverse.mp hc))
  unfold stripBy
  rw [hdrop cs h, hdrop _ hrev]

theorem isWhitespace_of_visible {b : UInt8} (h : isVisibleAscii b) :
    isWhitespace (Char.ofNat b.toNat) = isOws (Char.ofNat b.toNat) := by
  have hlt : b.toNat < 256 := b.toNat_lt
  have hval : (Char.ofNat b.toNat).toNat = b.toNat := by
    have hvalid : b.toNat.isValidChar := .inl (by omega)
    unfold Char.ofNat
    rw [dif_pos hvalid]
    rfl
  have hb : (32 ≤ b.toNat ∧ b.toNat < 127) ∨ b.toNat = 9 := by
    unfold isVisibleAscii at h
    simpa [UInt8.le_iff_toNat_le, UInt8.lt_iff_toNat_lt, ← UInt8.toNat_inj] using h
  rw [Bool.eq_iff_iff]
  unfold isWhitespace isOws
  simp [← Char.toNat_inj, hval]
  omega

theorem mem_of_mem_splitOn {sep c : Char} {piece : List Char} (h : piece ∈ cs.splitOn sep)
    (hc : c ∈ piece) :
    c ∈ cs := by
  induction cs generalizing piece with
  | nil =>
    rw [List.splitOn_nil, List.mem_singleton] at h
    exact h ▸ hc
  | cons d ds ih =>
    rw [List.splitOn_cons_eq_if_modifyHead] at h
    split_ifs at h with hd
    · cases List.mem_cons.mp h with
      | inl h => rw [h] at hc; cases hc
      | inr h => exact List.mem_cons_of_mem d (ih h hc)
    · cases hs : ds.splitOn sep with
      | nil => exact absurd hs (List.splitOn_ne_nil sep ds)
      | cons first rest =>
        rw [hs, List.modifyHead_cons, List.mem_cons] at h
        obtain rfl | h := h
        · cases List.mem_cons.mp hc with
          | inl hc => exact hc ▸ List.mem_cons_self
          | inr hc => exact List.mem_cons_of_mem d (ih (hs ▸ List.mem_cons_self) hc)
        · exact List.mem_cons_of_mem d (ih (hs ▸ List.mem_cons_of_mem first h) hc)

theorem elements_append (ds : List Char) :
    elements (cs ++ ',' :: ds) = elements cs ++ elements ds := by
  unfold elements
  rw [List.splitOn_append_cons_self, List.map_append, List.filter_append]

theorem elements_combined (lines : List (List UInt8)) :
    elements (combined lines) = lines.flatMap fun line => elements (headerText line) := by
  unfold combined
  induction lines with
  | nil => rfl
  | cons line lines ih =>
    cases lines with
    | nil => simp
    | cons next rest =>
      rw [List.map_cons, List.intercalate_cons_of_ne_nil (by simp), List.append_assoc,
        List.singleton_append, elements_append, ih]
      rfl

/-- The line that carries the last hop: after it no line carries any. -/
theorem EndsWith.split {ip : IpAddr} (h : EndsWith lines ip) :
    ∃ earlier line blanks, lines = earlier ++ line :: blanks ∧ EndsWith [line] ip ∧
      elements (combined blanks) = [] := by
  obtain ⟨hop, hlast, hip⟩ := h
  rw [elements_combined] at hlast
  induction lines with
  | nil => cases hlast
  | cons line lines ih =>
    rw [List.flatMap_cons, List.getLast?_append] at hlast
    cases hrest : (lines.flatMap fun line => elements (headerText line)).getLast? with
    | none =>
      rw [hrest, Option.none_or] at hlast
      refine ⟨[], line, lines, rfl, ⟨hop, ?_, hip⟩, ?_⟩
      · rwa [elements_combined, List.flatMap_singleton]
      · rw [elements_combined]
        exact List.getLast?_eq_none_iff.mp hrest
    | some hop' =>
      rw [hrest, Option.some_or] at hlast
      cases hlast
      obtain ⟨earlier, line', blanks, rfl, hline, hblanks⟩ := ih hrest
      exact ⟨line :: earlier, line', blanks, rfl, hline, hblanks⟩

variable {IpNet : Type} {contains : IpNet → IpAddr → Bool} {trustedProxies : List IpNet}
  {req : HttpRequest} {peer ip : IpAddr}

theorem walk_filter (hops : List (List Char)) :
    walk contains trustedProxies hops = walk contains trustedProxies (hops.filter (· ≠ [])) := by
  induction hops with
  | nil => rfl
  | cons hop hops ih =>
    by_cases hh : hop = []
    · rw [List.filter_cons_of_neg (by simpa using hh), walk, if_pos hh, ih]
    · rw [List.filter_cons_of_pos (by simpa using hh), walk, walk, if_neg hh, if_neg hh, ih]

theorem elements_eq (hv : value.all isVisibleAscii) :
    ((((headerText value).splitOn ',').map trim).filter (· ≠ [])) = elements
    (headerText value) := by
  unfold elements
  congr 1
  apply List.map_congr_left
  intro piece hpiece
  apply stripBy_congr
  intro c hc
  obtain ⟨b, hb, rfl⟩ := List.mem_map.mp (mem_of_mem_splitOn hpiece hc)
  exact isWhitespace_of_visible (List.all_eq_true.mp hv b hb)

theorem walk_of_endsWith (hv : value.all isVisibleAscii) (h : EndsWith [value] ip)
    (hip : isTrusted contains trustedProxies ip = false) :
    walk contains trustedProxies (((headerText value).splitOn ',').map trim).reverse =
      some ip.display := by
  obtain ⟨hop, hlast, hparse⟩ := h
  rw [elements_combined, List.flatMap_singleton] at hlast
  have hmem : hop ∈ elements (headerText value) := List.mem_of_getLast? hlast
  have hne : hop ≠ [] := by simpa using (List.mem_filter.mp hmem).2
  obtain ⟨front, hfront⟩ := List.getLast?_eq_some_iff.mp hlast
  rw [walk_filter, List.filter_reverse, elements_eq hv, hfront, List.reverse_append]
  simp only [List.reverse_singleton, List.singleton_append, walk, if_neg hne, hparse, hip,
    Bool.false_eq_true, if_false]

theorem clientIpKey_of_untrusted (hp : req.peer = some peer)
    (ht : isTrusted contains trustedProxies peer = false) :
    clientIpKey contains trustedProxies req = String.ofList peer.display := by
  unfold clientIpKey
  rw [hp]
  simp only [ht, Bool.not_false, if_true]

theorem clientIpKey_of_trusted (hp : req.peer = some peer)
    (ht : isTrusted contains trustedProxies peer = true) :
    clientIpKey contains trustedProxies req =
      String.ofList ((forwardedFor contains trustedProxies req).getD
        ((realIp contains trustedProxies req).getD peer.display)) := by
  unfold clientIpKey
  rw [hp]
  simp only [ht, Bool.not_true, Bool.false_eq_true, if_false]

/-- A request with nothing but field lines of `X-Forwarded-For`. -/
def forwarding (peer : IpAddr) (lines : List (List UInt8)) : HttpRequest :=
  ⟨.get, "/", lines.map fun line => ("x-forwarded-for", line), some peer⟩

theorem lines_forwarding (peer : IpAddr) (lines : List (List UInt8)) :
    (forwarding peer lines).lines "x-forwarded-for" = lines := by
  unfold forwarding HttpRequest.lines
  rw [List.filter_map, List.filter_eq_self.mpr (by simp), List.map_map]
  exact List.map_id lines

theorem realIp_forwarding (peer : IpAddr) (lines : List (List UInt8)) :
    realIp contains trustedProxies (forwarding peer lines) = none := by
  have hnone : (forwarding peer lines).header "x-real-ip" = none := by
    unfold forwarding HttpRequest.header HttpRequest.lines
    rw [List.filter_map, List.filter_eq_nil_iff.mpr (by simp)]
    rfl
  unfold realIp
  rw [hnone]
  rfl

/-- A first line that is no address becomes the key. -/
theorem forwardedFor_forwarding_x (peer : IpAddr) (lines : List (List UInt8)) :
    forwardedFor contains trustedProxies (forwarding peer ([120] :: lines)) = some ['x'] := by
  unfold forwardedFor HttpRequest.header
  rw [lines_forwarding]
  rfl

/-- A line put before the others gives a key that is no address. -/
theorem clientIpKey_forwarding_x (ip : IpAddr) (rest : List (List UInt8))
    (ht : isTrusted contains trustedProxies peer = true) :
    clientIpKey contains trustedProxies (forwarding peer ([120] :: rest)) ≠
      String.ofList ip.display := by
  intro hkey
  rw [clientIpKey_of_trusted rfl ht, forwardedFor_forwarding_x] at hkey
  have hx : ['x'] = ip.display := String.ofList_injective hkey
  have hparse := IpAddr.parse_display ip
  rw [← hx] at hparse
  cases hparse

/-- A first line that is not visible ASCII leaves the key to the peer. -/
theorem clientIpKey_of_not_visible {line : List UInt8} (blanks : List (List UInt8))
    (ht : isTrusted contains trustedProxies peer = true) (hv : ¬ line.all isVisibleAscii) :
    clientIpKey contains trustedProxies (forwarding peer (line :: blanks)) =
      String.ofList peer.display := by
  have hnone : forwardedFor contains trustedProxies (forwarding peer (line :: blanks)) = none := by
    unfold forwardedFor HttpRequest.header headerToStr
    rw [lines_forwarding, List.head?_cons, Option.bind_some, if_neg hv]
    rfl
  rw [clientIpKey_of_trusted rfl ht, hnone, realIp_forwarding]
  rfl

theorem clientIpKey_of_endsWith {line : List UInt8} {blanks : List (List UInt8)}
    (hp : req.peer = some peer) (ht : isTrusted contains trustedProxies peer = true)
    (hlines : req.lines "x-forwarded-for" = line :: blanks) (hv : line.all isVisibleAscii)
    (hline : EndsWith [line] ip) (hip : isTrusted contains trustedProxies ip = false) :
    clientIpKey contains trustedProxies req = String.ofList ip.display := by
  have hhead : req.header "x-forwarded-for" = some line := by
    unfold HttpRequest.header
    rw [hlines]
    rfl
  rw [clientIpKey_of_trusted hp ht]
  unfold forwardedFor headerToStr
  rw [hhead, Option.bind_some, if_pos hv, Option.bind_some, walk_of_endsWith hv hline hip]
  rfl

/-- Without a trusted peer no header matters. With one, for every request whose combined
`X-Forwarded-For` ends with an address outside the trusted CIDRs: that address is the key, whatever
the lines before the one that carries it and the other headers contain, exactly when there are no
such lines and this one is visible ASCII. -/
theorem clientIpKey_unforgeable_iff {IpNet : Type} (contains : IpNet → IpAddr → Bool)
    (trustedProxies : List IpNet) :
    (∀ req req' : HttpRequest, req.peer = req'.peer →
      (∀ peer ∈ req.peer, isTrusted contains trustedProxies peer = false) →
      clientIpKey contains trustedProxies req = clientIpKey contains trustedProxies req') ∧
    ∀ (req : HttpRequest) (peer ip : IpAddr), req.peer = some peer →
      isTrusted contains trustedProxies peer = true →
      EndsWith (req.lines "x-forwarded-for") ip → isTrusted contains trustedProxies ip = false →
      ∃ earlier line blanks, req.lines "x-forwarded-for" = earlier ++ line :: blanks ∧
        EndsWith [line] ip ∧ elements (combined blanks) = [] ∧
        ((∀ req' : HttpRequest, req'.peer = some peer →
          ∀ earlier', earlier'.length = earlier.length →
            req'.lines "x-forwarded-for" = earlier' ++ line :: blanks →
            clientIpKey contains trustedProxies req' = String.ofList ip.display) ↔
          earlier = [] ∧ line.all isVisibleAscii) := by
  refine ⟨?_, ?_⟩
  · intro req req' hpeer hno
    cases hp : req.peer with
    | none =>
      unfold clientIpKey
      rw [← hpeer, hp]
    | some peer =>
      have ht := hno peer hp
      rw [clientIpKey_of_untrusted hp ht, clientIpKey_of_untrusted (hpeer ▸ hp) ht]
  · intro req peer ip _ ht hends hip
    obtain ⟨earlier, line, blanks, hlines, hline, hblanks⟩ := hends.split
    refine ⟨earlier, line, blanks, hlines, hline, hblanks, ?_, ?_⟩
    · intro h
      have hnil : earlier = [] := by
        cases earlier with
        | nil => rfl
        | cons first more =>
          let rest := List.replicate more.length [120] ++ line :: blanks
          have hkey := h (forwarding peer ([120] :: rest)) rfl
            ([120] :: List.replicate more.length [120]) (by simp)
            (lines_forwarding peer ([120] :: rest))
          exact absurd hkey (clientIpKey_forwarding_x ip rest ht)
      subst hnil
      refine ⟨rfl, ?_⟩
      by_contra hv
      have hkey := h (forwarding peer (line :: blanks)) rfl [] rfl
        (lines_forwarding peer (line :: blanks))
      rw [clientIpKey_of_not_visible blanks ht hv] at hkey
      have hdisplay : peer.display = ip.display := String.ofList_injective hkey
      have heq : peer = ip := IpAddr.display_injective hdisplay
      rw [heq, hip] at ht
      cases ht
    · rintro ⟨rfl, hv⟩ req' hp' earlier' hlen hlines'
      have hnil : earlier' = [] := List.length_eq_zero_iff.mp hlen
      subst hnil
      exact clientIpKey_of_endsWith hp' ht hlines' hv hline hip

end

namespace Sample

/-- `IpNet::contains` for an IPv4 network. -/
def contains (net : Ipv4Addr × ℕ) : IpAddr → Bool
  | .v4 ip =>
    let bits (ip : Ipv4Addr) := ((ip.a.toNat * 256 + ip.b.toNat) * 256 + ip.c.toNat) *
      256 + ip.d.toNat
    bits ip / 2 ^ (32 - net.2) = bits net.1 / 2 ^ (32 - net.2)
  | .v6 _ => false

/-- `10.0.0.0/8`. -/
def proxies : List (Ipv4Addr × ℕ) := [(⟨10, 0, 0, 0⟩, 8)]

def proxy : IpAddr := .v4 ⟨10, 0, 0, 1⟩

def client : IpAddr := .v4 ⟨198, 51, 100, 7⟩

def bytes (s : String) : List UInt8 := s.toList.map fun c => UInt8.ofNat c.toNat

end Sample

open ClientIp.Sample in
/-- A caller's own hops in the one line do not matter, and without a trusted peer no hop does. -/
theorem clientIpKey_unforgeable_iff_sample :
    clientIpKey contains proxies (forwarding proxy [bytes "6.6.6.6, 198.51.100.7"]) =
      "198.51.100.7" ∧
    clientIpKey contains proxies (forwarding client [bytes "6.6.6.6"]) =
      clientIpKey contains proxies (forwarding client []) := by
  refine ⟨?_, (clientIpKey_unforgeable_iff contains proxies).1 _ _ rfl (by decide)⟩
  obtain ⟨earlier, line, blanks, hlines, -, -, hiff⟩ :=
    (clientIpKey_unforgeable_iff contains proxies).2
    (forwarding proxy [bytes "6.6.6.6, 198.51.100.7"]) proxy client rfl
    (by decide) ⟨"198.51.100.7".toList, by decide, by decide⟩ (by decide)
  have hsplit : earlier = [] ∧ line = bytes "6.6.6.6, 198.51.100.7" := by
    cases earlier with
    | nil =>
      cases hlines
      exact ⟨rfl, rfl⟩
    | cons first more =>
      have hlen := congrArg List.length hlines
      rw [lines_forwarding] at hlen
      simp at hlen
  obtain ⟨rfl, rfl⟩ := hsplit
  exact hiff.mpr ⟨rfl, by decide⟩ _ rfl [] rfl hlines

open ClientIp.Sample in
/-- A caller behind a trusted proxy sends a line of its own before the proxy's. -/
theorem clientIpKey_forged :
    let req := forwarding proxy [bytes "6.6.6.6", bytes "198.51.100.7"]
    isTrusted contains proxies proxy = true ∧ isTrusted contains proxies client = false ∧
      EndsWith (req.lines "x-forwarded-for") client ∧
      clientIpKey contains proxies req = "6.6.6.6" ∧
      clientIpKey contains proxies req ≠ String.ofList client.display := by
  refine ⟨by decide, by decide, ⟨"198.51.100.7".toList, by decide, by decide⟩, by decide, by decide⟩

end ClientIp
end StellarGate
