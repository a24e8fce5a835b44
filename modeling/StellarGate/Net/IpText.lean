import Mathlib.Data.List.Induction
import Mathlib.Tactic.IntervalCases
import StellarGate.Net.IpAddr

/-! Internet addresses as text: the parser and the `Display` of `core::net`. What is
displayed is parsed back. -/
namespace StellarGate
namespace IpText

def toDigit (radix : ℕ) (c : Char) : Option ℕ :=
  let d :=
    if c.isDigit then c.toNat - 48
    else if c.isLower then c.toNat - 87
    else if c.isUpper then c.toNat - 55
    else radix
  if d < radix then some d else none

/-- The digits at the head of a text. -/
def spanDigits (radix : ℕ) : List Char → List ℕ × List Char
  | [] => ([], [])
  | c :: cs =>
    match toDigit radix c with
    | none => ([], c :: cs)
    | some d =>
      let r := spanDigits radix cs
      (d :: r.1, r.2)

def ofDigits (radix : ℕ) (ds : List ℕ) : ℕ := ds.foldl (fun n d => n * radix + d) 0

/-- `Parser::read_number`, for a number below `size`. -/
def readNumber (radix maxDigits size : ℕ) (allowZeroPrefix : Bool) (cs : List Char) :
    Option (ℕ × List Char) :=
  let r := spanDigits radix cs
  if r.1 = [] || maxDigits < r.1.length then none
  else if !allowZeroPrefix && cs.head? = some '0' && 1 < r.1.length then none
  else if ofDigits radix r.1 < size then some (ofDigits radix r.1, r.2)
  else none

def readGivenChar (c : Char) : List Char → Option (List Char)
  | [] => none
  | d :: cs => if d = c then some cs else none

/-- `Parser::read_separator`: no separator stands before the first piece. -/
def readSeparator {α : Type} (sep : Char) (index : ℕ) (inner : List Char → Option (α × List Char))
    (cs : List Char) : Option (α × List Char) :=
  if 0 < index then (readGivenChar sep cs).bind inner else inner cs

def readOctet (index : ℕ) (cs : List Char) : Option (UInt8 × List Char) :=
  (readSeparator '.' index (readNumber 10 3 256 false) cs).map fun r => (UInt8.ofNat r.1, r.2)

def readIpv4Addr (cs : List Char) : Option (Ipv4Addr × List Char) := do
  let (a, cs) ← readOctet 0 cs
  let (b, cs) ← readOctet 1 cs
  let (c, cs) ← readOctet 2 cs
  let (d, cs) ← readOctet 3 cs
  return (⟨a, b, c, d⟩, cs)

def fromBeBytes (hi lo : UInt8) : UInt16 := UInt16.ofNat (hi.toNat * 256 + lo.toNat)

/-- `read_groups` with `left` groups still to fill; the `i`-th comes first. It returns the groups,
whether they end in an IPv4 address, and the rest of the text. -/
def readGroups : (left i : ℕ) → List Char → List UInt16 × Bool × List Char
  | 0, _, cs => ([], false, cs)
  | left + 1, i, cs =>
    match if 0 < left then readSeparator ':' i readIpv4Addr cs else none with
    | some (ip, rest) => ([fromBeBytes ip.a ip.b, fromBeBytes ip.c ip.d], true, rest)
    | none =>
      match readSeparator ':' i (readNumber 16 4 65536 true) cs with
      | none => ([], false, cs)
      | some (g, rest) =>
        let r := readGroups left (i + 1) rest
        (UInt16.ofNat g :: r.1, r.2)

def ofSegments (gs : List UInt16) : Ipv6Addr :=
  let at' (i : ℕ) : UInt16 := gs[i]?.getD 0
  ⟨at' 0, at' 1, at' 2, at' 3, at' 4, at' 5, at' 6, at' 7⟩

def readIpv6Addr (cs : List Char) : Option (Ipv6Addr × List Char) :=
  let head := readGroups 8 0 cs
  if head.1.length = 8 then some (ofSegments head.1, head.2.2)
  else if head.2.1 then none
  else
    match (readGivenChar ':' head.2.2).bind (readGivenChar ':') with
    | none => none
    | some rest =>
      let tail := readGroups (8 - (head.1.length + 1)) 0 rest
      let zeroes := List.replicate (8 - head.1.length - tail.1.length) 0
      some (ofSegments (head.1 ++ zeroes ++ tail.1), tail.2.2)

def readIpAddr (cs : List Char) : Option (IpAddr × List Char) :=
  ((readIpv4Addr cs).map fun r => (.v4 r.1, r.2)).or ((readIpv6Addr cs).map fun r => (.v6 r.1, r.2))

end IpText

open IpText

/-- `str::parse::<IpAddr>`. -/
def IpAddr.parse (cs : List Char) : Option IpAddr :=
  match readIpAddr cs with
  | some (ip, []) => some ip
  | _ => none

def Ipv4Addr.display (ip : Ipv4Addr) : List Char :=
  let octet (o : UInt8) := Nat.toDigits 10 o.toNat
  octet ip.a ++ '.' :: octet ip.b ++ '.' :: octet ip.c ++ '.' :: octet ip.d

namespace Ipv6Addr

def segments (ip : Ipv6Addr) : List UInt16 :=
  [ip.s₀, ip.s₁, ip.s₂, ip.s₃, ip.s₄, ip.s₅, ip.s₆, ip.s₇]

structure Span where
  start : ℕ
  len : ℕ
  deriving DecidableEq, Repr

/-- One step of the search for the longest run; `r` is the longest and the current one. -/
def spanStep (r : Span × Span) (x : UInt16 × ℕ) : Span × Span :=
  if x.1 = 0 then
    let current : Span := ⟨if r.2.len = 0 then x.2 else r.2.start, r.2.len + 1⟩
    (if r.1.len < current.len then current else r.1, current)
  else (r.1, ⟨0, 0⟩)

def zeroes (gs : List UInt16) : Span := (gs.zipIdx.foldl spanStep (⟨0, 0⟩, ⟨0, 0⟩)).1

def hex (g : UInt16) : List Char := Nat.toDigits 16 g.toNat

def fmtSubslice : List UInt16 → List Char
  | [] => []
  | g :: gs => hex g ++ gs.flatMap fun g => ':' :: hex g

def display (ip : Ipv6Addr) : List Char :=
  match ip.toIpv4Mapped with
  | some ipv4 => "::ffff:".toList ++ ipv4.display
  | none =>
    let span := zeroes ip.segments
    if 1 < span.len then
      fmtSubslice (ip.segments.take span.start) ++ "::".toList ++
        fmtSubslice (ip.segments.drop (span.start + span.len))
    else fmtSubslice ip.segments

end Ipv6Addr

def IpAddr.display : IpAddr → List Char
  | .v4 ip => ip.display
  | .v6 ip => ip.display

example : (IpAddr.v6 ⟨0x2001, 0xdb8, 0, 0, 1, 0, 0, 1⟩).display = "2001:db8::1:0:0:1".toList := by
  decide
example :
    IpAddr.parse "::ffff:1.2.3.4".toList = some (.v6 ⟨0, 0, 0, 0, 0, 0xffff, 0x102, 0x304⟩) := by
    decide
example : IpAddr.parse "1.2.3.04".toList = none := by decide
example : IpAddr.parse "2001:DB8::1".toList = some (.v6 ⟨0x2001, 0xdb8, 0, 0, 0, 0, 0, 1⟩) := by
  decide
example : IpAddr.parse "1:2:3:4:5:6:7::".toList = some (.v6 ⟨1, 2, 3, 4, 5, 6, 7, 0⟩) := by decide
example : IpAddr.parse "1.2.3.4::".toList = none := by decide

namespace IpText
variable {radix n : ℕ} {cs rest : List Char}

def NoDigit (radix : ℕ) (cs : List Char) : Prop := ∀ c ∈ cs.head?, toDigit radix c = none

theorem toDigit_digitChar (hr : radix ≤ 16) (h : n < radix) :
    toDigit radix n.digitChar = some n := by
  have hn : n < 16 := by omega
  interval_cases n <;> exact if_pos h

theorem spanDigits_of_noDigit (h : NoDigit radix cs) : spanDigits radix cs = ([], cs) := by
  cases cs with
  | nil => rfl
  | cons c cs =>
    have hc : toDigit radix c = none := h c rfl
    simp only [spanDigits, hc]

theorem spanDigits_suffix (radix : ℕ) (cs : List Char) : (spanDigits radix cs).2 <:+ cs := by
  induction cs with
  | nil => exact List.suffix_refl []
  | cons c cs ih =>
    unfold spanDigits
    cases toDigit radix c with
    | none => exact List.suffix_refl _
    | some d => exact ih.trans (List.suffix_cons c cs)

theorem spanDigits_toDigits (hb : 1 < radix) (hr : radix ≤ 16) (n : ℕ) (rest : List Char) :
    ∃ ds, spanDigits radix (Nat.toDigits radix n ++ rest) =
        (ds ++ (spanDigits radix rest).1, (spanDigits radix rest).2) ∧
      ds.length = (Nat.toDigits radix n).length ∧ ofDigits radix ds = n := by
  induction n using Nat.strongRecOn generalizing rest with
  | ind n ih =>
    by_cases hn : n < radix
    · refine ⟨[n], ?_, ?_, ?_⟩
      · rw [Nat.toDigits_of_lt_base hn, List.singleton_append, spanDigits, toDigit_digitChar hr hn]
        rfl
      · rw [Nat.toDigits_of_lt_base hn]
        rfl
      · simp [ofDigits]
    · have hlt : n / radix < n := Nat.div_lt_self (by omega) hb
      have hmod : n % radix < radix := Nat.mod_lt n (by omega)
      obtain ⟨ds, hspan, hlen, hval⟩ := ih _ hlt ((n % radix).digitChar :: rest)
      refine ⟨ds ++ [n % radix], ?_, ?_, ?_⟩
      · rw [Nat.toDigits_of_base_le hb (by omega), List.append_assoc, List.singleton_append, hspan,
          spanDigits, toDigit_digitChar hr hmod, List.append_assoc]
        rfl
      · rw [Nat.toDigits_of_base_le hb (by omega), List.length_append, List.length_append, hlen]
        rfl
      · unfold ofDigits at hval ⊢
        rw [List.foldl_append, hval, List.foldl_cons, List.foldl_nil]
        exact Nat.div_add_mod' n radix

theorem toDigit_of_mem_toDigits (hb : 1 < radix) (hr : radix ≤ 16) {c : Char}
    (h : c ∈ Nat.toDigits radix n) : (toDigit radix c).isSome := by
  induction n using Nat.strongRecOn with
  | ind n ih =>
    by_cases hn : n < radix
    · rw [Nat.toDigits_of_lt_base hn, List.mem_singleton] at h
      rw [h, toDigit_digitChar hr hn]
      rfl
    · rw [Nat.toDigits_of_base_le hb (by omega), List.mem_append, List.mem_singleton] at h
      cases h with
      | inl h => exact ih _ (Nat.div_lt_self (by omega) hb) h
      | inr h =>
        rw [h, toDigit_digitChar hr (Nat.mod_lt n (by omega))]
        rfl

theorem eq_zero_of_head?_toDigits (hb : 1 < radix) (h : (Nat.toDigits radix n).head? = some '0') :
    n = 0 := by
  induction n using Nat.strongRecOn with
  | ind n ih =>
    by_cases hn : n < radix
    · rw [Nat.toDigits_of_lt_base hn, List.head?_cons] at h
      exact Nat.digitChar_eq_zero.mp (Option.some.inj h)
    · have hlt : n / radix < n := Nat.div_lt_self (by omega) hb
      have hdiv : 0 < n / radix := Nat.div_pos (by omega) (by omega)
      rw [Nat.toDigits_of_base_le hb (by omega), List.head?_append] at h
      cases hh : (Nat.toDigits radix (n / radix)).head? with
      | none =>
        have hnil := List.head?_eq_none_iff.mp hh
        have hpos := Nat.length_toDigits_pos (b := radix) (n := n / radix)
        rw [hnil] at hpos
        cases hpos
      | some c =>
        rw [hh, Option.some_or] at h
        have := ih _ hlt (hh.trans h)
        omega

theorem readNumber_toDigits {maxDigits size : ℕ} (z : Bool) (hb : 1 < radix) (hr : radix ≤ 16)
    (hn : n < size) (hlen : (Nat.toDigits radix n).length ≤ maxDigits)
    (hrest : NoDigit radix rest) :
    readNumber radix maxDigits size z (Nat.toDigits radix n ++ rest) = some (n, rest) := by
  obtain ⟨ds, hspan, hds, hval⟩ := spanDigits_toDigits hb hr n rest
  rw [spanDigits_of_noDigit hrest, List.append_nil] at hspan
  have hpos := Nat.length_toDigits_pos (b := radix) (n := n)
  have hne : ds ≠ [] := by
    intro h
    rw [h, List.length_nil] at hds
    omega
  have hzero : ¬ (!z && (Nat.toDigits radix n ++ rest).head? = some '0' && 1 < ds.length) =
      true := by
    rw [Bool.and_eq_true, Bool.and_eq_true, decide_eq_true_eq, decide_eq_true_eq]
    rintro ⟨⟨-, hhead⟩, hlong⟩
    have hhead' : (Nat.toDigits radix n).head? = some '0' := by
      cases hd : Nat.toDigits radix n with
      | nil => rw [hd] at hpos; cases hpos
      | cons c cs => rwa [hd] at hhead
    have hn0 := eq_zero_of_head?_toDigits hb hhead'
    subst hn0
    rw [hds, Nat.toDigits_zero] at hlong
    exact absurd hlong (by decide)
  have hshort : ¬ (ds = [] || maxDigits < ds.length) = true := by
    rw [Bool.or_eq_true, decide_eq_true_eq, decide_eq_true_eq]
    rintro (h | h)
    · exact hne h
    · omega
  unfold readNumber
  simp only [hspan, hval]
  rw [if_neg hshort, if_neg hzero, if_pos hn]

theorem readNumber_of_noDigit {maxDigits size : ℕ} {z : Bool} (h : NoDigit radix cs) :
    readNumber radix maxDigits size z cs = none := by
  unfold readNumber
  rw [spanDigits_of_noDigit h]
  rfl

theorem readNumber_suffix {maxDigits size : ℕ} {z : Bool} {r : ℕ × List Char}
    (h : readNumber radix maxDigits size z cs = some r) : r.2 <:+ cs := by
  unfold readNumber at h
  simp only at h
  split_ifs at h
  cases h
  exact spanDigits_suffix radix cs

theorem readGivenChar_of_not_mem {c : Char} (h : c ∉ cs) : readGivenChar c cs = none := by
  cases cs with
  | nil => rfl
  | cons d cs =>
    have hd : d ≠ c := fun hd => h (hd ▸ List.mem_cons_self)
    exact if_neg hd

theorem readOctet_zero (o : UInt8) (h : NoDigit 10 rest) :
    readOctet 0 (Nat.toDigits 10 o.toNat ++ rest) = some (o, rest) := by
  have hlt : o.toNat < 256 := o.toNat_lt
  have hlen : (Nat.toDigits 10 o.toNat).length ≤ 3 :=
    (Nat.length_toDigits_le_iff (by omega) (by omega)).mpr (by omega)
  unfold readOctet readSeparator
  rw [if_neg (Nat.lt_irrefl 0), readNumber_toDigits _ (by omega) (by omega) hlt hlen h]
  simp

theorem readOctet_succ (i : ℕ) (o : UInt8) (h : NoDigit 10 rest) :
    readOctet (i + 1) ('.' :: (Nat.toDigits 10 o.toNat ++ rest)) = some (o, rest) :=
  readOctet_zero o h

theorem readOctet_succ_of_no_dot (i : ℕ) (h : '.' ∉ cs) : readOctet (i + 1) cs = none := by
  unfold readOctet readSeparator
  rw [if_pos (Nat.succ_pos i), readGivenChar_of_not_mem h]
  rfl

theorem readIpv4Addr_display (ip : Ipv4Addr) (h : NoDigit 10 rest) :
    readIpv4Addr (ip.display ++ rest) = some (ip, rest) := by
  have hdot : ∀ cs, NoDigit 10 ('.' :: cs) := by
    intro cs c hc
    cases hc
    rfl
  unfold readIpv4Addr Ipv4Addr.display
  simp only [List.append_assoc, List.cons_append, readOctet_zero ip.a (hdot _),
    readOctet_succ _ _ (hdot _), readOctet_succ _ _ h, Option.bind_eq_bind, Option.bind_some]
  rfl

theorem readIpv4Addr_of_noDigit (h : NoDigit 10 cs) : readIpv4Addr cs = none := by
  unfold readIpv4Addr readOctet readSeparator
  rw [if_neg (Nat.lt_irrefl 0), readNumber_of_noDigit h]
  rfl

theorem readIpv4Addr_of_no_dot (h : '.' ∉ cs) : readIpv4Addr cs = none := by
  have hsuffix : ∀ r, readOctet 0 cs = some r → r.2 <:+ cs := by
    intro r hr
    obtain ⟨p, hp, rfl⟩ := Option.map_eq_some_iff.mp hr
    exact readNumber_suffix hp
  unfold readIpv4Addr
  cases ho : readOctet 0 cs with
  | none => rfl
  | some r =>
    have hdot : '.' ∉ r.2 := fun hmem => h ((hsuffix r ho).subset hmem)
    simp only [Option.bind_eq_bind, Option.bind_some, readOctet_succ_of_no_dot 0 hdot]
    rfl

/-! Groups of an IPv6 address. -/

def colons (gs : List UInt16) : List Char := gs.flatMap fun g => ':' :: Ipv6Addr.hex g

/-- After the groups comes `::` or nothing. -/
def Stops (cs : List Char) : Prop := cs = [] ∨ ∃ r, cs = ':' :: ':' :: r

theorem noDigit_colon (cs : List Char) : NoDigit 16 (':' :: cs) := by
  intro c hc
  cases hc
  rfl

theorem Stops.noDigit (h : Stops cs) : NoDigit 16 cs := by
  obtain rfl | ⟨r, rfl⟩ := h
  · intro c hc
    cases hc
  · exact noDigit_colon _

theorem noDigit_colons (gs : List UInt16) (h : Stops rest) : NoDigit 16 (colons gs ++ rest) := by
  cases gs with
  | nil => exact h.noDigit
  | cons g gs => exact noDigit_colon _

theorem readGroup_of_stops (i : ℕ) (h : Stops rest) :
    readSeparator ':' i (readNumber 16 4 65536 true) rest = none := by
  unfold readSeparator
  split_ifs
  · obtain rfl | ⟨r, rfl⟩ := h
    · rfl
    · show readNumber 16 4 65536 true (':' :: r) = none
      exact readNumber_of_noDigit (noDigit_colon r)
  · exact readNumber_of_noDigit h.noDigit

theorem readNumber_hex (g : UInt16) (h : NoDigit 16 rest) :
    readNumber 16 4 65536 true (Ipv6Addr.hex g ++ rest) = some (g.toNat, rest) := by
  have hlt : g.toNat < 65536 := g.toNat_lt
  have hlen : (Nat.toDigits 16 g.toNat).length ≤ 4 :=
    (Nat.length_toDigits_le_iff (by omega) (by omega)).mpr (by omega)
  exact readNumber_toDigits true (by omega) (by omega) hlt hlen h

theorem not_dot_mem_hex (g : UInt16) : '.' ∉ Ipv6Addr.hex g := fun h =>
  absurd (toDigit_of_mem_toDigits (by omega) (by omega) h) (by decide)

theorem not_dot_mem_colons (gs : List UInt16) : '.' ∉ colons gs := by
  unfold colons
  rw [List.mem_flatMap]
  rintro ⟨g, -, hg⟩
  cases List.mem_cons.mp hg with
  | inl h => exact absurd h (by decide)
  | inr h => exact not_dot_mem_hex g h

theorem readSeparator_ipv4_of_no_dot (i : ℕ) (h : '.' ∉ cs) :
    readSeparator ':' i readIpv4Addr cs = none := by
  unfold readSeparator
  split_ifs
  · cases cs with
    | nil => rfl
    | cons c cs =>
      by_cases hc : c = ':'
      · rw [readGivenChar, if_pos hc]
        exact readIpv4Addr_of_no_dot (fun hd => h (List.mem_cons_of_mem c hd))
      · rw [readGivenChar, if_neg hc]
        rfl
  · exact readIpv4Addr_of_no_dot h

theorem readGroups_stops (left i : ℕ) (hdot : '.' ∉ rest) (h : Stops rest) :
    readGroups left i rest = ([], false, rest) := by
  cases left with
  | zero => rfl
  | succ left =>
    simp only [readGroups, readSeparator_ipv4_of_no_dot i hdot, readGroup_of_stops i h, ite_self]

theorem readGroups_colons (gs : List UInt16) (left i : ℕ) (hle : gs.length ≤ left)
    (hdot : '.' ∉ rest) (h : Stops rest) :
    readGroups left (i + 1) (colons gs ++ rest) = (gs, false, rest) := by
  induction gs generalizing left i with
  | nil => exact readGroups_stops left (i + 1) hdot h
  | cons g gs ih =>
    obtain ⟨left, rfl⟩ : ∃ k, left = k + 1 := ⟨left - 1, by rw [List.length_cons] at hle; omega⟩
    have hle' : gs.length ≤ left := by
      rw [List.length_cons] at hle
      omega
    have hno : '.' ∉ colons (g :: gs) ++ rest := by
      rw [List.mem_append]
      rintro (hmem | hmem)
      · exact not_dot_mem_colons _ hmem
      · exact hdot hmem
    have hnum : readSeparator ':' (i + 1) (readNumber 16 4 65536 true) (colons (g :: gs) ++ rest) =
        some (g.toNat, colons gs ++ rest) := by
      unfold readSeparator colons
      rw [if_pos (Nat.succ_pos i), List.flatMap_cons, List.cons_append, List.cons_append,
        List.append_assoc]
      exact readNumber_hex g (noDigit_colons gs h)
    simp only [readGroups, readSeparator_ipv4_of_no_dot (i + 1) hno, hnum, ite_self,
      ih left (i + 1) hle', UInt16.ofNat_toNat]

theorem fmtSubslice_no_dot (gs : List UInt16) : '.' ∉ Ipv6Addr.fmtSubslice gs := by
  cases gs with
  | nil => exact List.not_mem_nil
  | cons g gs =>
    unfold Ipv6Addr.fmtSubslice
    rw [List.mem_append]
    rintro (h | h)
    · exact not_dot_mem_hex g h
    · exact not_dot_mem_colons gs h

theorem readGroups_fmtSubslice (gs : List UInt16) (left : ℕ) (hle : gs.length ≤ left)
    (hdot : '.' ∉ rest) (h : Stops rest) :
    readGroups left 0 (Ipv6Addr.fmtSubslice gs ++ rest) = (gs, false, rest) := by
  cases gs with
  | nil => exact readGroups_stops left 0 hdot h
  | cons g gs =>
    obtain ⟨left, rfl⟩ : ∃ k, left = k + 1 := ⟨left - 1, by rw [List.length_cons] at hle; omega⟩
    have hle' : gs.length ≤ left := by
      rw [List.length_cons] at hle
      omega
    have hno : '.' ∉ Ipv6Addr.fmtSubslice (g :: gs) ++ rest := by
      rw [List.mem_append]
      rintro (hmem | hmem)
      · exact fmtSubslice_no_dot _ hmem
      · exact hdot hmem
    have hnum : readSeparator ':' 0 (readNumber 16 4 65536 true)
        (Ipv6Addr.fmtSubslice (g :: gs) ++ rest) = some (g.toNat, colons gs ++ rest) := by
      unfold readSeparator Ipv6Addr.fmtSubslice
      rw [if_neg (Nat.lt_irrefl 0), List.append_assoc]
      exact readNumber_hex g (noDigit_colons gs h)
    simp only [readGroups, readSeparator_ipv4_of_no_dot 0 hno, hnum, ite_self,
      readGroups_colons gs left 0 hle' hdot h, UInt16.ofNat_toNat]

end IpText

namespace Ipv6Addr

def IsZero (gs : List UInt16) (span : Span) : Prop :=
  span.start + span.len ≤ gs.length ∧ ∀ i, span.start ≤ i → i < span.start + span.len →
  gs[i]? = some 0

theorem IsZero.append {gs : List UInt16} {span : Span} (h : IsZero gs span) (hs : List UInt16) :
    IsZero (gs ++ hs) span := by
  obtain ⟨hle, hzero⟩ := h
  refine ⟨?_, ?_⟩
  · rw [List.length_append]
    omega
  · intro i hlo hhi
    rw [List.getElem?_append_left (by omega)]
    exact hzero i hlo hhi

/-- The longest run found so far is one of zeros, and so is the current one, which ends here. -/
theorem isZero_foldl (gs : List UInt16) :
    let r := gs.zipIdx.foldl spanStep (⟨0, 0⟩, ⟨0, 0⟩)
    IsZero gs r.1 ∧ IsZero gs r.2 ∧ (r.2.len = 0 ∨ r.2.start + r.2.len = gs.length) := by
  induction gs using List.reverseRecOn with
  | nil =>
    have hzero : IsZero [] ⟨0, 0⟩ := ⟨Nat.le_refl 0, fun i _ hi => absurd hi (Nat.not_lt_zero i)⟩
    exact ⟨hzero, hzero, .inl rfl⟩
  | append_singleton gs g ih =>
    obtain ⟨hlongest, hcurrent, hend⟩ := ih
    simp only [List.zipIdx_append, List.foldl_append, List.zipIdx_singleton, List.foldl_cons,
      List.foldl_nil, Nat.zero_add]
    generalize gs.zipIdx.foldl spanStep (⟨0, 0⟩, ⟨0, 0⟩) = r at hlongest hcurrent hend
    have hempty : IsZero (gs ++ [g]) ⟨0, 0⟩ :=
        ⟨Nat.zero_le _, fun i _ hi => absurd hi (Nat.not_lt_zero i)⟩
    unfold spanStep
    by_cases hg : g = 0
    · have hstart : (if r.2.len = 0 then gs.length else r.2.start) + (r.2.len + 1) =
          gs.length + 1 := by
        split_ifs <;> omega
      have hnew : IsZero (gs ++ [g]) ⟨if r.2.len = 0 then gs.length
          else r.2.start, r.2.len + 1⟩ := by
        refine ⟨?_, ?_⟩
        · rw [List.length_append, List.length_singleton, hstart]
        · intro i hlo hhi
          rw [hstart] at hhi
          by_cases hi : i = gs.length
          · rw [hi, List.getElem?_concat_length, hg]
          · rw [List.getElem?_append_left (by omega)]
            refine hcurrent.2 i ?_ ?_
            · simp only at hlo
              split_ifs at hlo <;> omega
            · simp only at hlo
              split_ifs at hlo <;> omega
      rw [if_pos hg]
      refine ⟨?_, hnew, .inr ?_⟩
      · by_cases hlt : r.1.len < r.2.len + 1
        · simp only [if_pos hlt]
          exact hnew
        · simp only [if_neg hlt]
          exact hlongest.append [g]
      · rw [List.length_append, List.length_singleton]
        exact hstart
    · rw [if_neg hg]
      exact ⟨hlongest.append [g], hempty, .inl rfl⟩

theorem split_zeroes (gs : List UInt16) :
    (zeroes gs).start + (zeroes gs).len ≤ gs.length ∧
    gs = gs.take (zeroes gs).start ++ List.replicate (zeroes gs).len 0 ++
      gs.drop ((zeroes gs).start + (zeroes gs).len) := by
  obtain ⟨⟨hle, hzero⟩, -⟩ := isZero_foldl gs
  have hmid : (gs.drop (zeroes gs).start).take (zeroes gs).len = List.replicate
      (zeroes gs).len 0 := by
    apply List.ext_getElem?
    intro i
    rw [List.getElem?_take, List.getElem?_drop, List.getElem?_replicate]
    split_ifs with hi
    · exact hzero _ (Nat.le_add_right _ _) (Nat.add_lt_add_left hi _)
    · rfl
  refine ⟨hle, ?_⟩
  rw [← hmid, List.append_assoc, ← List.drop_drop, List.take_append_drop, List.take_append_drop]

theorem ofSegments_segments (ip : Ipv6Addr) : ofSegments ip.segments = ip := rfl

theorem length_segments (ip : Ipv6Addr) : ip.segments.length = 8 := rfl

theorem fromBeBytes_toUInt8 (s : UInt16) : fromBeBytes (s >>> 8).toUInt8 s.toUInt8 = s := by
  have hlt : s.toNat < 65536 := s.toNat_lt
  apply UInt16.toNat_inj.mp
  unfold fromBeBytes
  simp [Nat.shiftRight_eq_div_pow]
  omega

theorem eq_of_toIpv4Mapped {ip : Ipv6Addr} {v4 : Ipv4Addr} (h : ip.toIpv4Mapped = some v4) :
    ip = ⟨0, 0, 0, 0, 0, 0xffff, fromBeBytes v4.a v4.b, fromBeBytes v4.c v4.d⟩ := by
  unfold toIpv4Mapped at h
  split_ifs at h with hz
  cases h
  simp only [Bool.and_eq_true, decide_eq_true_eq] at hz
  obtain ⟨⟨⟨⟨⟨h₀, h₁⟩, h₂⟩, h₃⟩, h₄⟩, h₅⟩ := hz
  cases ip
  simp only [fromBeBytes_toUInt8] at *
  subst h₀ h₁ h₂ h₃ h₄ h₅
  rfl

theorem readIpv6Addr_plain (ip : Ipv6Addr) :
    readIpv6Addr (fmtSubslice ip.segments) = some (ip, []) := by
  have hread := readGroups_fmtSubslice ip.segments 8 (Nat.le_refl 8) List.not_mem_nil (.inl rfl)
  rw [List.append_nil] at hread
  unfold readIpv6Addr
  simp only [hread, if_pos (length_segments ip), ofSegments_segments]

theorem readIpv6Addr_compressed {ip : Ipv6Addr} {head tail : List UInt16} {len : ℕ} (hlen : 1 < len)
    (h : ip.segments = head ++ List.replicate len 0 ++ tail) :
    readIpv6Addr (fmtSubslice head ++ "::".toList ++ fmtSubslice tail) = some (ip, []) := by
  have hsum : head.length + len + tail.length = 8 := by
    have := congrArg List.length h
    rw [length_segments, List.length_append, List.length_append, List.length_replicate] at this
    omega
  have hdot : '.' ∉ ':' :: ':' :: fmtSubslice tail := by
    intro hmem
    have hmem' : '.' ∈ fmtSubslice tail := by simpa using hmem
    exact fmtSubslice_no_dot tail hmem'
  have hhead := readGroups_fmtSubslice head 8 (by omega) hdot (.inr ⟨_, rfl⟩)
  have htail := readGroups_fmtSubslice tail (8 - (head.length + 1)) (by omega)
    List.not_mem_nil (.inl rfl)
  have hfill : 8 - head.length - tail.length = len := by omega
  have htext : fmtSubslice head ++ "::".toList ++ fmtSubslice tail =
      fmtSubslice head ++ ':' :: ':' :: fmtSubslice tail := by simp
  have hcolons : (readGivenChar ':' (':' :: ':' :: fmtSubslice tail)).bind (readGivenChar ':') =
      some (fmtSubslice tail) := rfl
  rw [List.append_nil] at htail
  rw [htext]
  unfold readIpv6Addr
  simp only [hhead, hcolons, htail, hfill]
  rw [if_neg (by omega), if_neg (by decide), ← h, ofSegments_segments]

theorem readIpv6Addr_mapped (v4 : Ipv4Addr) :
    readIpv6Addr ("::ffff:".toList ++ v4.display) =
      some (⟨0, 0, 0, 0, 0, 0xffff, fromBeBytes v4.a v4.b, fromBeBytes v4.c v4.d⟩, []) := by
  have hnil : NoDigit 10 [] := fun c hc => by cases hc
  have hcolon : ∀ cs, readIpv4Addr (':' :: cs) = none := by
    intro cs
    apply readIpv4Addr_of_noDigit
    intro c hc
    cases hc
    rfl
  have hletter : ∀ cs, readIpv4Addr ('f' :: cs) = none := by
    intro cs
    apply readIpv4Addr_of_noDigit
    intro c hc
    cases hc
    rfl
  have hv4 : readSeparator ':' 1 readIpv4Addr (':' :: v4.display) = some (v4, []) := by
    have := readIpv4Addr_display v4 hnil
    rwa [List.append_nil] at this
  have hffff : hex 0xffff = "ffff".toList := by decide
  have hnum : readNumber 16 4 65536 true ("ffff".toList ++ ':' :: v4.display) =
      some (0xffff, ':' :: v4.display) := by
    rw [← hffff]
    exact readNumber_hex 0xffff (noDigit_colon _)
  have hhead : readGroups 8 0 (':' :: ':' :: ("ffff".toList ++ ':' :: v4.display)) =
      ([], false, ':' :: ':' :: ("ffff".toList ++ ':' :: v4.display)) := by
    have hno : readNumber 16 4 65536 true (':' :: ':' :: ("ffff".toList ++ ':' :: v4.display)) =
      none :=
      readNumber_of_noDigit (noDigit_colon _)
    simp only [readGroups, readSeparator, Nat.lt_irrefl, if_false, hcolon, hno, ite_self]
  have htail : readGroups 7 0 ("ffff".toList ++ ':' :: v4.display) =
      ([0xffff, fromBeBytes v4.a v4.b, fromBeBytes v4.c v4.d], true, []) := by
    have hipv4 : readSeparator ':' 0 readIpv4Addr ("ffff".toList ++ ':' :: v4.display) = none :=
        hletter _
    have hgroup : readSeparator ':' 0 (readNumber 16 4 65536 true)
        ("ffff".toList ++ ':' :: v4.display) = some (0xffff, ':' :: v4.display) := hnum
    rw [readGroups, hipv4, ite_self, hgroup]
    simp only [readGroups, hv4, Nat.zero_add, Nat.zero_lt_succ, if_true]
    rfl
  have htext : "::ffff:".toList ++ v4.display = ':' :: ':' ::
      ("ffff".toList ++ ':' :: v4.display) := by
    simp
  have hcolons : (readGivenChar ':' (':' :: ':' :: ("ffff".toList ++ ':' :: v4.display))).bind
      (readGivenChar ':') = some ("ffff".toList ++ ':' :: v4.display) := rfl
  rw [htext]
  unfold readIpv6Addr
  simp only [hhead, hcolons]
  rw [if_neg (by decide), if_neg (by decide)]
  simp only [List.length_nil, Nat.zero_add, Nat.add_one_sub_one, htail]
  rfl

theorem readIpv4Addr_display (ip : Ipv6Addr) : readIpv4Addr ip.display = none := by
  unfold display
  cases hm : ip.toIpv4Mapped with
  | some v4 =>
    apply readIpv4Addr_of_noDigit
    intro c hc
    rw [List.head?_append] at hc
    cases hc
    rfl
  | none =>
    apply readIpv4Addr_of_no_dot
    simp only
    split_ifs
    · rw [List.mem_append, List.mem_append]
      rintro ((h | h) | h)
      · exact fmtSubslice_no_dot _ h
      · exact absurd h (by decide)
      · exact fmtSubslice_no_dot _ h
    · exact fmtSubslice_no_dot _

theorem readIpv6Addr_display (ip : Ipv6Addr) : readIpv6Addr ip.display = some (ip, []) := by
  unfold display
  cases hm : ip.toIpv4Mapped with
  | some v4 =>
    have hip := eq_of_toIpv4Mapped hm
    exact (readIpv6Addr_mapped v4).trans (by rw [← hip])
  | none =>
    simp only
    split_ifs with hlen
    · exact readIpv6Addr_compressed hlen (split_zeroes ip.segments).2
    · exact readIpv6Addr_plain ip

end Ipv6Addr

namespace IpAddr

theorem parse_display (ip : IpAddr) : parse ip.display = some ip := by
  unfold parse
  cases ip with
  | v4 ip =>
    have hnil : NoDigit 10 [] := fun c hc => by cases hc
    have hread := readIpv4Addr_display ip hnil
    rw [List.append_nil] at hread
    unfold readIpAddr display
    rw [hread]
    rfl
  | v6 ip =>
    unfold readIpAddr display
    rw [ip.readIpv4Addr_display, ip.readIpv6Addr_display]
    rfl

theorem display_injective : Function.Injective display := fun ip ip' h =>
  Option.some.inj ((parse_display ip).symm.trans ((congrArg parse h).trans (parse_display ip')))

end IpAddr
end StellarGate
