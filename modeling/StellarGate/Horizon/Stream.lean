import StellarGate.Api.Cursor
import StellarGate.Base.Framing
import StellarGate.Base.Run
import StellarGate.Horizon.Record

/-! The stream listener of `src/horizon.rs`: `run_stream_listener` over Horizon's payment
stream, byte by byte, with the connection dropped at any moment. `readRecord` is
`serde_json::from_str::<HorizonPayment>`. -/
namespace StellarGate
open Base

/-- One step of a lossy UTF-8 decoder: the character at the head, if it is one, and the
number of bytes to go on by. -/
def utf8Head (b : ℕ) (rest : List ℕ) : Option Char × ℕ :=
  let inRange (lo hi : ℕ) (i : ℕ) : Bool := rest[i]?.any fun c => lo ≤ c && c ≤ hi
  let cont (i : ℕ) : ℕ := rest[i]?.getD 0 % 64
  if b < 0x80 then (some (Char.ofNat b), 1)
  else if 0xc2 ≤ b && b ≤ 0xdf then
    if !inRange 0x80 0xbf 0 then (none, 1) else (some (Char.ofNat (b % 32 * 64 + cont 0)), 2)
  else if 0xe0 ≤ b && b ≤ 0xef then
    let lo := if b = 0xe0 then 0xa0 else 0x80
    let hi := if b = 0xed then 0x9f else 0xbf
    if !inRange lo hi 0 then (none, 1)
    else if !inRange 0x80 0xbf 1 then (none, 2)
    else (some (Char.ofNat (b % 16 * 4096 + cont 0 * 64 + cont 1)), 3)
  else if 0xf0 ≤ b && b ≤ 0xf4 then
    let lo := if b = 0xf0 then 0x90 else 0x80
    let hi := if b = 0xf4 then 0x8f else 0xbf
    if !inRange lo hi 0 then (none, 1)
    else if !inRange 0x80 0xbf 1 then (none, 2)
    else if !inRange 0x80 0xbf 2 then (none, 3)
    else (some (Char.ofNat (b % 8 * 262144 + cont 0 * 4096 + cont 1 * 64 + cont 2)), 4)
  else (none, 1)

/-- The characters of a byte string; each piece that is no UTF-8 becomes a U+FFFD. -/
def lossyChars : ℕ → List ℕ → List Char
  | 0, _ => []
  | _, [] => []
  | k + 1, b :: rest =>
    let head := utf8Head b rest
    head.1.getD (Char.ofNat 0xfffd) :: lossyChars k (rest.drop (head.2 - 1))

def fromUtf8Lossy (bytes : List UInt8) : String :=
  String.ofList (lossyChars bytes.length (bytes.map UInt8.toNat))

example : fromUtf8Lossy [0x61, 0xe2, 0x82, 0xac, 0xe2, 0x82, 0x62] = "a€\uFFFDb" := by decide

structure SseEvent where
  event : Option String
  id : Option String
  data : String
  deriving DecidableEq, Repr

namespace Sse

/-- `str::lines`; `line` holds the line read so far, backwards. -/
def linesFrom (line : List Char) : List Char → List (List Char)
  | [] => if line = [] then [] else [line.reverse]
  | c :: cs =>
    if c = '\n' then
      (match line with
        | '\r' :: rest => rest.reverse
        | line => line.reverse) :: linesFrom [] cs
    else linesFrom (c :: line) cs

def lines (s : String) : List (List Char) := linesFrom [] s.toList

/-- `strip_prefix` of a field name, and of the blank that may follow it. -/
def field (name : String) (line : List Char) : Option String :=
  if name.toList.isPrefixOf line then
    match line.drop name.toList.length with
    | ' ' :: rest => some (String.ofList rest)
    | rest => some (String.ofList rest)
  else none

/-- One line of `parse_sse_block`, with the data lines so far. -/
def readLine (r : SseEvent × List String) (line : List Char) : SseEvent × List String :=
  match field "data:" line with
  | some rest => (r.1, r.2 ++ [rest])
  | none =>
    match field "event:" line with
    | some rest => ({ r.1 with event := some rest }, r.2)
    | none =>
      match field "id:" line with
      | some rest => ({ r.1 with id := some rest }, r.2)
      | none => r

def parseSseBlock (block : String) : SseEvent :=
  let r := (lines block).foldl readLine (⟨none, none, ""⟩, [])
  { r.1 with data := "\n".intercalate r.2 }

example : parseSseBlock "retry: 1000\r\nevent: open\r\ndata: \"hello\"\r\n\r\n" =
    ⟨some "open", none, "\"hello\""⟩ := by decide

def findEventEnd (buf : List UInt8) : Option ℕ :=
  let lf := (windowPosition [10, 10] buf).map (· + 2)
  let crlf := (windowPosition [13, 10, 13, 10] buf).map (· + 4)
  match lf, crlf with
  | some a, some b => some (min a b)
  | a, b => a.or b

theorem findEventEnd_pos {buf : List UInt8} {e : ℕ} (h : findEventEnd buf = some e) : 0 < e := by
  unfold findEventEnd at h
  cases hlf : windowPosition [10, 10] buf <;> cases hcr : windowPosition [13, 10, 13, 10] buf <;>
    simp [hlf, hcr] at h <;> omega

theorem findEventEnd_le {buf : List UInt8} {e : ℕ} (h : findEventEnd buf = some e) :
    e ≤ buf.length := by
  unfold findEventEnd at h
  cases hlf : windowPosition [10, 10] buf with
  | none =>
    cases hcr : windowPosition [13, 10, 13, 10] buf with
    | none => simp [hlf, hcr] at h
    | some j =>
      have := windowPosition_le hcr
      simp [hlf, hcr] at h this
      omega
  | some i =>
    have hi := windowPosition_le hlf
    cases hcr : windowPosition [13, 10, 13, 10] buf with
    | none =>
      simp [hlf, hcr] at h hi
      omega
    | some j =>
      simp [hlf, hcr] at h hi
      omega

/-- An end that was found stays: what appears with more input ends after it. -/
theorem findEventEnd_append {buf : List UInt8} {e : ℕ} (c : List UInt8)
    (h : findEventEnd buf = some e) :
    findEventEnd (buf ++ c) = some e := by
  have hle := findEventEnd_le h
  unfold findEventEnd at h ⊢
  cases hlf : windowPosition [10, 10] buf with
  | none =>
    cases hcr : windowPosition [13, 10, 13, 10] buf with
    | none => simp [hlf, hcr] at h
    | some j =>
      rw [windowPosition_append hcr]
      cases hlf' : windowPosition [10, 10] (buf ++ c) with
      | none => simpa [hlf, hcr] using h
      | some i =>
        have := lt_of_windowPosition_append (by decide) hlf hlf'
        simp [hlf, hcr] at h this ⊢
        omega
  | some i =>
    rw [windowPosition_append hlf]
    cases hcr : windowPosition [13, 10, 13, 10] buf with
    | some j =>
      rw [windowPosition_append hcr]
      simpa [hlf, hcr] using h
    | none =>
      cases hcr' : windowPosition [13, 10, 13, 10] (buf ++ c) with
      | none => simpa [hlf, hcr] using h
      | some j =>
        have := lt_of_windowPosition_append (by decide) hcr hcr'
        simp [hlf, hcr] at h this ⊢
        omega

def framer : Framer UInt8 := ⟨findEventEnd, findEventEnd_pos, findEventEnd_le, findEventEnd_append⟩

end Sse

/-- A connection to the stream: the place in Horizon's history of the next record to be sent, the
bytes on their way, and the buffer of `stream_once`. -/
structure StreamConn where
  next : ℕ
  wire : List UInt8
  buf : List UInt8
  deriving DecidableEq, Repr

/-- The listener and what it talks to: the payments of the gateway account on Horizon in their
order, the cursor, and the connection. `since` is the length of the history when the first
connection was established, `handed` lists the calls of `reconcile_payment`. -/
structure StreamListener where
  history : List HorizonPayment
  cursor : String
  conn : Option StreamConn
  since : Option ℕ
  handed : List HorizonPayment
  deriving DecidableEq, Repr

inductive StreamEvent where
  | lands (hp : HorizonPayment)
  | connects
  | sendsNote (frame : List UInt8)
  | sendsRecord (frame : List UInt8)
  | receives (n : ℕ)
  | drops
  deriving DecidableEq, Repr

namespace StreamListener
open Sse
section
variable (readRecord : String → Option HorizonPayment)

/-- `handle_stream_event`, from the cursor and the records handed over so far. -/
def handleStreamEvent (r : String × List HorizonPayment) (block : List UInt8) :
    String × List HorizonPayment :=
  let ev := parseSseBlock (fromUtf8Lossy block)
  let cursor := ev.id.getD r.1
  if ev.event = some "open" || ev.data = "" then (cursor, r.2)
  else
    match readRecord ev.data with
    | some hp => (cursor, r.2 ++ [hp])
    | none => (cursor, r.2)

/-- A frame that carries the record, under its paging token. -/
def IsRecord (hp : HorizonPayment) (frame : List UInt8) : Prop :=
  findEventEnd frame = some frame.length ∧
    let ev := parseSseBlock (fromUtf8Lossy frame)
    ev.id = hp.pagingToken ∧ ev.event ≠ some "open" ∧ ev.data ≠ "" ∧ readRecord ev.data = some hp

/-- A frame that carries no record and no id: the greeting, a keep-alive. -/
def IsNote (frame : List UInt8) : Prop :=
  findEventEnd frame = some frame.length ∧
    let ev := parseSseBlock (fromUtf8Lossy frame)
    ev.id = none ∧ (ev.event = some "open" ∨ ev.data = "" ∨ readRecord ev.data = none)

instance (hp : HorizonPayment) (frame : List UInt8) : Decidable (IsRecord readRecord hp frame) :=
  inferInstanceAs (Decidable (_ ∧ _ ∧ _ ∧ _ ∧ _))

instance (frame : List UInt8) : Decidable (IsNote readRecord frame) :=
  inferInstanceAs (Decidable (_ ∧ _ ∧ (_ ∨ _ ∨ _)))

/-- Where a connection opened with the cursor starts in the history: at its end for `now`, else
after the record with the token. -/
def origin (cursor : String) (history : List HorizonPayment) : ℕ :=
  if cursor = "now" then history.length
  else (history.takeWhile fun hp => hp.pagingToken ≠ some cursor).length + 1

def step (w : StreamListener) : StreamEvent → Option StreamListener
  -- Horizon gives every record a token of its own
  | .lands hp =>
    if hp.pagingToken.isSome ∧ hp.pagingToken ≠ some "now" ∧
        ∀ x ∈ w.history, x.pagingToken ≠ hp.pagingToken then
      some { w with history := w.history ++ [hp] }
    else none
  | .connects =>
    match w.conn with
    | some _ => none
    | none =>
      some { w with
        conn := some ⟨origin w.cursor w.history, [], []⟩
        since := w.since.or (some w.history.length) }
  | .sendsNote frame =>
    match w.conn with
    | none => none
    | some c =>
      if IsNote readRecord frame then
        some { w with conn := some { c with wire := c.wire ++ frame } }
      else none
  | .sendsRecord frame =>
    match w.conn with
    | none => none
    | some c =>
      match w.history[c.next]? with
      | none => none
      | some hp =>
        if IsRecord readRecord hp frame then
          some { w with conn := some { c with next := c.next + 1, wire := c.wire ++ frame } }
        else none
  -- a chunk of `n` bytes: every complete event is handled, a partial one waits in the buffer
  | .receives n =>
    match w.conn with
    | none => none
    | some c =>
      let events := framer.drain (c.buf ++ c.wire.take n)
      let r := events.1.foldl (handleStreamEvent readRecord) (w.cursor, w.handed)
      some { w with
        cursor := r.1
        handed := r.2
        conn := some { c with wire := c.wire.drop n, buf := events.2 } }
  | .drops =>
    match w.conn with
    | none => none
    | some _ => some { w with conn := none }

end

/-- `run_stream_listener` starts at the live edge. -/
def start : StreamListener := ⟨[], "now", none, none, []⟩

/-- No record is missed: what landed after the first connection was established and lies
before the place up to which a connection has sent is handed over once the connection
has brought everything. -/
def NoneMissed (w : StreamListener) : Prop :=
  ∀ c, w.conn = some c → c.wire = [] → ∀ n, w.since = some n → ∀ i, n ≤ i → i < c.next →
    ∀ hp, w.history[i]? = some hp → hp ∈ w.handed

/-- No connection but the first is opened at the live edge after a record has landed. -/
def ResumesInTime (w : StreamListener) : StreamEvent → Prop
  | .connects => w.cursor = "now" → ∀ n, w.since = some n → w.history.length = n
  | _ => True

end StreamListener
end StellarGate
