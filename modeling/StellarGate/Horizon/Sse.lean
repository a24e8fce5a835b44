import StellarGate.Horizon.Utf8

/-! The reader of `stream_once` and the format it reads: the blocks do not depend on how the
response is cut into chunks, and an event that was written is the event that is read. -/
namespace StellarGate
open Base
namespace Sse

/-- The loop of `stream_once` over the chunks of a response: the blocks it hands on, and what
is left in its buffer. -/
def readStream (chunks : List (List UInt8)) : List (List UInt8) × List UInt8 :=
  framer.feed [] chunks

inductive Field where
  | event (v : String)
  | id (v : String)
  | data (v : String)
  deriving DecidableEq, Repr

namespace Field

def name : Field → String
  | .event _ => "event"
  | .id _ => "id"
  | .data _ => "data"

def value : Field → String
  | .event v => v
  | .id v => v
  | .data v => v

def event? : Field → Option String
  | .event v => some v
  | _ => none

def id? : Field → Option String
  | .id v => some v
  | _ => none

def data? : Field → Option String
  | .data v => some v
  | _ => none

def line (f : Field) : String := f.name ++ ": " ++ f.value

end Field

inductive Ending where
  | lf
  | crlf
  deriving DecidableEq, Repr

def Ending.text : Ending → String
  | .lf => "\n"
  | .crlf => "\r\n"

def serialise (nl : Ending) (fields : List Field) : String :=
  String.join (fields.map fun f => f.line ++ nl.text) ++ nl.text

def OneLine (v : String) : Prop := '\r' ∉ v.toList ∧ '\n' ∉ v.toList

instance (v : String) : Decidable (OneLine v) := inferInstanceAs (Decidable (_ ∧ _))

structure Message where
  event : Option String
  id : Option String
  data : List String
  deriving DecidableEq, Repr

namespace Message

/-- The fields that say the message, in any order but that of its data. -/
structure WrittenAs (m : Message) (fields : List Field) : Prop where
  some_field : fields ≠ []
  event : fields.filterMap Field.event? = m.event.toList
  id : fields.filterMap Field.id? = m.id.toList
  data : fields.filterMap Field.data? = m.data
  oneLine : ∀ f ∈ fields, OneLine f.value

def parsed (m : Message) : SseEvent := ⟨m.event, m.id, "\n".intercalate m.data⟩

end Message

/-! The ends of the lines. -/
section Ends
variable {ls : List (List UInt8)}

theorem windowPosition_lf (hne : ∀ l ∈ ls, l ≠ []) (hlf : ∀ l ∈ ls, 10 ∉ l) :
    windowPosition [10, 10] (10 :: (ls.flatMap (· ++ [10]) ++ [10])) =
      some (ls.flatMap (· ++ [10])).length := by
  induction ls with
  | nil => rfl
  | cons l ls ih =>
    have hno : ¬ [10, 10] <+: 10 :: ((l :: ls).flatMap (· ++ [10]) ++ [10]) := by
      intro hp
      cases l with
      | nil => exact hne [] List.mem_cons_self rfl
      | cons x xs =>
        have hx : 10 = x := (List.cons_prefix_cons.mp (List.cons_prefix_cons.mp hp).2).1
        exact hlf (x :: xs) List.mem_cons_self (hx ▸ List.mem_cons_self)
    have hrest := ih (fun m hm => hne m (List.mem_cons_of_mem l hm))
      (fun m hm => hlf m (List.mem_cons_of_mem l hm))
    rw [windowPosition_cons hno, List.flatMap_cons, List.append_assoc, List.append_assoc,
      windowPosition_append_of_not_mem (hlf l List.mem_cons_self), List.singleton_append, hrest]
    simp
    omega

theorem windowPosition_crlf (hne : ∀ l ∈ ls, l ≠ []) (hcr : ∀ l ∈ ls, 13 ∉ l) :
    windowPosition [13, 10, 13, 10] (13 :: 10 :: (ls.flatMap (· ++ [13, 10]) ++ [13, 10])) =
      some (ls.flatMap (· ++ [13, 10])).length := by
  induction ls with
  | nil => rfl
  | cons l ls ih =>
    have hno : ¬ [13, 10, 13, 10] <+: 13 :: 10 ::
        ((l :: ls).flatMap (· ++ [13, 10]) ++ [13, 10]) := by
      intro hp
      have htail := (List.cons_prefix_cons.mp (List.cons_prefix_cons.mp hp).2).2
      cases l with
      | nil => exact hne [] List.mem_cons_self rfl
      | cons x xs =>
        have hx : 13 = x := (List.cons_prefix_cons.mp htail).1
        exact hcr (x :: xs) List.mem_cons_self (hx ▸ List.mem_cons_self)
    have hlf : ¬ [13, 10, 13, 10] <+: 10 :: ((l :: ls).flatMap (· ++ [13, 10]) ++ [13, 10]) := by
      intro hp
      exact absurd (List.cons_prefix_cons.mp hp).1 (by decide)
    have hrest := ih (fun m hm => hne m (List.mem_cons_of_mem l hm))
      (fun m hm => hcr m (List.mem_cons_of_mem l hm))
    rw [windowPosition_cons hno, windowPosition_cons hlf, List.flatMap_cons, List.append_assoc,
      List.append_assoc, windowPosition_append_of_not_mem (hcr l List.mem_cons_self),
      List.cons_append, List.singleton_append, hrest]
    simp
    omega

/-- Between the two bytes of a CRLF there is no place for a blank LF line. -/
theorem windowPosition_lf_of_crlf (hlf : ∀ l ∈ ls, 10 ∉ l) :
    windowPosition [10, 10] (10 :: (ls.flatMap (· ++ [13, 10]) ++ [13, 10])) = none := by
  induction ls with
  | nil => rfl
  | cons l ls ih =>
    have hcr : 10 ∉ l ++ [13] := by
      intro h
      cases List.mem_append.mp h with
      | inl h => exact hlf l List.mem_cons_self h
      | inr h => exact absurd h (by decide)
    have hno : ¬ [10, 10] <+: 10 :: ((l :: ls).flatMap (· ++ [13, 10]) ++ [13, 10]) := by
      intro hp
      have htail := (List.cons_prefix_cons.mp hp).2
      cases l with
      | nil => exact absurd (List.cons_prefix_cons.mp htail).1 (by decide)
      | cons x xs =>
        have hx : 10 = x := (List.cons_prefix_cons.mp htail).1
        exact hlf (x :: xs) List.mem_cons_self (hx ▸ List.mem_cons_self)
    have hrest := ih (fun m hm => hlf m (List.mem_cons_of_mem l hm))
    have hsplit : (l :: ls).flatMap (· ++ [13, 10]) ++ [13, 10] =
        (l ++ [13]) ++ 10 :: (ls.flatMap (· ++ [13, 10]) ++ [13, 10]) := by simp
    rw [windowPosition_cons hno, hsplit, windowPosition_append_of_not_mem hcr, hrest]
    rfl

theorem isFrame_lf (hls : ls ≠ []) (hne : ∀ l ∈ ls, l ≠ []) (hlf : ∀ l ∈ ls, 10 ∉ l)
    (hcr : ∀ l ∈ ls, 13 ∉ l) : framer.IsFrame (ls.flatMap (· ++ [10]) ++ [10]) := by
  cases ls with
  | nil => exact absurd rfl hls
  | cons l ls =>
    have hend := windowPosition_lf (fun m hm => hne m (List.mem_cons_of_mem l hm))
      (fun m hm => hlf m (List.mem_cons_of_mem l hm))
    have hsplit : (l :: ls).flatMap (· ++ [10]) ++ [10] = l ++ 10 ::
        (ls.flatMap (· ++ [10]) ++ [10]) := by
      simp
    have hno : (13 : UInt8) ∉ (l :: ls).flatMap (· ++ [10]) ++ [10] := by
      simpa [List.mem_flatMap] using hcr
    show findEventEnd _ = _
    unfold findEventEnd
    rw [windowPosition_eq_none_of_not_mem hno, hsplit,
      windowPosition_append_of_not_mem (hlf l List.mem_cons_self), hend]
    simp
    omega

theorem isFrame_crlf (hls : ls ≠ []) (hne : ∀ l ∈ ls, l ≠ []) (hlf : ∀ l ∈ ls, 10 ∉ l)
    (hcr : ∀ l ∈ ls, 13 ∉ l) : framer.IsFrame (ls.flatMap (· ++ [13, 10]) ++ [13, 10]) := by
  cases ls with
  | nil => exact absurd rfl hls
  | cons l ls =>
    have hend := windowPosition_crlf (fun m hm => hne m (List.mem_cons_of_mem l hm))
      (fun m hm => hcr m (List.mem_cons_of_mem l hm))
    have hnone := windowPosition_lf_of_crlf (fun m hm => hlf m (List.mem_cons_of_mem l hm))
    have hsplit : (l :: ls).flatMap (· ++ [13, 10]) ++ [13, 10] =
        l ++ 13 :: 10 :: (ls.flatMap (· ++ [13, 10]) ++ [13, 10]) := by simp
    have hno : ¬ [10, 10] <+: 13 :: 10 :: (ls.flatMap (· ++ [13, 10]) ++ [13, 10]) := by
      intro hp
      exact absurd (List.cons_prefix_cons.mp hp).1 (by decide)
    show findEventEnd _ = _
    unfold findEventEnd
    rw [hsplit, windowPosition_append_of_not_mem (hlf l List.mem_cons_self),
      windowPosition_cons hno, hnone, windowPosition_append_of_not_mem (hcr l List.mem_cons_self),
      hend]
    simp
    omega

end Ends
variable {f : Field} {fields : List Field}

theorem Field.line_ne_nil (f : Field) : utf8 f.line ≠ [] := by
  have hcolon : utf8 ": " ≠ [] := by decide
  unfold Field.line
  rw [utf8_append, utf8_append]
  intro h
  exact hcolon (List.append_eq_nil_iff.mp (List.append_eq_nil_iff.mp h).1).2

theorem Field.oneLine_line (h : OneLine f.value) : OneLine f.line := by
  obtain ⟨hcr, hlf⟩ := h
  have hname : '\r' ∉ f.name.toList ∧ '\n' ∉ f.name.toList := by
    cases f with
    | event v => exact (by decide : '\r' ∉ "event".toList ∧ '\n' ∉ "event".toList)
    | id v => exact (by decide : '\r' ∉ "id".toList ∧ '\n' ∉ "id".toList)
    | data v => exact (by decide : '\r' ∉ "data".toList ∧ '\n' ∉ "data".toList)
  unfold OneLine Field.line
  simp only [String.toList_append, List.mem_append, not_or]
  exact ⟨⟨⟨hname.1, by decide⟩, hcr⟩, ⟨hname.2, by decide⟩, hlf⟩

theorem utf8_serialise (nl : Ending) (fields : List Field) :
    utf8 (serialise nl fields) =
      (fields.map fun f => utf8 f.line).flatMap (· ++ utf8 nl.text) ++ utf8 nl.text := by
  unfold serialise
  rw [utf8_append, utf8_join, List.flatMap_map, List.flatMap_map]
  simp only [utf8_append]

/-- What is written for an event is one block. -/
theorem isFrame_serialise (nl : Ending) (hne : fields ≠ []) (h : ∀ f ∈ fields, OneLine f.value) :
    framer.IsFrame (utf8 (serialise nl fields)) := by
  have hls : (fields.map fun f => utf8 f.line) ≠ [] := by simpa using hne
  have hnil : ∀ l ∈ fields.map fun f => utf8 f.line, l ≠ [] := by
    intro l hl
    obtain ⟨f, -, rfl⟩ := List.mem_map.mp hl
    exact f.line_ne_nil
  have hlf : ∀ l ∈ fields.map fun f => utf8 f.line, 10 ∉ l := by
    intro l hl
    obtain ⟨f, hf, rfl⟩ := List.mem_map.mp hl
    exact not_mem_utf8 (c := '\n') (by decide) (Field.oneLine_line (h f hf)).2
  have hcr : ∀ l ∈ fields.map fun f => utf8 f.line, 13 ∉ l := by
    intro l hl
    obtain ⟨f, hf, rfl⟩ := List.mem_map.mp hl
    exact not_mem_utf8 (c := '\r') (by decide) (Field.oneLine_line (h f hf)).1
  rw [utf8_serialise]
  cases nl with
  | lf => exact isFrame_lf hls hnil hlf hcr
  | crlf => exact isFrame_crlf hls hnil hlf hcr

theorem linesFrom_cons {acc cs : List Char} {c : Char} (h : c ≠ '\n') :
    linesFrom acc (c :: cs) = linesFrom (c :: acc) cs := if_neg h

theorem linesFrom_append {l rest acc : List Char} (h : '\n' ∉ l) :
    linesFrom acc (l ++ rest) = linesFrom (l.reverse ++ acc) rest := by
  induction l generalizing acc with
  | nil => rfl
  | cons c cs ih =>
    obtain ⟨hc, hcs⟩ := List.ne_and_not_mem_of_not_mem_cons h
    rw [List.cons_append, linesFrom_cons hc.symm, ih hcs, List.reverse_cons, List.append_assoc]
    rfl

theorem linesFrom_line (nl : Ending) {l : List Char} (rest : List Char) (hcr : '\r' ∉ l)
    (hlf : '\n' ∉ l) :
    linesFrom [] (l ++ nl.text.toList ++ rest) = l :: linesFrom [] rest := by
  rw [List.append_assoc, linesFrom_append hlf, List.append_nil]
  cases nl with
  | lf =>
    have hend : ∀ acc : List Char, '\r' ∉ acc →
        linesFrom acc ('\n' :: rest) = acc.reverse :: linesFrom [] rest := by
      intro acc hacc
      simp only [linesFrom, if_true]
      split
      · exact absurd List.mem_cons_self hacc
      · rfl
    have hrev : '\r' ∉ l.reverse := fun h => hcr (List.mem_reverse.mp h)
    exact (hend l.reverse hrev).trans (by rw [List.reverse_reverse])
  | crlf =>
    have hend : linesFrom ('\r' :: l.reverse) ('\n' :: rest) = l.reverse.reverse ::
      linesFrom [] rest := rfl
    exact (linesFrom_cons (by decide)).trans (hend.trans (by rw [List.reverse_reverse]))

theorem lines_serialise (nl : Ending) (h : ∀ f ∈ fields, OneLine f.value) :
    lines (serialise nl fields) = (fields.map fun f => f.line.toList) ++ [[]] := by
  unfold lines serialise
  induction fields with
  | nil => cases nl <;> rfl
  | cons f fields ih =>
    have hline := Field.oneLine_line (h f List.mem_cons_self)
    have hrest := ih (fun g hg => h g (List.mem_cons_of_mem f hg))
    rw [List.map_cons, String.join_cons, String.append_assoc, String.toList_append,
      String.toList_append, linesFrom_line nl _ hline.1 hline.2, hrest]
    rfl

theorem Field.toList_line (f : Field) :
    f.line.toList = (f.name ++ ":").toList ++ ' ' :: f.value.toList := by
  simp [Field.line]

theorem field_of_name (f : Field) : field (f.name ++ ":") f.line.toList = some f.value := by
  unfold field
  rw [f.toList_line, if_pos ( List.isPrefixOf_iff_prefix.mpr (List.prefix_append _ _)),
    List.drop_left' rfl]
  simp only [String.ofList_toList]

theorem field_eq_none {name : String} {line : List Char} {c d : Char}
    (hname : name.toList.head? = some c) (hline : line.head? = some d) (h : c ≠ d) :
    field name line = none := by
  unfold field
  rw [if_neg]
  intro hp
  obtain ⟨rest, rfl⟩ := List.isPrefixOf_iff_prefix.mp hp
  rw [List.head?_append, hname, Option.some_or] at hline
  exact h (Option.some.inj hline)

/-- What one field adds to what was read. -/
theorem readLine_line (r : SseEvent × List String) (f : Field) :
    readLine r f.line.toList =
      ({ r.1 with event := f.event?.or r.1.event, id := f.id?.or r.1.id },
        r.2 ++ f.data?.toList) := by
  unfold readLine
  cases f with
  | data v =>
    have hdata : field "data:" (Field.data v).line.toList = some v := field_of_name (.data v)
    rw [hdata]
    rfl
  | event v =>
    have hname : ((Field.event v).name ++ ":").toList.head? = some 'e' :=
      (by decide : ("event" ++ ":").toList.head? = some 'e')
    have hhead : (Field.event v).line.toList.head? = some 'e' := by
      rw [Field.toList_line, List.head?_append, hname]
      rfl
    have hdata : field "data:" (Field.event v).line.toList = none :=
      field_eq_none (c := 'd') rfl hhead (by decide)
    have hevent : field "event:" (Field.event v).line.toList = some v := field_of_name (.event v)
    rw [hdata, hevent]
    simp [Field.event?, Field.id?, Field.data?]
  | id v =>
    have hname : ((Field.id v).name ++ ":").toList.head? = some 'i' :=
      (by decide : ("id" ++ ":").toList.head? = some 'i')
    have hhead : (Field.id v).line.toList.head? = some 'i' := by
      rw [Field.toList_line, List.head?_append, hname]
      rfl
    have hdata : field "data:" (Field.id v).line.toList = none :=
      field_eq_none (c := 'd') rfl hhead (by decide)
    have hevent : field "event:" (Field.id v).line.toList = none :=
      field_eq_none (c := 'e') rfl hhead (by decide)
    have hid : field "id:" (Field.id v).line.toList = some v := field_of_name (.id v)
    rw [hdata, hevent, hid]
    simp [Field.event?, Field.id?, Field.data?]

theorem foldl_readLine (r : SseEvent × List String) (fields : List Field) :
    (fields.map fun f => f.line.toList).foldl readLine r =
      ({ r.1 with
          event := (fields.filterMap Field.event?).getLast?.or r.1.event
          id := (fields.filterMap Field.id?).getLast?.or r.1.id },
        r.2 ++ fields.filterMap Field.data?) := by
  induction fields generalizing r with
  | nil => simp
  | cons f fields ih =>
    rw [List.map_cons, List.foldl_cons, readLine_line, ih]
    cases f <;> simp [Field.event?, Field.id?, Field.data?, List.filterMap_cons, List.getLast?_cons]

/-- The block of an event is parsed to the event. -/
theorem parseSseBlock_serialise (nl : Ending) {m : Message} (h : m.WrittenAs fields) :
    parseSseBlock (serialise nl fields) = m.parsed := by
  have hlast : ∀ o : Option String, (o.toList.getLast?).or none = o := by
    intro o
    cases o <;> rfl
  unfold parseSseBlock
  rw [lines_serialise nl h.oneLine, List.foldl_append, foldl_readLine, h.event, h.id, h.data]
  simp only [hlast]
  rfl

/-- The blocks and the leftover depend on the stream alone and make it up, and the events read from
a stream of events are the ones that were written. -/
theorem readStream_faithful :
    (∀ chunks chunks' : List (List UInt8), chunks.flatten = chunks'.flatten →
      readStream chunks = readStream chunks') ∧
    (∀ chunks, (readStream chunks).1.flatten ++ (readStream chunks).2 = chunks.flatten) ∧
    ∀ (nl : Ending) (sent : List (Message × List Field)) (chunks : List (List UInt8)),
      (∀ e ∈ sent, e.1.WrittenAs e.2) →
      chunks.flatten = utf8 (String.join (sent.map fun e => serialise nl e.2)) →
      (readStream chunks).2 = [] ∧
        (readStream chunks).1.map (fun block => parseSseBlock (fromUtf8Lossy block)) =
          sent.map fun e => e.1.parsed := by
  have hdrain : ∀ chunks, readStream chunks = framer.drain chunks.flatten := fun chunks =>
    framer.feed_eq_drain framer.findEnd_nil chunks
  refine ⟨?_, ?_, ?_⟩
  · intro chunks chunks' h
    rw [hdrain, hdrain, h]
  · intro chunks
    rw [hdrain]
    exact framer.drain_flatten_append chunks.flatten
  · intro nl sent chunks hsent hchunks
    have hframes : ∀ b ∈ sent.map fun e => utf8 (serialise nl e.2), framer.IsFrame b := by
      intro b hb
      obtain ⟨e, he, rfl⟩ := List.mem_map.mp hb
      exact isFrame_serialise nl (hsent e he).some_field (hsent e he).oneLine
    have hblocks : utf8 (String.join (sent.map fun e => serialise nl e.2)) =
        (sent.map fun e => utf8 (serialise nl e.2)).flatten := by
      rw [utf8_join, List.flatMap_map, List.flatMap_def]
    rw [hdrain, hchunks, hblocks, Framer.drain_flatten hframes]
    refine ⟨rfl, ?_⟩
    rw [List.map_map]
    apply List.map_congr_left
    intro e he
    rw [Function.comp_apply, fromUtf8Lossy_utf8, parseSseBlock_serialise nl (hsent e he)]

/-- Two events in CRLF, cut inside the blank line between them and inside a character. -/
theorem readStream_faithful_sample :
    ((readStream [utf8 "data: a\r\n\r", utf8 "\nid: 7\r\ndata: " ++ [0xe2, 0x82],
      0xac :: utf8 "\r\ndata: b\r\n\r\n"]).1.map fun block => parseSseBlock (fromUtf8Lossy block)) =
      [⟨none, none, "a"⟩, ⟨none, some "7", "€\nb"⟩] := by
  let sent : List (Message × List Field) :=
    [(⟨none, none, ["a"]⟩, [.data "a"]),
      (⟨none, some "7", ["€", "b"]⟩, [.id "7", .data "€", .data "b"])]
  have hsent : ∀ e ∈ sent, e.1.WrittenAs e.2 := by
    refine List.forall_mem_cons.mpr ⟨⟨?_, rfl, rfl, rfl, ?_⟩,
      List.forall_mem_singleton.mpr ⟨?_, rfl, rfl, rfl, ?_⟩⟩ <;> decide
  exact (readStream_faithful.2.2 .crlf sent _ hsent (by decide)).2

end Sse
end StellarGate
