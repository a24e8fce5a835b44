import StellarGate.Horizon.Stream

/-! Reconnects of the stream listener: which records a run hands over. -/
namespace StellarGate
open Base Sse

namespace StreamListener
section
variable {readRecord : String → Option HorizonPayment}

/-- What Horizon has sent: frames, each with the record it carries, if any. -/
def Sends (readRecord : String → Option HorizonPayment) (f : List UInt8 × Option HorizonPayment) :
    Prop :=
  match f.2 with
  | none => IsNote readRecord f.1
  | some hp => IsRecord readRecord hp f.1

abbrev Frames := List (List UInt8 × Option HorizonPayment)

def Frames.bytes (fs : Frames) : List (List UInt8) := fs.map Prod.fst
def Frames.records (fs : Frames) : List HorizonPayment := fs.filterMap Prod.snd

theorem Sends.isFrame {f : List UInt8 × Option HorizonPayment} (h : Sends readRecord f) :
    framer.IsFrame f.1 := by
  obtain ⟨frame, hp | hp⟩ := f
  · exact h.1
  · exact h.1

theorem isFrame_of_sends {fs : Frames} (h : ∀ f ∈ fs, Sends readRecord f) :
    ∀ b ∈ fs.bytes, framer.IsFrame b := by
  intro b hb
  obtain ⟨f, hf, rfl⟩ := List.mem_map.mp hb
  exact (h f hf).isFrame

theorem handle_note {cursor : String} {handed : List HorizonPayment} {frame : List UInt8}
    (h : IsNote readRecord frame) :
    handleStreamEvent readRecord (cursor, handed) frame = (cursor, handed) := by
  obtain ⟨-, hid, hrest⟩ := h
  unfold handleStreamEvent
  simp only [hid, Option.getD_none]
  rcases hrest with hopen | hdata | hread
  · simp [hopen]
  · simp [hdata]
  · simp [hread]

theorem handle_record {cursor token : String} {handed : List HorizonPayment} {hp : HorizonPayment}
    {frame : List UInt8} (h : IsRecord readRecord hp frame) (ht : hp.pagingToken = some token) :
    handleStreamEvent readRecord (cursor, handed) frame = (token, handed ++ [hp]) := by
  obtain ⟨-, hid, hopen, hdata, hread⟩ := h
  unfold handleStreamEvent
  simp only [hid, ht, Option.getD_some, hopen, hdata, hread, decide_false, Bool.or_self,
    Bool.false_eq_true, if_false]

def advance (cursor : String) (records : List HorizonPayment) : String :=
  (records.getLast?.bind (·.pagingToken)).getD cursor

/-- Frames hand over their records, and the cursor moves to the last of them. -/
theorem handle_frames {fs : Frames} (h : ∀ f ∈ fs, Sends readRecord f)
    (ht : ∀ hp ∈ fs.records, hp.pagingToken.isSome) (cursor : String)
    (handed : List HorizonPayment) :
    fs.bytes.foldl (handleStreamEvent readRecord) (cursor, handed) =
      (advance cursor fs.records, handed ++ fs.records) := by
  induction fs generalizing cursor handed with
  | nil => simp [Frames.bytes, Frames.records, advance]
  | cons f fs ih =>
    obtain ⟨frame, record⟩ := f
    have hf := h _ List.mem_cons_self
    have hfs := fun g hg => h g (List.mem_cons_of_mem _ hg)
    have hbytes : Frames.bytes ((frame, record) :: fs) = frame :: Frames.bytes fs := rfl
    rw [hbytes, List.foldl_cons]
    cases record with
    | none =>
      rw [handle_note hf]
      exact ih hfs ht cursor handed
    | some hp =>
      have hrecords : Frames.records ((frame, some hp) :: fs) = hp :: Frames.records fs := rfl
      rw [hrecords] at ht ⊢
      obtain ⟨token, htoken⟩ := Option.isSome_iff_exists.mp (ht hp List.mem_cons_self)
      rw [handle_record hf htoken, ih hfs (fun x hx => ht x (List.mem_cons_of_mem _ hx))]
      refine Prod.ext ?_ (by simp)
      unfold advance
      cases hlast : (Frames.records fs).getLast? with
      | none => simp [List.getLast?_eq_none_iff.mp hlast, htoken]
      | some x =>
        have hx := ht x (List.mem_cons_of_mem _ (List.mem_of_getLast? hlast))
        obtain ⟨t, hxt⟩ := Option.isSome_iff_exists.mp hx
        simp [List.getLast?_cons, hlast, hxt]

/-- The records of the account have tokens of their own. -/
structure Tokened (history : List HorizonPayment) : Prop where
  token : ∀ hp ∈ history, ∃ t, hp.pagingToken = some t ∧ t ≠ "now"
  distinct : (history.map (·.pagingToken)).Nodup

/-- The listener has gone through the records `past` of the history: it has handed over
what landed after the first connection was established, at the length `n`, and a
connection goes on from there. -/
structure Resumes (readRecord : String → Option HorizonPayment) (w : StreamListener) (n : ℕ)
    (past : List HorizonPayment) : Prop where
  isPast : past <+: w.history
  le : n ≤ past.length
  handed : ∀ hp ∈ past.drop n, hp ∈ w.handed
  cursor : (w.cursor = "now" ∧ past.length = n) ∨
    ∃ front last, past = front ++ [last] ∧ last.pagingToken = some w.cursor
  conn : ∀ c, w.conn = some c → ∃ fs : Frames, (∀ f ∈ fs, Sends readRecord f) ∧
    c.buf ++ c.wire = fs.bytes.flatten ∧ c.next ≤ w.history.length ∧
    w.history.take c.next = past ++ fs.records ∧ findEventEnd c.buf = none

/-- The invariant of a run whose reconnects are in time. -/
structure Resuming (readRecord : String → Option HorizonPayment) (w : StreamListener) : Prop where
  tokened : Tokened w.history
  before : w.since = none → w.cursor = "now" ∧ w.conn = none
  resumes : ∀ n, w.since = some n → ∃ past, Resumes readRecord w n past

variable {w t : StreamListener} {n : ℕ} {past : List HorizonPayment} {c : StreamConn}

/-- A connection that has brought everything has brought the listener up to where it stands. -/
theorem Resuming.noneMissed (h : Resuming readRecord w) : NoneMissed w := by
  intro c hc hwire n hn i hi hlt hp hget
  obtain ⟨past, hpast⟩ := h.resumes n hn
  obtain ⟨fs, hfs, hbytes, -, htake, hnone⟩ := hpast.conn c hc
  rw [hwire, List.append_nil] at hbytes
  have hnil : fs.bytes = [] := Framer.eq_nil_of_findEnd_none (isFrame_of_sends hfs) hbytes hnone
  have hfs : fs = [] := List.map_eq_nil_iff.mp hnil
  subst hfs
  have hp' : past[i]? = some hp := by
    rw [← List.append_nil past]
    change (past ++ Frames.records [])[i]? = some hp
    rw [← htake, List.getElem?_take_of_lt hlt, hget]
  apply hpast.handed
  refine List.mem_of_getElem? (i := i - n) ?_
  rw [List.getElem?_drop, Nat.add_sub_cancel' hi, hp']

theorem Tokened.concat {history : List HorizonPayment} {hp : HorizonPayment} (h : Tokened history)
    (hsome : hp.pagingToken.isSome) (hnow : hp.pagingToken ≠ some "now")
    (hnew : ∀ x ∈ history, x.pagingToken ≠ hp.pagingToken) : Tokened (history ++ [hp]) := by
  constructor
  · intro x hx
    rcases List.mem_append.mp hx with hx | hx
    · exact h.token x hx
    · rw [List.mem_singleton.mp hx]
      obtain ⟨token, ht⟩ := Option.isSome_iff_exists.mp hsome
      exact ⟨token, ht, fun hn => hnow (by rw [ht, hn])⟩
  · rw [List.map_append, List.nodup_append]
    refine ⟨h.distinct, by simp, ?_⟩
    rintro a ha b hb rfl
    obtain ⟨x, hx, rfl⟩ := List.mem_map.mp ha
    exact hnew x hx (List.mem_singleton.mp hb)

theorem Resumes.lands (h : Resumes readRecord w n past) (hp : HorizonPayment) :
    Resumes readRecord { w with history := w.history ++ [hp] } n past := by
  refine ⟨h.isPast.trans (List.prefix_append _ _), h.le, h.handed, h.cursor, fun c hc => ?_⟩
  obtain ⟨fs, hfs, hbytes, hle, htake, hnone⟩ := h.conn c hc
  refine ⟨fs, hfs, hbytes, ?_, ?_, hnone⟩
  · rw [List.length_append]
    omega
  · rw [List.take_append_of_le_length hle, htake]

/-- A connection opened where the listener stands. -/
theorem Resumes.connects (h : Resumes readRecord w n past)
    (hc : origin w.cursor w.history = past.length) :
    Resumes readRecord { w with conn := some ⟨origin w.cursor w.history, [], []⟩, since := some n }
      n past := by
  refine ⟨h.isPast, h.le, h.handed, h.cursor, fun c hc' => ?_⟩
  cases hc'
  refine ⟨[], by simp, rfl, ?_, ?_, rfl⟩
  · simp only [hc]
    exact h.isPast.length_le
  · simp only [hc]
    exact (List.prefix_iff_eq_take.mp h.isPast).symm.trans (List.append_nil past).symm

theorem origin_of_token {history front : List HorizonPayment} {last : HorizonPayment}
    {cursor : String} (ht : Tokened history) (hp : front ++ [last] <+: history)
    (hc : last.pagingToken = some cursor) :
    origin cursor history = front.length + 1 := by
  obtain ⟨rest, rfl⟩ := hp
  have hmem : last ∈ front ++ [last] ++ rest := by simp
  have hnow : cursor ≠ "now" := by
    obtain ⟨token, htoken, hne⟩ := ht.token last hmem
    rw [hc] at htoken
    exact Option.some.inj htoken ▸ hne
  have hfront : ∀ x ∈ front, x.pagingToken ≠ some cursor := by
    intro x hx he
    have hd := ht.distinct
    rw [List.map_append, List.map_append, List.append_assoc, List.nodup_append] at hd
    refine hd.2.2 _ (List.mem_map.mpr ⟨x, hx, rfl⟩) (some cursor) (by simp [hc]) he
  unfold origin
  rw [if_neg hnow, List.append_assoc, List.takeWhile_append_of_pos (by simpa using hfront)]
  simp [hc]

theorem Resuming.connects (h : Resuming readRecord w) (hc : w.conn = none)
    (hok : w.cursor = "now" → ∀ n, w.since = some n → w.history.length = n) :
    Resuming readRecord { w with
      conn := some ⟨origin w.cursor w.history, [], []⟩,
        since := w.since.or (some w.history.length) } := by
  refine ⟨h.tokened, fun hs => by simp at hs, fun n hn => ?_⟩
  cases hsince : w.since with
  | none =>
    obtain ⟨hcursor, -⟩ := h.before hsince
    simp only [hsince, Option.none_or, Option.some.injEq] at hn
    subst hn
    have horigin : origin w.cursor w.history = w.history.length := if_pos hcursor
    have hres : Resumes readRecord w w.history.length w.history :=
      ⟨List.prefix_refl _, Nat.le_refl _, by simp, .inl ⟨hcursor, rfl⟩, fun c hc' => by
        simp [hc] at hc'⟩
    simp only [Option.none_or]
    exact ⟨w.history, hres.connects horigin⟩
  | some m =>
    simp only [hsince, Option.some_or, Option.some.injEq] at hn
    subst hn
    obtain ⟨past, hpast⟩ := h.resumes m hsince
    simp only [Option.some_or]
    refine ⟨past, hpast.connects ?_⟩
    rcases hpast.cursor with ⟨hcursor, hlen⟩ | ⟨front, last, rfl, htoken⟩
    · rw [hlen, ← hok hcursor m hsince]
      exact if_pos hcursor
    · rw [origin_of_token h.tokened hpast.isPast htoken]
      simp

theorem Resumes.sends (h : Resumes readRecord w n past) (hc : w.conn = some c)
    {f : List UInt8 × Option HorizonPayment} (hf : Sends readRecord f) {next : ℕ}
    (hle : next ≤ w.history.length)
    (hnext : w.history.take next = w.history.take c.next ++ f.2.toList) :
    Resumes readRecord { w with conn := some { c with next, wire := c.wire ++ f.1 } } n past := by
  refine ⟨h.isPast, h.le, h.handed, h.cursor, fun c' hc' => ?_⟩
  cases hc'
  obtain ⟨fs, hfs, hbytes, -, htake, hnone⟩ := h.conn c hc
  refine ⟨fs ++ [f], ?_, ?_, hle, ?_, hnone⟩
  · intro g hg
    rcases List.mem_append.mp hg with hg | hg
    · exact hfs g hg
    · rw [List.mem_singleton.mp hg]
      exact hf
  · rw [← List.append_assoc, hbytes]
    simp [Frames.bytes]
  · rw [hnext, htake, List.append_assoc]
    congr 1
    obtain ⟨frame, record⟩ := f
    cases record <;> simp [Frames.records]

theorem advance_cursor {fs : Frames} {cursor : String}
    (ht : ∀ hp ∈ fs.records, hp.pagingToken.isSome) (h : (cursor = "now" ∧ past.length = n) ∨
      ∃ front last, past = front ++ [last] ∧ last.pagingToken = some cursor) :
    (advance cursor fs.records = "now" ∧ (past ++ fs.records).length = n) ∨
      ∃ front last, past ++ fs.records = front ++ [last] ∧
        last.pagingToken = some (advance cursor fs.records) := by
  unfold advance
  rcases List.eq_nil_or_concat fs.records with hnil | ⟨front, last, hlast⟩
  · simpa [hnil] using h
  · have hmem : last ∈ fs.records := by simp [hlast]
    obtain ⟨token, htoken⟩ := Option.isSome_iff_exists.mp (ht last hmem)
    refine .inr ⟨past ++ front, last, by simp [hlast], ?_⟩
    simp [hlast, htoken]

theorem Resumes.receives (h : Resumes readRecord w n past) (htok : Tokened w.history)
    (hc : w.conn = some c) (k : ℕ) :
    let events := framer.drain (c.buf ++ c.wire.take k)
    let r := events.1.foldl (handleStreamEvent readRecord) (w.cursor, w.handed)
    ∃ past, Resumes readRecord { w with
      cursor := r.1, handed := r.2, conn := some { c with wire := c.wire.drop k, buf := events.2 } }
        n past := by
  intro events r
  obtain ⟨fs, hfs, hbytes, hle, htake, -⟩ := h.conn c hc
  have hsplit : c.buf ++ c.wire.take k ++ c.wire.drop k = fs.bytes.flatten := by
    rw [List.append_assoc, List.take_append_drop, hbytes]
  obtain ⟨gs, hs, hgh, hcut, hrest, hnone⟩ := Framer.drain_of_frames (isFrame_of_sends hfs) hsplit
  obtain ⟨fs₁, fs₂, rfl, rfl, rfl⟩ := List.map_eq_append_iff.mp hgh
  have hrecords : Frames.records (fs₁ ++ fs₂) = Frames.records fs₁ ++ Frames.records fs₂ :=
    List.filterMap_append
  have hmem : ∀ hp ∈ Frames.records fs₁, hp ∈ w.history := by
    intro hp hhp
    apply List.mem_of_mem_take (i := c.next)
    rw [htake, hrecords]
    simp [hhp]
  have ht : ∀ hp ∈ Frames.records fs₁, hp.pagingToken.isSome := by
    intro hp hhp
    obtain ⟨token, htoken, -⟩ := htok.token hp (hmem hp hhp)
    simp [htoken]
  have hr : r = (advance w.cursor (Frames.records fs₁), w.handed ++ Frames.records fs₁) := by
    have := handle_frames (fun f hf => hfs f (List.mem_append_left _ hf)) ht w.cursor w.handed
    simp only [r, events, hcut]
    exact this
  refine ⟨past ++ Frames.records fs₁, ?_, ?_, ?_, ?_, ?_⟩
  · refine List.IsPrefix.trans ⟨Frames.records fs₂, ?_⟩ ( List.take_prefix c.next _)
    rw [htake, hrecords, List.append_assoc]
  · rw [List.length_append]
    exact Nat.le_add_right_of_le h.le
  · intro hp hhp
    rw [List.drop_append_of_le_length h.le] at hhp
    simp only [hr]
    rcases List.mem_append.mp hhp with hhp | hhp
    · exact List.mem_append_left _ (h.handed hp hhp)
    · exact List.mem_append_right _ hhp
  · simp only [hr]
    exact advance_cursor ht h.cursor
  · intro c' hc'
    cases hc'
    refine ⟨fs₂, fun f hf => hfs f (List.mem_append_right _ hf), hrest, hle, ?_, hnone⟩
    rw [htake, hrecords, List.append_assoc]

theorem Resuming.step {e : StreamEvent} (h : Resuming readRecord w) (hok : ResumesInTime w e)
    (hs : step readRecord w e = some t) : Resuming readRecord t := by
  cases e with
  | lands hp =>
    simp only [StreamListener.step] at hs
    split_ifs at hs with hnew
    cases hs
    refine ⟨h.tokened.concat hnew.1 hnew.2.1 hnew.2.2, h.before, fun n hn => ?_⟩
    obtain ⟨past, hpast⟩ := h.resumes n hn
    exact ⟨past, hpast.lands hp⟩
  | connects =>
    simp only [StreamListener.step] at hs
    split at hs
    · cases hs
    · next hc =>
      cases hs
      exact h.connects hc hok
  | sendsNote frame =>
    simp only [StreamListener.step] at hs
    split at hs
    · cases hs
    · next c hc =>
      split_ifs at hs with hnote
      cases hs
      refine ⟨h.tokened, fun hn => by simp [(h.before hn).2] at hc, fun n hn => ?_⟩
      obtain ⟨past, hpast⟩ := h.resumes n hn
      obtain ⟨-, -, -, hle, -, -⟩ := hpast.conn c hc
      exact ⟨past, hpast.sends (f := (frame, none)) hc hnote hle (by simp)⟩
  | sendsRecord frame =>
    simp only [StreamListener.step] at hs
    split at hs
    · cases hs
    · next c hc =>
      split at hs
      · cases hs
      · next hp hget =>
        split_ifs at hs with hrecord
        cases hs
        refine ⟨h.tokened, fun hn => by simp [(h.before hn).2] at hc, fun n hn => ?_⟩
        obtain ⟨past, hpast⟩ := h.resumes n hn
        obtain ⟨hlt, hhp⟩ := List.getElem?_eq_some_iff.mp hget
        refine ⟨past, hpast.sends (f := (frame, some hp)) hc hrecord hlt ?_⟩
        rw [List.take_add_one, hget]
  | receives k =>
    simp only [StreamListener.step] at hs
    split at hs
    · cases hs
    · next c hc =>
      cases hs
      refine ⟨h.tokened, fun hn => by simp [(h.before hn).2] at hc, fun n hn => ?_⟩
      obtain ⟨past, hpast⟩ := h.resumes n hn
      exact hpast.receives h.tokened hc k
  | drops =>
    simp only [StreamListener.step] at hs
    split at hs
    · cases hs
    · cases hs
      refine ⟨h.tokened, fun hn => ⟨(h.before hn).1, rfl⟩, fun n hn => ?_⟩
      obtain ⟨past, hpast⟩ := h.resumes n hn
      exact ⟨past, hpast.isPast, hpast.le, hpast.handed, hpast.cursor, fun c hc => nomatch hc⟩

end

/-- As long as no reconnect at the live edge comes after a record, no record is missed. -/
theorem noneMissed_of_run {readRecord : String → Option HorizonPayment} {es : List StreamEvent}
    {w : StreamListener} (hr : run (step readRecord) start es = some w)
    (hok : Along (step readRecord) ResumesInTime start es) : NoneMissed w := by
  have hstart : Resuming readRecord start :=
    ⟨⟨(fun hp hhp => nomatch hhp), List.nodup_nil⟩, fun _ => ⟨rfl, rfl⟩, fun n hn => nomatch hn⟩
  have hw : Resuming readRecord w := hok.invariant (fun s e t hok hs h => h.step hok hs) hr hstart
  exact hw.noneMissed

instance (w : StreamListener) : ∀ e, Decidable (ResumesInTime w e)
  | .connects => decidable_of_iff (w.cursor = "now" → ∀ n ∈ w.since, w.history.length = n) Iff.rfl
  | .lands _ | .sendsNote _ | .sendsRecord _ | .receives _ | .drops => .isTrue trivial

namespace Sample

def record (token : String) : HorizonPayment :=
  ⟨"payment", none, none, none, none, none, none, none, some token, none⟩

def text (token : String) : String :=
  "\x7b\"paging_token\":\"" ++ token ++ "\",\"type\":\"payment\"\x7d"

def readRecord (data : String) : Option HorizonPayment :=
  if data = text "1" then some (record "1") else if data = text "2" then some (record "2") else none

def ascii (s : String) : List UInt8 := s.toList.map fun c => UInt8.ofNat c.toNat

def greeting : List UInt8 := ascii "retry: 1000\nevent: open\ndata: \"hello\"\n\n"
def frame (token : String) : List UInt8 :=
  ascii ("id: " ++ token ++ "\ndata: " ++ text token ++ "\n\n")

/-- The connection is dropped after a record, and another one brings the next in two chunks. -/
def resumed : List StreamEvent :=
  [.connects, .sendsNote greeting, .receives 100, .lands (record "1"), .sendsRecord
    (frame "1"), .receives 100, .drops, .lands (record "2"), .connects, .sendsRecord
    (frame "2"), .receives 20, .receives 100]

/-- The connection is dropped before the first record. -/
def reopened : List StreamEvent :=
  [.connects, .sendsNote greeting, .receives 100, .drops, .lands (record "1"), .connects, .lands
    (record "2"), .sendsRecord (frame "2"), .receives 100]

end Sample

theorem noneMissed_of_run_resumed : ∃ w,
    run (step Sample.readRecord) start Sample.resumed = some w ∧
      w.handed = [Sample.record "1", Sample.record "2"] ∧ NoneMissed w := by
  obtain ⟨w, hw, hh⟩ := exists_of_run (step Sample.readRecord) start Sample.resumed
    (P := fun w => w.handed = [Sample.record "1", Sample.record "2"]) (by decide +kernel)
  exact ⟨w, hw, hh, noneMissed_of_run hw (by decide +kernel)⟩

/-- The cursor is still `now` when the connection is opened again: the record in between is
skipped, although the one after it is brought. -/
theorem reopened_misses : ∃ w,
    run (step Sample.readRecord) start Sample.reopened = some w ∧
      w.handed = [Sample.record "2"] ∧ ¬ NoneMissed w := by
  obtain ⟨w, hw, hh, hc, hsince, hget⟩ :=
    exists_of_run (step Sample.readRecord) start Sample.reopened
      (P := fun w => w.handed = [Sample.record "2"] ∧ w.conn = some ⟨2, [], []⟩ ∧ w.since = some 0 ∧
      w.history[0]? = some (Sample.record "1")) (by decide +kernel)
  refine ⟨w, hw, hh, fun hn => ?_⟩
  have hmem := hn _ hc rfl 0 hsince 0 (Nat.le_refl 0) (by decide) _ hget
  rw [hh] at hmem
  exact absurd hmem (by decide)

end StreamListener
end StellarGate
