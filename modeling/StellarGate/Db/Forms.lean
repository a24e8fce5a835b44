import StellarGate.Db.Instants

/-! The forms of a stored timestamp (`src/db.rs`): the pattern of the `CHECK` constraints, the forms
`normalize_ts` documents, and the repair at startup. -/
namespace StellarGate
open Base

/-- `LIKE` for a pattern of plain characters and `_`; SQLite folds the case of ASCII letters. -/
def likeMatches : List Char → List Char → Bool
  | [], [] => true
  | p :: ps, c :: cs => (p = '_' || p.toLower = c.toLower) && likeMatches ps cs
  | _, _ => false

def tsPattern : String := "____-__-__T__:__:__Z"

/-- The form the `CHECK` of a timestamp column asks for. -/
def hasTsForm (ts : String) : Bool := likeMatches tsPattern.toList ts.toList

/-- The forms that `normalize_ts` documents: with a space, with a `T`, with a `T` and a `Z`. -/
inductive TsForm where
  | spaced | bare | zoned
  deriving DecidableEq, Repr

def TsForm.write (date time : List Char) : TsForm → List Char
  | spaced => date ++ ' ' :: time
  | bare => date ++ 'T' :: time
  | zoned => date ++ 'T' :: (time ++ ['Z'])

/-- The form of a timestamp and the instant that SQLite's date functions read, which take all three
for UTC. They read other texts too. -/
def readTs (ts : String) : Option (TsForm × ℤ) :=
  let date := ts.toList.take 10
  let instant := fun time => unixTime (String.ofList (TsForm.zoned.write date time))
  match ts.toList.drop 10 with
  | ' ' :: time => (instant time).map (.spaced, ·)
  | 'T' :: time =>
    match instant time with
    | some t => some (.bare, t)
    | none => (unixTime ts).map (.zoned, ·)
  | _ => none

example : readTs "2026-04-29 15:00:00" = some (.spaced, 1777474800) := by decide
example : readTs "2026-04-29T15:00:00" = some (.bare, 1777474800) := by decide

/-- `ts NOT LIKE '%T%'`. -/
def lacksT (ts : String) : Bool := ts.toList.all fun c => c ≠ 'T' && c ≠ 't'

/-- `replace(ts, ' ', 'T') || 'Z'`. -/
def repairTs (ts : String) : String :=
  String.ofList (ts.toList.map (fun c => if c = ' ' then 'T' else c) ++ ['Z'])

theorem length_of_likeMatches {ps cs : List Char} (h : likeMatches ps cs = true) :
    cs.length = ps.length := by
  induction ps generalizing cs with
  | nil =>
    cases cs with
    | nil => rfl
    | cons c cs => cases h
  | cons p ps ih =>
    cases cs with
    | nil => cases h
    | cons c cs =>
      simp only [likeMatches, Bool.and_eq_true] at h
      rw [List.length_cons, List.length_cons, ih h.2]

/-- What `strftime` writes has a `T`. -/
@[simp] theorem lacksT_strftime (t : ℤ) : lacksT (strftime t) = false := by
  rw [lacksT, strftime_toList, List.all_eq_false]
  exact ⟨'T', by simp, by decide⟩

def isTsChar (c : Char) : Bool := c.isDigit || c = '-' || c = ':'

theorem foldl_bind_none {α β : Type*} {f : α → β → Option α} {cs : List β} :
    cs.foldl (fun acc c => acc.bind fun n => f n c) none = none := by
  induction cs with
  | nil => rfl
  | cons c cs ih => exact ih

theorem isDigit_of_number {cs : List Char} {n : ℤ} (h : number cs = some n) :
    ∀ c ∈ cs, c.isDigit = true := by
  unfold number at h
  generalize (0 : ℤ) = start at h
  induction cs generalizing start with
  | nil => simp
  | cons c cs ih =>
    rw [List.foldl_cons, Option.bind_some] at h
    by_cases hc : c.isDigit = true
    · rw [if_pos hc] at h
      rintro d (_ | hd)
      · exact hc
      · exact ih _ h d ‹_›
    · rw [if_neg hc, foldl_bind_none] at h
      cases h

theorem unixTime_eq_some {ts : String} {t : ℤ} (h : unixTime ts = some t) :
    ∃ date time, ts.toList = TsForm.zoned.write date time ∧ date.length = 10 ∧ time.length = 8 ∧
      (date ++ time).all isTsChar = true ∧ hasTsForm ts = true := by
  unfold unixTime at h
  split at h
  · next y₁ y₂ y₃ y₄ m₁ m₂ d₁ d₂ h₁ h₂ n₁ n₂ s₁ s₂ hts =>
    obtain ⟨year, hyear, h⟩ := Option.bind_eq_some_iff.mp h
    obtain ⟨month, hmonth, h⟩ := Option.bind_eq_some_iff.mp h
    obtain ⟨day, hday, h⟩ := Option.bind_eq_some_iff.mp h
    obtain ⟨hour, hhour, h⟩ := Option.bind_eq_some_iff.mp h
    obtain ⟨minute, hminute, h⟩ := Option.bind_eq_some_iff.mp h
    obtain ⟨second, hsecond, -⟩ := Option.bind_eq_some_iff.mp h
    have hy := isDigit_of_number hyear
    have hm := isDigit_of_number hmonth
    have hd := isDigit_of_number hday
    have hh := isDigit_of_number hhour
    have hn := isDigit_of_number hminute
    have hs := isDigit_of_number hsecond
    refine ⟨[y₁, y₂, y₃, y₄, '-', m₁, m₂, '-', d₁, d₂], [h₁, h₂, ':', n₁, n₂, ':', s₁, s₂],
      hts, rfl, rfl, ?_, ?_⟩
    · simp only [List.forall_mem_cons] at hy hm hd hh hn hs
      simp [isTsChar, hy, hm, hd, hh, hn, hs]
    · rw [hasTsForm, hts]
      rfl
  · cases h

/-- A date and a time of day that SQLite reads as the instant `t`. -/
structure Reads (date time : List Char) (t : ℤ) : Prop where
  ten : date.length = 10
  eight : time.length = 8
  chars : (date ++ time).all isTsChar = true
  instant : unixTime (String.ofList (TsForm.zoned.write date time)) = some t
  pattern : hasTsForm (String.ofList (TsForm.zoned.write date time)) = true

theorem reads_of_unixTime {ts : String} {date time : List Char} {t : ℤ} (h : unixTime ts = some t)
    (hts : ts.toList = TsForm.zoned.write date time) (hdate : date.length = 10) :
    Reads date time t := by
  obtain ⟨date', time', hts', hdate', htime', hchars, hpattern⟩ := unixTime_eq_some h
  obtain ⟨rfl, hrest⟩ := List.append_inj (hts.symm.trans hts') (hdate.trans hdate'.symm)
  obtain rfl := List.append_cancel_right (List.cons.inj hrest).2
  have hsame : String.ofList (TsForm.zoned.write date time) = ts := by
    rw [← hts, String.ofList_toList]
  exact ⟨hdate, htime', hchars, hsame ▸ h, hsame ▸ hpattern⟩

theorem readTs_eq_some {ts : String} {form : TsForm} {t : ℤ} (h : readTs ts = some (form, t)) :
    ∃ date time, ts.toList = form.write date time ∧ Reads date time t := by
  have hsplit := List.take_append_drop 10 ts.toList
  have hdate {c : Char} {time : List Char} (hdrop : ts.toList.drop 10 = c :: time) :
      (ts.toList.take 10).length = 10 := by
    have hlen := congrArg List.length hdrop
    rw [List.length_drop, List.length_cons] at hlen
    rw [List.length_take]
    omega
  simp only [readTs] at h
  split at h
  · next time hdrop =>
    obtain ⟨t', hread, heq⟩ := Option.map_eq_some_iff.mp h
    cases heq
    exact ⟨_, time, hsplit.symm.trans (by rw [hdrop]; rfl),
      reads_of_unixTime hread String.toList_ofList (hdate hdrop)⟩
  · next time hdrop =>
    split at h
    · next t' hread =>
      cases h
      exact ⟨_, time, hsplit.symm.trans (by rw [hdrop]; rfl),
        reads_of_unixTime hread String.toList_ofList (hdate hdrop)⟩
    · obtain ⟨t', hread, heq⟩ := Option.map_eq_some_iff.mp h
      cases heq
      obtain ⟨date, time, hts, hlen, -⟩ := unixTime_eq_some hread
      exact ⟨date, time, hts, reads_of_unixTime hread hts hlen⟩
  · cases h

/-- Each form is read back. -/
theorem readTs_write {date time : List Char} {t : ℤ} (h : Reads date time t) (form : TsForm) :
    readTs (String.ofList (form.write date time)) = some (form, t) := by
  have htake (rest : List Char) : (date ++ rest).take 10 = date := by
    rw [← h.ten, List.take_left]
  have hdrop (rest : List Char) : (date ++ rest).drop 10 = rest := by
    rw [← h.ten, List.drop_left]
  cases form with
  | spaced | bare =>
    simp only [readTs, TsForm.write, String.toList_ofList, htake, hdrop]
    have hread := h.instant
    simp only [TsForm.write] at hread
    simp only [hread, Option.map_some]
  | zoned =>
    have hlong : unixTime (String.ofList (TsForm.zoned.write date (time ++ ['Z']))) = none := by
      cases hu : unixTime (String.ofList (TsForm.zoned.write date (time ++ ['Z']))) with
      | none => rfl
      | some u =>
        have htime := (reads_of_unixTime hu String.toList_ofList h.ten).eight
        rw [List.length_append, h.eight] at htime
        cases htime
    have hread := h.instant
    simp only [TsForm.write] at hread hlong
    simp only [readTs, TsForm.write, String.toList_ofList, htake, hdrop, hlong, hread,
      Option.map_some]

section
variable {ts : String} {form : TsForm} {t : ℤ}

/-- Only the strict form passes the `CHECK` constraints. -/
theorem hasTsForm_iff (h : readTs ts = some (form, t)) : hasTsForm ts = true ↔ form = .zoned := by
  obtain ⟨date, time, hts, hreads⟩ := readTs_eq_some h
  constructor
  · intro hform
    have hlen := length_of_likeMatches hform
    have hpat : tsPattern.toList.length = 20 := by decide
    rw [hts, hpat] at hlen
    cases form with
    | zoned => rfl
    | spaced | bare => simp [TsForm.write, hreads.ten, hreads.eight] at hlen
  · rintro rfl
    have hpattern := hreads.pattern
    rwa [← hts, String.ofList_toList] at hpattern

theorem ne_of_isTsChar {c : Char} (hc : isTsChar c = true) : c ≠ 'T' ∧ c ≠ 't' ∧ c ≠ ' ' := by
  refine ⟨?_, ?_, ?_⟩ <;> rintro rfl <;> cases hc

/-- Only the form with a space has no `T`. -/
theorem lacksT_iff (h : readTs ts = some (form, t)) : lacksT ts = true ↔ form = .spaced := by
  obtain ⟨date, time, hts, hreads⟩ := readTs_eq_some h
  have hchars := List.all_eq_true.mp hreads.chars
  rw [lacksT, hts]
  cases form with
  | spaced =>
    simp only [TsForm.write, List.all_eq_true, List.mem_append, List.mem_cons]
    refine iff_of_true (fun c hc => ?_) trivial
    have hne : c ≠ 'T' ∧ c ≠ 't' := by
      rcases hc with hc | rfl | hc
      · exact ⟨(ne_of_isTsChar (hchars c (by simp [hc]))).1,
          (ne_of_isTsChar (hchars c (by simp [hc]))).2.1⟩
      · decide
      · exact ⟨(ne_of_isTsChar (hchars c (by simp [hc]))).1,
          (ne_of_isTsChar (hchars c (by simp [hc]))).2.1⟩
    simp [hne]
  | bare | zoned => simp [TsForm.write]

/-- The repair of the form with a space gives the strict text of the same instant. -/
theorem readTs_repairTs (h : readTs ts = some (.spaced, t)) :
    readTs (repairTs ts) = some (.zoned, t) := by
  obtain ⟨date, time, hts, hreads⟩ := readTs_eq_some h
  have hkeep : ∀ cs : List Char, cs.all isTsChar = true →
      cs.map (fun c => if c = ' ' then 'T' else c) = cs := by
    intro cs hcs
    calc
      cs.map (fun c => if c = ' ' then 'T' else c) = cs.map id := List.map_congr_left fun c hc =>
        if_neg (ne_of_isTsChar (List.all_eq_true.mp hcs c hc)).2.2
      _ = cs := List.map_id cs
  have hchars := hreads.chars
  rw [List.all_append, Bool.and_eq_true] at hchars
  have htext : repairTs ts = String.ofList (TsForm.zoned.write date time) := by
    simp only [repairTs, hts, TsForm.write, List.map_append, List.map_cons, if_true,
      hkeep date hchars.1, hkeep time hchars.2, List.append_assoc, List.cons_append]
  rw [htext]
  exact readTs_write hreads .zoned

end

end StellarGate
