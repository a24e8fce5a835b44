import StellarGate.Db.Backlog
import StellarGate.Db.Forms

/-! The three statements that compare `expires_at` with the clock: `list_pending`,
`find_pending_by_memo` and `expire_overdue` of `src/db.rs`. -/
namespace StellarGate
open Base

theorem strftime_eq_iff {s t : ℤ} (hs : InRange s) (ht : InRange t) :
    strftime s = strftime t ↔ s = t := by
  constructor
  · intro h
    have hread := unixTime_strftime hs
    rw [h, unixTime_strftime ht] at hread
    exact (Option.some.inj hread).symm
  · intro h
    rw [h]

namespace Db

/-- The `WHERE` clause of `list_pending`. -/
def pending (now : ℤ) (p : Payment) : Bool := p.status.watchable && strftime now < p.expiresAt

/-- `list_pending`. `tie` settles the order of equal values of `created_at`. -/
def listPending (now : ℤ) (tie : String → ℕ) (db : Db) : List Payment :=
  ((db.payments.rows.filter (pending now)).insertionSort (sweepOrder tie)).map rowToPayment

def EnoughBatch (now batch : ℤ) (db : Db) : Prop :=
  batch < 0 ∨ (db.payments.rows.countP (overdue now) : ℤ) ≤ batch

instance (now batch : ℤ) (db : Db) : Decidable (EnoughBatch now batch db) :=
  inferInstanceAs (Decidable (_ ∨ _))

section
variable {db : Db} {p : Payment} {now batch : ℤ} {tie : String → ℕ}

theorem pending_iff : pending now p = true ↔ p.status.watchable = true ∧
    strftime now < p.expiresAt := by
  unfold pending
  rw [Bool.and_eq_true, decide_eq_true_iff]

/-- Of a watchable row, the one clause is the negation of the other. -/
theorem pending_eq_not_overdue (hw : p.status.watchable = true) :
    pending now p = !overdue now p := by
  unfold pending overdue
  rw [hw, Bool.true_and, Bool.true_and, ← decide_not]
  exact decide_eq_decide.mpr not_le.symm

theorem findPendingByMemo_eq_iff (hp : p ∈ db.payments.rows) :
    db.findPendingByMemo now p.memo = some (rowToPayment p) ↔ pending now p = true := by
  constructor
  · intro h
    obtain ⟨q, hq, _, hmemo, hw, he⟩ := findPendingByMemo_eq_some h
    obtain rfl := eq_of_memo hq hp hmemo
    exact pending_iff.mpr ⟨hw, he⟩
  · intro h
    obtain ⟨hw, he⟩ := pending_iff.mp h
    exact findPendingByMemo_of_mem hp hw he

theorem mem_listPending {x : Payment} :
    x ∈ db.listPending now tie ↔ ∃ p ∈ db.payments.rows, pending now p = true ∧
      rowToPayment p = x := by
  unfold listPending
  simp only [List.mem_map, List.mem_insertionSort, List.mem_filter, and_assoc]

/-- `list_pending` lists what `find_pending_by_memo` finds, memo by memo. -/
theorem findPendingByMemo_iff_listPending {memo : String} {x : Payment} :
    db.findPendingByMemo now memo = some x ↔ x ∈ db.listPending now tie ∧ x.memo = memo := by
  rw [mem_listPending]
  constructor
  · intro h
    obtain ⟨q, hq, rfl, hmemo, hw, he⟩ := findPendingByMemo_eq_some h
    exact ⟨⟨q, hq, pending_iff.mpr ⟨hw, he⟩, rfl⟩, hmemo⟩
  · rintro ⟨⟨q, hq, hpending, rfl⟩, hmemo⟩
    have hfound := (findPendingByMemo_eq_iff hq).mpr hpending
    rwa [show q.memo = memo from hmemo] at hfound

theorem limit_of_enough {α : Type*} {xs : List α} (h : batch < 0 ∨ (xs.length : ℤ) ≤ batch) :
    limit batch xs = xs := by
  unfold limit
  split_ifs with hneg
  · rfl
  · exact List.take_of_length_le (by omega)

theorem sweepBatch_of_enough (hb : EnoughBatch now batch db) :
    db.sweepBatch now batch tie = (db.payments.rows.filter (overdue now)).insertionSort
      (sweepOrder tie) := by
  apply limit_of_enough
  rw [List.length_insertionSort, ← List.countP_eq_length_filter]
  exact hb

theorem mem_expireIds_iff (hb : EnoughBatch now batch db) (hp : p ∈ db.payments.rows) :
    p.id ∈ db.expireIds now batch tie ↔ overdue now p = true := by
  constructor
  · exact overdue_of_mem_expireIds hp
  · intro h
    rw [expireIds_eq, sweepBatch_of_enough hb]
    apply List.mem_map_of_mem
    exact (List.mem_insertionSort _).mpr (List.mem_filter.mpr ⟨hp, h⟩)

theorem mem_expireOverdue_iff (hb : EnoughBatch now batch db) (hp : p ∈ db.payments.rows) :
    rowToPayment (expireRow now p) ∈ (db.expireOverdue now batch tie).1 ↔ overdue now p = true := by
  rw [(expireOverdue_perm db now batch tie).mem_iff, ← mem_expireIds_iff hb hp]
  simp only [List.mem_map, List.mem_filter, decide_eq_true_eq]
  constructor
  · rintro ⟨q, ⟨_, hq⟩, heq⟩
    have hid : (rowToPayment (expireRow now q)).id = (rowToPayment (expireRow now p)).id := by
      rw [heq]
    exact hid ▸ hq
  · intro h
    exact ⟨p, ⟨hp, h⟩, rfl⟩

/-- A watchable row is found by its memo or swept, and never both. -/
theorem found_iff_not_swept (hp : p ∈ db.payments.rows) (hw : p.status.watchable = true)
    (hb : EnoughBatch now batch db) : db.findPendingByMemo now p.memo = some (rowToPayment p) ↔
      rowToPayment (expireRow now p) ∉ (db.expireOverdue now batch tie).1 := by
  rw [findPendingByMemo_eq_iff hp, mem_expireOverdue_iff hb hp, pending_eq_not_overdue hw,
    Bool.not_eq_true, Bool.not_eq_true']

theorem listed_iff_found : rowToPayment p ∈ db.listPending now tie ↔
    db.findPendingByMemo now p.memo = some (rowToPayment p) := by
  rw [findPendingByMemo_iff_listPending]
  exact (and_iff_left rfl).symm

/-- A text that `strftime` wrote decides as its instant does. -/
theorem found_iff_before {t : ℤ} (hp : p ∈ db.payments.rows) (hw : p.status.watchable = true)
    (hnow : InRange now) (ht : InRange t) (he : p.expiresAt = strftime t) :
    db.findPendingByMemo now p.memo = some (rowToPayment p) ↔ now < t := by
  rw [findPendingByMemo_eq_iff hp, pending_iff, he, strftime_lt_iff hnow ht]
  exact and_iff_right hw

end

/-- Texts order as times do, so a watchable intent is found or swept, one of the two, and an intent
whose expiry `strftime` wrote is found as long as its expiry lies ahead. -/
theorem watchable_until_expiry :
    (∀ s t, InRange s → InRange t →
      (strftime s < strftime t ↔ s < t) ∧ (strftime s = strftime t ↔ s = t)) ∧
    ∀ (db : Db) (p : Payment) (now batch : ℤ) (tie tie' : String → ℕ), p ∈ db.payments.rows →
      p.status.watchable = true → EnoughBatch now batch db →
      (db.findPendingByMemo now p.memo = some (rowToPayment p) ↔
        rowToPayment (expireRow now p) ∉ (db.expireOverdue now batch tie).1) ∧
      (rowToPayment p ∈ db.listPending now tie' ↔
        db.findPendingByMemo now p.memo = some (rowToPayment p)) ∧
      ∀ t, InRange now → InRange t → p.expiresAt = strftime t →
        (db.findPendingByMemo now p.memo = some (rowToPayment p) ↔ now < t) := by
  constructor
  · intro s t hs ht
    exact ⟨strftime_lt_iff hs ht, strftime_eq_iff hs ht⟩
  · intro db p now batch tie tie' hp hw hb
    refine ⟨found_iff_not_swept hp hw hb, listed_iff_found, ?_⟩
    intro t hnow ht he
    exact found_iff_before hp hw hnow ht he

namespace Sample

def intentUntil (expiresAt : String) : Payment :=
  ⟨"p1", "m", "G", "MEMO", "1.0000000", "XLM", none, .pending, none, none, none,
    "2026-02-28T23:00:00Z", "2026-02-28T23:00:00Z", expiresAt⟩

def oneIntent (expiresAt : String) : Db :=
  { Db.empty with payments := ⟨[intentUntil expiresAt], by simp⟩ }

theorem mem_oneIntent (expiresAt : String) :
    intentUntil expiresAt ∈ (oneIntent expiresAt).payments.rows := List.mem_singleton_self _

end Sample

/-- An intent is found one second before its expiry, and swept at its expiry. -/
theorem watchable_until_march :
    (Sample.oneIntent "2026-03-01T00:00:00Z").findPendingByMemo 1772323199 "MEMO" =
        some (rowToPayment (Sample.intentUntil "2026-03-01T00:00:00Z")) ∧
      rowToPayment (expireRow 1772323200 (Sample.intentUntil "2026-03-01T00:00:00Z")) ∈
        ((Sample.oneIntent "2026-03-01T00:00:00Z").expireOverdue 1772323200 1 (fun _ => 0)).1 := by
  have hmem := Sample.mem_oneIntent "2026-03-01T00:00:00Z"
  have hexpires : (Sample.intentUntil "2026-03-01T00:00:00Z").expiresAt = strftime 1772323200 := by
    decide
  have hbefore := watchable_until_expiry.2 _ _ 1772323199 1 (fun _ => 0) (fun _ => 0) hmem rfl
    (by decide)
  have hat := watchable_until_expiry.2 _ _ 1772323200 1 (fun _ => 0) (fun _ => 0) hmem rfl
    (by decide)
  constructor
  · exact (hbefore.2.2 1772323200 (by decide) (by decide) hexpires).mpr (by decide)
  · by_contra hleft
    have hlt := (hat.2.2 1772323200 (by decide) (by decide) hexpires).mp (hat.1.mpr hleft)
    exact absurd hlt (by decide)

/-- An expiry on 30 February has the form of the pattern, and SQLite takes it for 2 March. The
intent is no longer found on 1 March. -/
theorem swept_before_expiry :
    ¬ ∀ (db : Db) (p : Payment) (now t : ℤ), p ∈ db.payments.rows → p.status.watchable = true →
      hasTsForm p.expiresAt = true → unixTime p.expiresAt = some t → InRange now → InRange t →
      (db.findPendingByMemo now p.memo = some (rowToPayment p) ↔ now < t) := by
  intro h
  have hmem := Sample.mem_oneIntent "2026-02-30T00:00:00Z"
  have hfound := (h _ _ 1772323200 1772409600 hmem rfl (by decide) (by decide) (by decide)
    (by decide)).mpr (by decide)
  exact absurd hfound (by decide)

end Db
end StellarGate
