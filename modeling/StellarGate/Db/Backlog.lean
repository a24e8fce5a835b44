import StellarGate.Base.Batch
import StellarGate.Db.Statements
import Mathlib.Data.String.Basic

/-! The backlog of overdue intents: what calls of `expire_overdue`, one after the other at
one time, make of it. -/
namespace StellarGate
namespace Db
open Base

/-- One call of `expire_overdue`: the database it finds, the rows it returns and
the database it leaves. -/
structure SweepCall where
  before : Db
  returned : List Payment
  after : Db

def sweepCall (now batch : ℤ) (tie : String → ℕ) (db : Db) : SweepCall :=
  let r := db.expireOverdue now batch tie
  ⟨db, r.1, r.2⟩

def sweepCalls (now batch : ℤ) : List (String → ℕ) → Db → List SweepCall
  | [], _ => []
  | tie :: ties, db =>
    let c := sweepCall now batch tie db
    c :: sweepCalls now batch ties c.after

def afterSweeps (now batch : ℤ) (ties : List (String → ℕ)) (db : Db) : Db :=
  ties.foldl (fun db tie => (db.expireOverdue now batch tie).2) db

def SweepCall.transitioned (c : SweepCall) : List Payment :=
  c.after.payments.rows.filter fun p => p ∉ c.before.payments.rows

def expire (now : ℤ) (p : Payment) : Option Payment := some (expireRow now p)

/-- The overdue intents `swept` have been expired, the oldest first, and
nothing else has changed. -/
structure SweptOldest (now : ℤ) (db : Db) (swept : List Payment) (final : Db) : Prop where
  once : (swept.map Payment.id).Nodup
  overdue : ∀ q ∈ swept, ∃ p ∈ db.payments.rows, q = expireRow now p ∧ overdue now p = true
  takes : Takes (Db.overdue now) (expire now) (fun p => (swept.map Payment.id).contains p.id)
    db.payments.rows final.payments.rows
  others : final = { db with payments := final.payments }
  oldest : ∀ q ∈ swept, ∀ p ∈ final.payments.rows, Db.overdue now p = true →
    ¬ p.createdAt < q.createdAt

section Call
variable {db : Db} {now batch : ℤ} {tie : String → ℕ} {p q : Payment}

instance (tie : String → ℕ) : Std.Total (sweepOrder tie) where
  total p q := by
    unfold sweepOrder
    rcases lt_trichotomy p.createdAt q.createdAt with hlt | heq | hgt
    · exact .inl (.inl hlt)
    · rcases le_total (tie p.id) (tie q.id) with hle | hle
      · exact .inl (.inr ⟨heq, hle⟩)
      · exact .inr (.inr ⟨heq.symm, hle⟩)
    · exact .inr (.inl hgt)

instance (tie : String → ℕ) : IsTrans Payment (sweepOrder tie) where
  trans p q r := by
    unfold sweepOrder
    rintro (hpq | ⟨hpq, hle⟩) (hqr | ⟨hqr, hle'⟩)
    · exact .inl (hpq.trans hqr)
    · exact .inl (hqr ▸ hpq)
    · exact .inl (hpq ▸ hqr)
    · exact .inr ⟨hpq.trans hqr, hle.trans hle'⟩

def sweepBatch (now batch : ℤ) (tie : String → ℕ) (db : Db) : List Payment :=
  limit batch ((db.payments.rows.filter (Db.overdue now)).insertionSort (sweepOrder tie))

theorem expireIds_eq : db.expireIds now batch tie = (db.sweepBatch now batch tie).map Payment.id :=
  rfl

theorem mem_of_mem_sweepBatch (h : p ∈ db.sweepBatch now batch tie) :
    p ∈ db.payments.rows ∧ Db.overdue now p = true :=
  List.mem_filter.mp ((List.mem_insertionSort _).mp (mem_limit h))

theorem nodup_rows (db : Db) : (db.payments.rows.map Payment.id).Nodup :=
  db.payments.unique _ (by simp)

theorem nodup_sweepBatch : (db.sweepBatch now batch tie).Nodup := by
  have hsorted := (List.perm_insertionSort (sweepOrder tie)
    (db.payments.rows.filter (Db.overdue now))).symm
  exact (hsorted.nodup ((List.Nodup.of_map _ db.nodup_rows).filter _)).sublist (limit_sublist _ _)

theorem countP_expireIds (hb : 0 < batch) :
    db.payments.rows.countP (fun p => (db.expireIds now batch tie).contains p.id) =
      min batch.toNat (db.payments.rows.countP (Db.overdue now)) := by
  rw [expireIds_eq, countP_contains db.nodup_rows (fun r hr => (mem_of_mem_sweepBatch hr).1)
    nodup_sweepBatch, sweepBatch, length_limit hb.le, List.length_insertionSort,
    List.countP_eq_length_filter]

theorem expireOverdue_rows :
    (db.expireOverdue now batch tie).2.payments.rows = db.payments.rows.map fun p =>
    if (db.expireIds now batch tie).contains p.id then expireRow now p else p := by
  unfold expireOverdue
  rw [Table.update_rows]

variable (db now batch tie) in
theorem takes_expireOverdue : Takes (Db.overdue now) (expire now)
    (fun p => (db.expireIds now batch tie).contains p.id) db.payments.rows
    (db.expireOverdue now batch tie).2.payments.rows := by
  constructor
  · intro p hp ht
    exact overdue_of_mem_expireIds hp (List.contains_iff_mem.mp ht)
  · rw [expireOverdue_rows]
    exact (filterMap_change _ _ _).symm

theorem overdue_expireRow (p : Payment) : Db.overdue now (expireRow now p) = false := rfl

theorem expire_not_overdue : ∀ r r', expire now r = some r' → Db.overdue now r' = false := by
  rintro r r' h
  cases h
  exact overdue_expireRow r

theorem mem_sweepBatch_of_id (hp : p ∈ db.payments.rows)
    (h : (db.expireIds now batch tie).contains p.id = true) :
    p ∈ db.sweepBatch now batch tie := by
  obtain ⟨x, hx, he⟩ := List.mem_map.mp (List.contains_iff_mem.mp h)
  rw [← eq_of_id (mem_of_mem_sweepBatch hx).1 hp he]
  exact hx

/-- A call leaves no older intent behind. -/
theorem sweepBatch_oldest (hp : p ∈ db.sweepBatch now batch tie) (hq : q ∈ db.payments.rows)
    (hdue : Db.overdue now q = true) (hleft : q ∉ db.sweepBatch now batch tie) :
    ¬ q.createdAt < p.createdAt := by
  have hsorted := List.pairwise_insertionSort (sweepOrder tie)
    (db.payments.rows.filter (Db.overdue now))
  have hmem : q ∈ (db.payments.rows.filter (Db.overdue now)).insertionSort (sweepOrder tie) :=
    (List.mem_insertionSort _).mpr (List.mem_filter.mpr ⟨hq, hdue⟩)
  unfold sweepBatch limit at hp hleft
  split_ifs at hp hleft
  · exact absurd hmem hleft
  rw [← List.take_append_drop batch.toNat
    ((db.payments.rows.filter (Db.overdue now)).insertionSort _)] at hsorted hmem
  have hq := (List.mem_append.mp hmem).resolve_left hleft
  have hle := (List.pairwise_append.mp hsorted).2.2 p hp q hq
  rcases hle with hlt | ⟨heq, -⟩
  · exact hlt.asymm
  · rw [heq]
    exact lt_irrefl _

theorem transitioned_eq : (sweepCall now batch tie db).transitioned =
    (db.payments.rows.filter fun p => (db.expireIds now batch tie).contains p.id).map
    (expireRow now) := by
  have hnew : ∀ p ∈ db.payments.rows,
      decide ((if (db.expireIds now batch tie).contains p.id then expireRow now p else p) ∉
        db.payments.rows) = (db.expireIds now batch tie).contains p.id := by
    intro p hp
    by_cases ht : (db.expireIds now batch tie).contains p.id = true
    · rw [if_pos ht, ht, decide_eq_true_iff]
      intro hmem
      have hsame := eq_of_id hmem hp rfl
      have hdue := overdue_of_mem_expireIds hp (List.contains_iff_mem.mp ht)
      rw [← hsame, overdue_expireRow] at hdue
      cases hdue
    · have ht' : (db.expireIds now batch tie).contains p.id = false := by simpa using ht
      rw [if_neg ht, ht', decide_eq_false_iff_not, not_not]
      exact hp
  unfold SweepCall.transitioned sweepCall
  simp only
  rw [expireOverdue_rows, List.filter_map]
  have hfilter : db.payments.rows.filter ((fun q => decide (q ∉ db.payments.rows)) ∘ fun p =>
      if (db.expireIds now batch tie).contains p.id then expireRow now p else p) =
        db.payments.rows.filter fun p => (db.expireIds now batch tie).contains p.id :=
    List.filter_congr hnew
  rw [hfilter]
  apply List.map_congr_left
  intro p hp
  rw [if_pos (List.mem_filter.mp hp).2]

theorem mem_transitioned (h : q ∈ (sweepCall now batch tie db).transitioned) :
    ∃ p ∈ db.payments.rows, (db.expireIds now batch tie).contains p.id = true ∧
      q = expireRow now p := by
  rw [transitioned_eq] at h
  obtain ⟨p, hp, rfl⟩ := List.mem_map.mp h
  have hp := List.mem_filter.mp hp
  exact ⟨p, hp.1, hp.2, rfl⟩

variable (db now batch tie) in
theorem returned_perm : (sweepCall now batch tie db).returned.Perm
    ((sweepCall now batch tie db).transitioned.map rowToPayment) := by
  have hreturned : (sweepCall now batch tie db).returned = (db.expireOverdue now batch tie).1 := rfl
  have hperm := expireOverdue_perm db now batch tie
  rw [hreturned, transitioned_eq, List.map_map]
  simpa [Function.comp_def] using hperm

theorem length_transitioned (hb : 0 < batch) : (sweepCall now batch tie db).transitioned.length =
    min batch.toNat (db.payments.rows.countP (Db.overdue now)) := by
  rw [transitioned_eq, List.length_map, ← List.countP_eq_length_filter, countP_expireIds hb]

theorem contains_transitioned (hp : p ∈ db.payments.rows) :
    ((sweepCall now batch tie db).transitioned.map Payment.id).contains p.id =
      (db.expireIds now batch tie).contains p.id := by
  rw [transitioned_eq, List.map_map, Bool.eq_iff_iff, List.contains_iff_mem]
  constructor
  · intro hmem
    obtain ⟨x, hx, he⟩ := List.mem_map.mp hmem
    have he : x.id = p.id := he
    rw [← he]
    exact (List.mem_filter.mp hx).2
  · intro ht
    exact List.mem_map.mpr ⟨p, List.mem_filter.mpr ⟨hp, ht⟩, rfl⟩

end Call

section Calls
variable {db final : Db} {now batch : ℤ} {tie : String → ℕ} {rest : List Payment} {q : Payment}

theorem SweptOldest.refl (now : ℤ) (db : Db) : SweptOldest now db [] db where
  once := List.nodup_nil
  overdue _ h := nomatch h
  takes := Takes.refl _ _ _
  others := rfl
  oldest _ h := nomatch h

/-- What later calls expire, a first call has left alone. -/
theorem SweptOldest.spared (h : SweptOldest now (sweepCall now batch tie db).after rest final)
    (hq : q ∈ rest) :
    ∃ p, (p ∈ db.payments.rows ∧ (db.expireIds now batch tie).contains p.id = false) ∧
      q = expireRow now p ∧ Db.overdue now p = true := by
  obtain ⟨p, hp, heq, hdue⟩ := h.overdue q hq
  exact ⟨p, (takes_expireOverdue db now batch tie).mem_inv expire_not_overdue hp hdue, heq, hdue⟩

theorem SweptOldest.takes_cons (h : SweptOldest now (sweepCall now batch tie db).after rest final) :
    Takes (Db.overdue now) (expire now)
      (fun p => (((sweepCall now batch tie db).transitioned ++ rest).map Payment.id).contains p.id)
      db.payments.rows final.payments.rows := by
  apply ((takes_expireOverdue db now batch tie).trans h.takes expire_not_overdue).congr
  intro p hp
  rw [List.map_append, List.contains_append, contains_transitioned hp]

theorem SweptOldest.once_cons (h : SweptOldest now (sweepCall now batch tie db).after rest final) :
    (((sweepCall now batch tie db).transitioned ++ rest).map Payment.id).Nodup := by
  rw [List.map_append, List.nodup_append']
  refine ⟨?_, h.once, ?_⟩
  · rw [transitioned_eq, List.map_map]
    exact db.nodup_rows.sublist (List.filter_sublist.map Payment.id)
  · intro id hid hid'
    obtain ⟨q, hq, rfl⟩ := List.mem_map.mp hid'
    obtain ⟨p, ⟨hp, hleft⟩, rfl, -⟩ := h.spared hq
    have hid : p.id ∈ _ := hid
    rw [← List.contains_iff_mem, contains_transitioned hp, hleft] at hid
    cases hid

theorem SweptOldest.cons (h : SweptOldest now (sweepCall now batch tie db).after rest final) :
    SweptOldest now db ((sweepCall now batch tie db).transitioned ++ rest) final := by
  constructor
  · exact h.once_cons
  · intro q hq
    rcases List.mem_append.mp hq with hq | hq
    · obtain ⟨p, hp, hpicked, heq⟩ := mem_transitioned hq
      exact ⟨p, hp, heq, (takes_expireOverdue db now batch tie).meets p hp hpicked⟩
    · obtain ⟨p, ⟨hp, -⟩, heq, hdue⟩ := h.spared hq
      exact ⟨p, hp, heq, hdue⟩
  · exact h.takes_cons
  · rw [h.others]
    rfl
  · intro q hq r hr hdue
    rcases List.mem_append.mp hq with hq | hq
    · have hr := h.takes_cons.mem_inv expire_not_overdue hr hdue
      rw [List.map_append, List.contains_append, Bool.or_eq_false_iff,
        contains_transitioned hr.1] at hr
      obtain ⟨p, hp, hpicked, rfl⟩ := mem_transitioned hq
      apply sweepBatch_oldest (mem_sweepBatch_of_id hp hpicked) hr.1 hdue
      intro hmem
      have hid : r.id ∈ db.expireIds now batch tie := List.mem_map.mpr ⟨r, hmem, rfl⟩
      rw [← List.contains_iff_mem, hr.2.1] at hid
      cases hid
    · exact h.oldest q hq r hr hdue

theorem sweptOldest_sweepCalls (ties : List (String → ℕ)) (db : Db) :
    SweptOldest now db ((sweepCalls now batch ties db).flatMap SweepCall.transitioned)
      (afterSweeps now batch ties db) := by
  induction ties generalizing db with
  | nil => exact SweptOldest.refl now db
  | cons tie ties ih => exact (ih _).cons

theorem length_sweepCalls (hb : 0 < batch) (ties : List (String → ℕ)) (db : Db) :
    ((sweepCalls now batch ties db).flatMap SweepCall.transitioned).length =
      min (ties.length * batch.toNat) (db.payments.rows.countP (Db.overdue now)) := by
  induction ties generalizing db with
  | nil => simp [sweepCalls]
  | cons tie ties ih =>
    have hcount := (takes_expireOverdue db now batch tie).countP expire_not_overdue
    rw [countP_expireIds hb] at hcount
    have hafter : (sweepCall now batch tie db).after = (db.expireOverdue now batch tie).2 := rfl
    unfold sweepCalls
    simp only
    rw [List.flatMap_cons, List.length_append, length_transitioned hb, ih, hafter, List.length_cons,
      Nat.succ_mul]
    omega

theorem returned_sweepCalls {ties : List (String → ℕ)} {c : SweepCall}
    (h : c ∈ sweepCalls now batch ties db) :
    c.returned.Perm (c.transitioned.map rowToPayment) ∧ ∀ q ∈ c.returned, q.status = .expired := by
  induction ties generalizing db with
  | nil => cases h
  | cons tie ties ih =>
    rcases List.mem_cons.mp h with rfl | h
    · have hperm := returned_perm db now batch tie
      refine ⟨hperm, ?_⟩
      intro q hq
      obtain ⟨x, hx, rfl⟩ := List.mem_map.mp (hperm.mem_iff.mp hq)
      obtain ⟨p, -, -, rfl⟩ := mem_transitioned hx
      rfl
    · exact ih h

/-- Calls of `expire_overdue` drain the backlog of overdue intents, the oldest first and each once,
and report what they change. -/
theorem expireOverdue_drains (now batch : ℤ) (hb : 0 < batch) (ties : List (String → ℕ)) (db : Db) :
    let calls := sweepCalls now batch ties db
    let swept := calls.flatMap SweepCall.transitioned
    swept.length = min (ties.length * batch.toNat) (db.payments.rows.countP (Db.overdue now)) ∧
      SweptOldest now db swept (afterSweeps now batch ties db) ∧
      ∀ c ∈ calls, c.returned.Perm (c.transitioned.map rowToPayment) ∧
        ∀ q ∈ c.returned, q.status = .expired :=
  ⟨length_sweepCalls hb ties db, sweptOldest_sweepCalls ties db, fun _ h => returned_sweepCalls h⟩

namespace Sample

def overdueIntent (id createdAt : String) : Payment :=
  ⟨id, "m", "G", id, "1.0000000", "XLM", none, .pending, none, none, none, createdAt, createdAt,
    "2026-04-29T11:00:00Z"⟩

def backlog : Db :=
  { Db.empty with payments := ⟨[overdueIntent "p1" "2026-04-29T10:20:00Z",
    overdueIntent "p2" "2026-04-29T10:10:00Z", overdueIntent "p3" "2026-04-29T10:20:00Z"],
    by decide⟩ }

end Sample

/-- Two calls for two intents each drain a backlog of three. -/
theorem expireOverdue_drains_sample :
    0 < (2 : ℤ) ∧
    let calls := sweepCalls 1777475400 2 [String.length, fun _ => 0] Sample.backlog
    let swept := calls.flatMap SweepCall.transitioned
    swept.length = min (2 * 2) 3 ∧
      SweptOldest 1777475400 Sample.backlog swept
        (afterSweeps 1777475400 2 [String.length, fun _ => 0] Sample.backlog) ∧
      ∀ c ∈ calls, c.returned.Perm (c.transitioned.map rowToPayment) ∧
        ∀ q ∈ c.returned, q.status = .expired :=
  ⟨by decide, expireOverdue_drains 1777475400 2 (by decide) [String.length, fun _ => 0]
    Sample.backlog⟩

end Calls
end Db
end StellarGate
