import StellarGate.Db.Schema

/-! The SQL statements of `src/db.rs`, one definition a statement. `now` is the clock
SQLite reads; a result of `none` is an error of the statement. -/
namespace StellarGate
namespace Db
open Base

def findPendingByMemo (now : ℤ) (memo : String) (db : Db) : Option Payment :=
  (db.payments.rows.find? fun p =>
    p.memo = memo && p.status.watchable && strftime now < p.expiresAt).map rowToPayment

def getPayment (id : String) (db : Db) : Option Payment :=
  (db.payments.rows.find? (·.id = id)).map rowToPayment

def memoExists (memo : String) (db : Db) : Bool :=
  db.payments.rows.any (·.memo = memo)

/-- The rows of `processed_transactions` for one payment. -/
def credits (id : String) (db : Db) : List ProcessedTx :=
  db.processedTransactions.rows.filter (·.paymentId = id)

/-- The exact total of the rows of `processed_transactions` for one payment. -/
def creditSum (id : String) (db : Db) : ℤ := ((db.credits id).map (·.amountStroops)).sum

/-- `sum_processed_stroops`. SQLite's `SUM` fails on integer overflow; the recorded
amounts are positive, so that is an overflow of the total. -/
def sumProcessedStroops (id : String) (db : Db) : Option ℤ :=
  if db.creditSum id ≤ i64Max then some (db.creditSum id) else none

def recordProcessedTx (now : ℤ) (paymentId txHash : String) (amountStroops : ℤ) (db : Db) :
    Bool × Db :=
  let r := db.processedTransactions.insertOrIgnore
    ⟨paymentId, txHash, amountStroops, strftime now⟩
  (r.1, { db with processedTransactions := r.2 })

/-- The columns `update_payment_status` sets. -/
def settleRow (now : ℤ) (status : PaymentStatus) (txHash paidAmount : String) (p : Payment) :
    Payment :=
  { p with status, txHash := some txHash, paidAmount := some paidAmount, updatedAt := strftime now }

theorem settleRow_keys (now : ℤ) (status : PaymentStatus) (txHash paidAmount : String) :
    ∀ k ∈ [Payment.id, Payment.memo], ∀ p, k (settleRow now status txHash paidAmount p) = k p := by
  simp [settleRow]

/-- `update_payment_status`, with whether a row was updated. -/
def updatePaymentStatus (now : ℤ) (id : String) (status : PaymentStatus)
    (txHash paidAmount : String) (db : Db) : Bool × Db :=
  let hit := fun p : Payment => p.id = id && p.status.watchable
  let set := settleRow now status txHash paidAmount
  let payments := db.payments.update hit set (settleRow_keys now status txHash paidAmount)
  (db.payments.rows.countP hit == 1, { db with payments })

/-- The `WHERE` clause of the sweep. -/
def overdue (now : ℤ) (p : Payment) : Bool :=
  p.status.watchable && p.expiresAt ≤ strftime now

/-- `ORDER BY created_at ASC`, equal values in the order of `tie`. -/
def sweepOrder (tie : String → ℕ) (p q : Payment) : Prop :=
  p.createdAt < q.createdAt ∨ (p.createdAt = q.createdAt ∧ tie p.id ≤ tie q.id)

instance (tie : String → ℕ) : DecidableRel (sweepOrder tie) := fun p q => by
  unfold sweepOrder
  infer_instance

/-- `LIMIT`: a negative limit is no limit. -/
def limit {α : Type*} (n : ℤ) (rows : List α) : List α :=
  if n < 0 then rows else rows.take n.toNat

def expireRow (now : ℤ) (p : Payment) : Payment :=
  { p with status := .expired, updatedAt := strftime now }

theorem expireRow_keys (now : ℤ) :
    ∀ k ∈ [Payment.id, Payment.memo], ∀ p, k (expireRow now p) = k p := by
  simp [expireRow]

/-- The ids the subquery of `expire_overdue` selects. -/
def expireIds (now : ℤ) (batch : ℤ) (tie : String → ℕ) (db : Db) : List String :=
  (limit batch ((db.payments.rows.filter (overdue now)).insertionSort (sweepOrder tie))).map
    Payment.id

/-- `expire_overdue`, with the rows it returns. `tie` settles the two orders SQL leaves
open: rows with equal `created_at`, and the rows of `RETURNING`. -/
def expireOverdue (now : ℤ) (batch : ℤ) (tie : String → ℕ) (db : Db) : List Payment × Db :=
  let ids := db.expireIds now batch tie
  let hit := fun p : Payment => ids.contains p.id
  ((((db.payments.rows.filter hit).map (expireRow now)).insertionSort
      fun p q => tie p.id ≤ tie q.id).map rowToPayment,
    { db with payments := db.payments.update hit (expireRow now) (expireRow_keys now) })

/-- The fields of an `INSERT INTO payments`. -/
structure NewPayment where
  id : String
  merchantId : String
  destinationAddress : String
  memo : String
  amount : String
  asset : String
  assetIssuer : Option String
  webhookUrl : Option String
  ttlSecs : ℤ
  deriving DecidableEq, Repr

/-- The row the `INSERT` of `create_payment` writes, columns with a default included. -/
def NewPayment.row (now : ℤ) (expiresAt : String) (new : NewPayment) (canonicalAmount : String) :
    Payment :=
  { id := new.id, merchantId := new.merchantId, destinationAddress := new.destinationAddress,
    memo := new.memo, amount := canonicalAmount, asset := new.asset,
    assetIssuer := new.assetIssuer, status := .pending, webhookUrl := new.webhookUrl,
    txHash := none, paidAmount := none, createdAt := strftime now, updatedAt := strftime now,
    expiresAt }

/-- The `INSERT` of `create_payment`. It fails on an invalid amount, on an expiry
outside the range of SQLite's dates and on a taken id or memo. -/
def insertPayment (now : ℤ) (new : NewPayment) (db : Db) : Option Db :=
  (parseStroops new.amount).bind fun stroops =>
    (strftimeChecked (now + new.ttlSecs)).bind fun expiresAt =>
      (db.payments.insert (new.row now expiresAt (stroopsToString stroops))).map
        fun payments => { db with payments }

def findPaymentIdByIdempotencyKey (merchantId key : String) (db : Db) : Option String :=
  (db.idempotencyKeys.rows.find? (·.key = (merchantId, key))).map (·.paymentId)

/-- The `INSERT … ON CONFLICT DO NOTHING` of `save_idempotency_key`. -/
def insertIdempotencyKey (now : ℤ) (merchantId key paymentId : String) (db : Db) : Db :=
  { db with idempotencyKeys :=
      (db.idempotencyKeys.insertOrIgnore ⟨merchantId, key, paymentId, strftime now⟩).2 }

/-- The clean-up of a mapping whose payment is missing, in `create`. -/
def deleteIdempotencyKey (merchantId key : String) (db : Db) : Db :=
  { db with idempotencyKeys := db.idempotencyKeys.delete fun r => r.key = (merchantId, key) }

def saveWebhookDelivery (now : ℤ) (id paymentId url payload eventType : String) (db : Db) :
    Option Db :=
  (db.webhookDeliveries.insert
    { id, paymentId, url, payload, eventType := some eventType, status := .pending, attempts := 0,
      lastAttempt := none, acknowledgedAt := none, createdAt := strftime now }).map
    fun webhookDeliveries => { db with webhookDeliveries }

/-- The columns `update_webhook_delivery` sets. -/
def deliveryRow (now : ℤ) (status : DeliveryStatus) (attempts : ℤ) (d : WebhookDelivery) :
    WebhookDelivery :=
  { d with status, attempts, lastAttempt := some (strftime now) }

theorem deliveryRow_keys (now : ℤ) (status : DeliveryStatus) (attempts : ℤ) :
    ∀ k ∈ [WebhookDelivery.id], ∀ d, k (deliveryRow now status attempts d) = k d := by
  simp [deliveryRow]

def updateWebhookDelivery (now : ℤ) (id : String) (status : DeliveryStatus) (attempts : ℤ)
    (db : Db) : Db :=
  let set := deliveryRow now status attempts
  let webhookDeliveries :=
    db.webhookDeliveries.update (·.id = id) set (deliveryRow_keys now status attempts)
  { db with webhookDeliveries }

/-! What each statement reads and writes. -/
section
variable {db db' : Db} {now : ℤ} {id memo txHash paid : String} {p q : Payment} {n : ℤ}

theorem eq_of_id (hp : p ∈ db.payments.rows) (hq : q ∈ db.payments.rows) (h : p.id = q.id) :
    p = q :=
  Table.eq_of_key (k := Payment.id) (by simp) hp hq h

theorem eq_of_memo (hp : p ∈ db.payments.rows) (hq : q ∈ db.payments.rows)
    (h : p.memo = q.memo) : p = q :=
  Table.eq_of_key (k := Payment.memo) (by simp) hp hq h

theorem findPendingByMemo_eq_some (h : db.findPendingByMemo now memo = some q) :
    ∃ p ∈ db.payments.rows, q = rowToPayment p ∧ p.memo = memo ∧ p.status.watchable = true ∧
      strftime now < p.expiresAt := by
  obtain ⟨p, hp, rfl⟩ := Option.map_eq_some_iff.mp h
  have hc := List.find?_some hp
  simp only [Bool.and_eq_true, decide_eq_true_eq] at hc
  exact ⟨p, List.mem_of_find?_eq_some hp, rfl, hc.1.1, hc.1.2, hc.2⟩

theorem findPendingByMemo_of_mem (hp : p ∈ db.payments.rows) (hw : p.status.watchable = true)
    (he : strftime now < p.expiresAt) :
    db.findPendingByMemo now p.memo = some (rowToPayment p) := by
  cases hf : db.payments.rows.find? fun q =>
      q.memo = p.memo && q.status.watchable && strftime now < q.expiresAt with
  | none =>
    have := List.find?_eq_none.mp hf p hp
    simp [hw, he] at this
  | some q =>
    have hc := List.find?_some hf
    simp only [Bool.and_eq_true, decide_eq_true_eq] at hc
    have hq := eq_of_memo (List.mem_of_find?_eq_some hf) hp hc.1.1
    simp only [findPendingByMemo]
    rw [hf, hq]
    rfl

theorem getPayment_eq_some (h : db.getPayment id = some q) :
    ∃ p ∈ db.payments.rows, q = rowToPayment p ∧ p.id = id := by
  obtain ⟨p, hp, rfl⟩ := Option.map_eq_some_iff.mp h
  exact ⟨p, List.mem_of_find?_eq_some hp, rfl, by simpa using List.find?_some hp⟩

theorem getPayment_of_mem (hp : p ∈ db.payments.rows) :
    db.getPayment p.id = some (rowToPayment p) := by
  cases hf : db.payments.rows.find? (·.id = p.id) with
  | none =>
    have := List.find?_eq_none.mp hf p hp
    simp at this
  | some q =>
    have hq := eq_of_id (List.mem_of_find?_eq_some hf) hp (by simpa using List.find?_some hf)
    simp only [getPayment]
    rw [hf, hq]
    rfl

theorem mem_credits {r : ProcessedTx} :
    r ∈ db.credits id ↔ r ∈ db.processedTransactions.rows ∧ r.paymentId = id := by
  simp [credits]

theorem sumProcessedStroops_eq_some (h : db.sumProcessedStroops id = some n) :
    n = db.creditSum id ∧ n ≤ i64Max := by
  unfold sumProcessedStroops at h
  split_ifs at h with hm
  cases h
  exact ⟨rfl, hm⟩

theorem recordProcessedTx_true (h : db.recordProcessedTx now id txHash n = (true, db')) :
    ∃ t, db' = { db with processedTransactions := t } ∧
      t.rows = db.processedTransactions.rows ++ [⟨id, txHash, n, strftime now⟩] ∧
      ∀ r ∈ db.processedTransactions.rows, r.key ≠ (id, txHash) := by
  obtain ⟨h1, h2⟩ := Prod.mk.inj h
  obtain ⟨hrows, hfresh⟩ := Table.insertOrIgnore_true h1
  refine ⟨_, h2.symm, hrows, fun r hr he => ?_⟩
  exact hfresh ProcessedTx.key (by simp) (List.mem_map.mpr ⟨r, hr, he⟩)

theorem recordProcessedTx_false (h : db.recordProcessedTx now id txHash n = (false, db')) :
    db' = db ∧ ∃ r ∈ db.credits id, r.txHash = txHash := by
  obtain ⟨h1, h2⟩ := Prod.mk.inj h
  obtain ⟨hsame, k, hk, hm⟩ := Table.insertOrIgnore_false h1
  rw [hsame] at h2
  refine ⟨h2.symm, ?_⟩
  simp only [List.mem_singleton] at hk
  subst hk
  obtain ⟨r, hr, hkey⟩ := List.mem_map.mp hm
  exact ⟨r, mem_credits.mpr ⟨hr, congrArg Prod.fst hkey⟩, congrArg Prod.snd hkey⟩

theorem updatePaymentStatus_true {status : PaymentStatus}
    (h : db.updatePaymentStatus now id status txHash paid = (true, db')) :
    (∃ p ∈ db.payments.rows, p.id = id ∧ p.status.watchable = true) ∧
    ∃ t, db' = { db with payments := t } ∧ t.rows = db.payments.rows.map fun p =>
      if p.id = id then settleRow now status txHash paid p else p := by
  obtain ⟨h1, h2⟩ := Prod.mk.inj h
  have hpos : 0 < db.payments.rows.countP fun p => p.id = id && p.status.watchable := by
    have := beq_iff_eq.mp h1
    omega
  obtain ⟨p, hp, hit⟩ := List.countP_pos_iff.mp hpos
  simp only [Bool.and_eq_true, decide_eq_true_eq] at hit
  refine ⟨⟨p, hp, hit⟩, _, h2.symm, ?_⟩
  rw [Table.update_rows]
  apply List.map_congr_left
  intro q hq
  by_cases he : q.id = id
  · have := eq_of_id hq hp (he.trans hit.1.symm)
    subst this
    simp [he, hit.2]
  · simp [he]

theorem updatePaymentStatus_false {status : PaymentStatus}
    (h : db.updatePaymentStatus now id status txHash paid = (false, db')) :
    db' = db ∧ ∀ p ∈ db.payments.rows, p.id = id → p.status.watchable = false := by
  obtain ⟨h1, h2⟩ := Prod.mk.inj h
  have hle : (db.payments.rows.countP fun p => p.id = id && p.status.watchable) ≤ 1 :=
    Table.countP_key_le_one (k := Payment.id) (by simp) id fun r hr => by simp_all
  have hzero : (db.payments.rows.countP fun p => p.id = id && p.status.watchable) = 0 := by
    have := beq_eq_false_iff_ne.mp h1
    omega
  have hnone := List.countP_eq_zero.mp hzero
  refine ⟨?_, fun p hp he => by simpa [he] using hnone p hp⟩
  rw [← h2, Table.update_eq_self fun p hp => by simpa using hnone p hp]

theorem limit_sublist {α : Type*} (k : ℤ) (xs : List α) : (limit k xs).Sublist xs := by
  unfold limit
  split_ifs
  · exact List.Sublist.refl _
  · exact List.take_sublist _ _

theorem length_limit {α : Type*} {k : ℤ} (hk : 0 ≤ k) (xs : List α) :
    (limit k xs).length = min k.toNat xs.length := by
  unfold limit
  rw [if_neg (by omega), List.length_take]

theorem mem_limit {α : Type*} {k : ℤ} {xs : List α} {x : α} (h : x ∈ limit k xs) : x ∈ xs :=
  (limit_sublist k xs).subset h

section Expire
variable {batch : ℤ} {tie : String → ℕ}

theorem overdue_of_mem_expireIds (hp : p ∈ db.payments.rows)
    (h : p.id ∈ db.expireIds now batch tie) : overdue now p = true := by
  obtain ⟨q, hq, he⟩ := List.mem_map.mp h
  have hq' := List.mem_filter.mp ((List.mem_insertionSort _).mp (mem_limit hq))
  rw [← eq_of_id hq'.1 hp he]
  exact hq'.2

theorem expireOverdue_db {rows : List Payment} (h : db.expireOverdue now batch tie = (rows, db')) :
    ∃ t, db' = { db with payments := t } ∧ t.rows = db.payments.rows.map fun p =>
      if p.id ∈ db.expireIds now batch tie then expireRow now p else p := by
  obtain ⟨-, h2⟩ := Prod.mk.inj h
  refine ⟨_, h2.symm, ?_⟩
  rw [Table.update_rows]
  simp

variable (db now batch tie) in
theorem expireOverdue_perm :
    (db.expireOverdue now batch tie).1.Perm
      ((db.payments.rows.filter fun p => p.id ∈ db.expireIds now batch tie).map fun p =>
        rowToPayment (expireRow now p)) := by
  have hp := (List.perm_insertionSort (fun p q : Payment => tie p.id ≤ tie q.id)
    ((db.payments.rows.filter fun p => (db.expireIds now batch tie).contains p.id).map
      (expireRow now))).map rowToPayment
  simpa [expireOverdue, Function.comp_def] using hp

end Expire
end

end Db
end StellarGate
