import StellarGate.Base.Keyset
import StellarGate.Db.Statements
import Mathlib.Data.Prod.Lex
import Mathlib.Data.String.Basic

/-! The queries of `src/db.rs` behind the listing endpoints, newest rows first, and the
statements on single deliveries. -/
namespace StellarGate
open Base

/-- The values of `webhook_deliveries.status` as text. -/
def DeliveryStatus.name : DeliveryStatus → String
  | pending => "pending"
  | delivered => "delivered"
  | failed => "failed"

def rowToWebhookDelivery (d : WebhookDelivery) : WebhookDelivery :=
  { d with createdAt := normalizeTs d.createdAt }

/-- What the listings are ordered by. -/
def Payment.stamp (p : Payment) : String × String := (p.createdAt, p.id)
def WebhookDelivery.stamp (d : WebhookDelivery) : String × String := (d.createdAt, d.id)

/-- `ORDER BY created_at DESC, id DESC`. -/
def newestFirst (a b : String × String) : Prop := b.1 < a.1 ∨ (a.1 = b.1 ∧ b.2 ≤ a.2)

instance : DecidableRel newestFirst := fun a b =>
  inferInstanceAs (Decidable (b.1 < a.1 ∨ (a.1 = b.1 ∧ b.2 ≤ a.2)))

/-- `created_at < ? OR (created_at = ? AND id < ?)`, where the query has a cursor. -/
def beyond (cursor : Option (String × String)) (stamp : String × String) : Bool :=
  match cursor with
  | none => true
  | some (ts, id) => stamp.1 < ts || (stamp.1 = ts && stamp.2 < id)

/-- `status = ?`, where the query has a filter. -/
def hasStatus (status : Option String) (name : String) : Bool :=
  match status with
  | none => true
  | some s => name = s

/-- `SELECT … WHERE p ORDER BY created_at DESC, id DESC`. -/
def selectNewest {ρ : Type} (stamp : ρ → String × String) (p : ρ → Bool) (rows : List ρ) : List ρ :=
  (rows.filter p).insertionSort fun a b => newestFirst (stamp a) (stamp b)

namespace Db

def listPayments (merchantId : String) (status : Option String) (n offset : ℤ) (db : Db) :
    List Payment :=
  (limit n ((selectNewest Payment.stamp
    (fun p => p.merchantId = merchantId && hasStatus status p.status.name)
    db.payments.rows).drop offset.toNat)).map rowToPayment

def countPayments (merchantId : String) (status : Option String) (db : Db) : ℕ :=
  db.payments.rows.countP fun p => p.merchantId = merchantId && hasStatus status p.status.name

def listPaymentsKeyset (merchantId : String) (status : Option String) (n : ℤ)
    (cursor : Option (String × String)) (db : Db) : List Payment :=
  (limit n (selectNewest Payment.stamp
    (fun p => p.merchantId = merchantId && hasStatus status p.status.name && beyond cursor p.stamp)
    db.payments.rows)).map rowToPayment

def listWebhookDeliveriesKeyset (paymentId : String) (status : Option String) (n : ℤ)
    (cursor : Option (String × String)) (db : Db) : List WebhookDelivery :=
  (limit n (selectNewest WebhookDelivery.stamp
    (fun d => d.paymentId = paymentId && hasStatus status d.status.name && beyond cursor d.stamp)
    db.webhookDeliveries.rows)).map rowToWebhookDelivery

/-- A payment of the merchant has the id: the join, or the subquery, that scopes deliveries. -/
def owns (merchantId paymentId : String) (db : Db) : Bool :=
  db.payments.rows.any fun p => p.id = paymentId && p.merchantId = merchantId

def listDeliveriesForMerchant (merchantId status : String) (n : ℤ)
    (cursor : Option (String × String)) (db : Db) : List WebhookDelivery :=
  (limit n (selectNewest WebhookDelivery.stamp
    (fun d => db.owns merchantId d.paymentId && d.status.name = status && beyond cursor d.stamp)
    db.webhookDeliveries.rows)).map rowToWebhookDelivery

def getWebhookDelivery (id : String) (db : Db) : Option WebhookDelivery :=
  (db.webhookDeliveries.rows.find? (·.id = id)).map rowToWebhookDelivery

/-- The columns `requeue_failed_deliveries` sets. -/
def requeueRow (now : ℤ) (d : WebhookDelivery) : WebhookDelivery :=
  { d with status := .pending, attempts := 0, acknowledgedAt := some (strftime now) }

theorem requeueRow_keys (now : ℤ) :
    ∀ k ∈ [WebhookDelivery.id], ∀ d, k (requeueRow now d) = k d := by
  simp [requeueRow]

/-- The `WHERE` clause of `requeue_failed_deliveries`; no ids means all of them. -/
def requeueable (merchantId : String) (ids : List String) (db : Db) (d : WebhookDelivery) : Bool :=
  d.status = .failed && db.owns merchantId d.paymentId && (ids.isEmpty || ids.contains d.id)

/-- `requeue_failed_deliveries`, with the number of rows updated. -/
def requeueFailedDeliveries (now : ℤ) (merchantId : String) (ids : List String) (db : Db) :
    ℕ × Db :=
  let hit := requeueable merchantId ids db
  let webhookDeliveries := db.webhookDeliveries.update hit (requeueRow now) (requeueRow_keys now)
  (db.webhookDeliveries.rows.countP hit, { db with webhookDeliveries })

end Db

/-! The listings as pages in the order of a key. -/
section Order
variable {ρ : Type} {stamp : ρ → String × String} {p : ρ → Bool} {rows rows' : List ρ}

def listed (stamp : ρ → String × String) (r : ρ) : (String ×ₗ String)ᵒᵈ :=
  OrderDual.toDual (toLex (stamp r))

theorem newestFirst_iff {a b : ρ} :
    newestFirst (stamp a) (stamp b) ↔ listed stamp a ≤ listed stamp b := by
  unfold newestFirst listed
  rw [OrderDual.toDual_le_toDual, Prod.Lex.le_iff]
  simp only [ofLex_toLex, eq_comm]

theorem beyond_iff {ts id : String} {r : ρ} :
    beyond (some (ts, id)) (stamp r) = true ↔
      OrderDual.toDual (toLex (ts, id)) < listed stamp r := by
  unfold listed
  rw [OrderDual.toDual_lt_toDual, Prod.Lex.lt_iff]
  simp [beyond]

theorem listed_injOn {a b : ρ} (h : listed stamp a = listed stamp b) : stamp a = stamp b := by
  simpa [listed] using h

theorem selectNewest_sorted (hid : (rows.map fun r => (stamp r).2).Nodup) :
    SortedBy (listed stamp) (selectNewest stamp p rows) := by
  have hle : (selectNewest stamp p rows).Pairwise fun a b => listed stamp a ≤ listed stamp b := by
    have htrans : IsTrans ρ fun a b => newestFirst (stamp a) (stamp b) :=
      ⟨fun a b c hab hbc => by
        rw [newestFirst_iff] at hab hbc ⊢
        exact hab.trans hbc⟩
    have htotal : Std.Total fun a b : ρ => newestFirst (stamp a) (stamp b) :=
      ⟨fun a b => by
        rw [newestFirst_iff, newestFirst_iff]
        exact le_total _ _⟩
    exact (List.pairwise_insertionSort _ (rows.filter p)).imp fun h => newestFirst_iff.mp h
  have hne : (selectNewest stamp p rows).Pairwise fun a b => (stamp a).2 ≠ (stamp b).2 := by
    have hperm := (List.perm_insertionSort (fun a b => newestFirst (stamp a) (stamp b))
      (rows.filter p)).map fun r => (stamp r).2
    have hnodup := hperm.nodup_iff.mpr (hid.sublist (List.filter_sublist.map _))
    exact List.pairwise_map.mp hnodup
  exact (hle.and hne).imp fun ⟨h, hn⟩ => lt_of_le_of_ne h fun he => hn (by rw [listed_injOn he])

theorem mem_selectNewest {r : ρ} : r ∈ selectNewest stamp p rows ↔ r ∈ rows ∧ p r = true := by
  simp [selectNewest]

theorem selectNewest_length : (selectNewest stamp p rows).length = rows.countP p := by
  rw [selectNewest, List.length_insertionSort, List.countP_eq_length_filter]

theorem SortedBy.eq_of_mem_iff {l l' : List ρ} (h : SortedBy (listed stamp) l)
    (h' : SortedBy (listed stamp) l') (hm : ∀ r, r ∈ l ↔ r ∈ l') : l = l' := by
  have hn : l.Nodup := h.imp fun hlt he => absurd hlt (by simp [he])
  have hn' : l'.Nodup := h'.imp fun hlt he => absurd hlt (by simp [he])
  refine ((List.perm_ext_iff_of_nodup hn hn').mpr hm).eq_of_pairwise ?_ h h'
  exact fun a b _ _ hab hba => absurd hab (not_lt.mpr hba.le)

theorem selectNewest_congr {p' : ρ → Bool} (hid : (rows.map fun r => (stamp r).2).Nodup)
    (hid' : (rows'.map fun r => (stamp r).2).Nodup)
    (h : ∀ r, r ∈ rows ∧ p r = true ↔ r ∈ rows' ∧ p' r = true) :
    selectNewest stamp p rows = selectNewest stamp p' rows' :=
  SortedBy.eq_of_mem_iff (selectNewest_sorted hid) (selectNewest_sorted hid') fun r => by
    rw [mem_selectNewest, mem_selectNewest]
    exact h r

/-- The query of a later page selects what comes after its cursor. -/
theorem selectNewest_beyond (hid : (rows.map fun r => (stamp r).2).Nodup)
    (cursor : Option (String × String)) :
    selectNewest stamp (fun r => p r && beyond cursor (stamp r)) rows =
      afterCursor (listed stamp) (cursor.map fun c => OrderDual.toDual (toLex c))
        (selectNewest stamp p rows) := by
  refine SortedBy.eq_of_mem_iff (selectNewest_sorted hid)
    (afterCursor_sorted (selectNewest_sorted hid)) fun r => ?_
  rw [mem_selectNewest, mem_afterCursor, mem_selectNewest]
  cases cursor with
  | none => simp [beyond]
  | some c =>
    have := @beyond_iff ρ stamp c.1 c.2 r
    simp only [Bool.and_eq_true, this, Option.map_some, Option.mem_def, Option.some.injEq,
      forall_eq']
    tauto

end Order
end StellarGate
