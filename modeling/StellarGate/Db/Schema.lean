import StellarGate.Base.Table
import StellarGate.Db.Timestamp
import Mathlib.Data.List.Sort

/-! The tables of `src/db.rs` that payments, webhooks and idempotency keys live in. -/
namespace StellarGate
open Base

/-- The values of `payments.status`. -/
inductive PaymentStatus where
  | pending | underpaid | completed | expired
  deriving DecidableEq, Repr

namespace PaymentStatus

/-- The text stored in the column and shown in webhooks. -/
def name : PaymentStatus → String
  | pending => "pending"
  | underpaid => "underpaid"
  | completed => "completed"
  | expired => "expired"

/-- `status IN ('pending', 'underpaid')`. -/
def watchable : PaymentStatus → Bool
  | pending | underpaid => true
  | completed | expired => false

end PaymentStatus

/-- The events a payment is announced with. -/
inductive WebhookEvent where
  | completed | overpaid | underpaid | expired
  deriving DecidableEq, Repr

namespace WebhookEvent

def name : WebhookEvent → String
  | completed => "payment.completed"
  | overpaid => "payment.overpaid"
  | underpaid => "payment.underpaid"
  | expired => "payment.expired"

def terminal : WebhookEvent → Bool
  | underpaid => false
  | completed | overpaid | expired => true

end WebhookEvent

/-- The values of `webhook_deliveries.status`. -/
inductive DeliveryStatus where
  | pending | delivered | failed
  deriving DecidableEq, Repr

/-- A row of `payments`, and the struct read from it. -/
structure Payment where
  id : String
  merchantId : String
  destinationAddress : String
  memo : String
  amount : String
  asset : String
  assetIssuer : Option String
  status : PaymentStatus
  webhookUrl : Option String
  txHash : Option String
  paidAmount : Option String
  createdAt : String
  updatedAt : String
  expiresAt : String
  deriving DecidableEq, Repr

/-- The columns no statement ever changes, the others blanked. -/
def Payment.terms (p : Payment) : Payment :=
  { p with status := .pending, txHash := none, paidAmount := none, createdAt := "",
           updatedAt := "", expiresAt := "" }

/-- `row_to_payment`: timestamps are normalized on the way out. -/
def rowToPayment (p : Payment) : Payment :=
  { p with createdAt := normalizeTs p.createdAt, updatedAt := normalizeTs p.updatedAt,
           expiresAt := normalizeTs p.expiresAt }

/-- A row of `processed_transactions`. -/
structure ProcessedTx where
  paymentId : String
  txHash : String
  amountStroops : ℤ
  createdAt : String
  deriving DecidableEq, Repr

/-- A row of `webhook_deliveries`. -/
structure WebhookDelivery where
  id : String
  paymentId : String
  url : String
  payload : String
  eventType : Option String
  status : DeliveryStatus
  attempts : ℤ
  lastAttempt : Option String
  acknowledgedAt : Option String
  createdAt : String
  deriving DecidableEq, Repr

/-- A row of `idempotency_keys`. -/
structure IdempotencyKey where
  merchantId : String
  idempotencyKey : String
  paymentId : String
  createdAt : String
  deriving DecidableEq, Repr

def ProcessedTx.key (r : ProcessedTx) : String × String := (r.paymentId, r.txHash)
def IdempotencyKey.key (r : IdempotencyKey) : String × String := (r.merchantId, r.idempotencyKey)

/-- The database, with the primary keys and the unique memo of its tables. -/
structure Db where
  payments : Table Payment String [Payment.id, Payment.memo]
  processedTransactions : Table ProcessedTx (String × String) [ProcessedTx.key]
  webhookDeliveries : Table WebhookDelivery String [WebhookDelivery.id]
  idempotencyKeys : Table IdempotencyKey (String × String) [IdempotencyKey.key]

/-- What `migrate` leaves behind on a new file. -/
def Db.empty : Db := ⟨.empty, .empty, .empty, .empty⟩

@[simp] theorem rowToPayment_id (p : Payment) : (rowToPayment p).id = p.id := rfl
@[simp] theorem rowToPayment_terms (p : Payment) : (rowToPayment p).terms = p.terms := rfl
@[simp] theorem IdempotencyKey.key_mk (m k id createdAt : String) :
    (⟨m, k, id, createdAt⟩ : IdempotencyKey).key = (m, k) := rfl

@[simp] theorem Payment.terms_id (p : Payment) : p.terms.id = p.id := rfl

theorem Payment.id_eq_of_terms {p q : Payment} (h : p.terms = q.terms) : p.id = q.id := by
  simpa using congrArg Payment.id h

theorem Payment.memo_eq_of_terms {p q : Payment} (h : p.terms = q.terms) : p.memo = q.memo := by
  simpa [terms] using congrArg Payment.memo h

theorem Payment.amount_eq_of_terms {p q : Payment} (h : p.terms = q.terms) :
    p.amount = q.amount := by
  simpa [terms] using congrArg Payment.amount h

theorem Payment.destinationAddress_eq_of_terms {p q : Payment} (h : p.terms = q.terms) :
    p.destinationAddress = q.destinationAddress := by
  simpa [terms] using congrArg Payment.destinationAddress h

theorem Payment.asset_eq_of_terms {p q : Payment} (h : p.terms = q.terms) : p.asset = q.asset := by
  simpa [terms] using congrArg Payment.asset h

theorem Payment.assetIssuer_eq_of_terms {p q : Payment} (h : p.terms = q.terms) :
    p.assetIssuer = q.assetIssuer := by
  simpa [terms] using congrArg Payment.assetIssuer h

theorem Payment.webhookUrl_eq_of_terms {p q : Payment} (h : p.terms = q.terms) :
    p.webhookUrl = q.webhookUrl := by
  simpa [terms] using congrArg Payment.webhookUrl h

end StellarGate
