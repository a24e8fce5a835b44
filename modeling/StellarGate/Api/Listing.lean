import StellarGate.Api.Create
import StellarGate.Api.Cursor
import StellarGate.Webhook.Payload
import StellarGate.Webhook.Resend

/-! The listing endpoints of `src/api/payments.rs`: `GET /payments`, `GET /payments/:id/webhooks`
and `GET /payments/webhooks`. A request carries the merchant it was authenticated as. -/
namespace StellarGate
open Base

structure ListQuery where
  status : Option String
  limit : Option ℤ
  offset : Option ℤ
  cursor : Option String
  includeTotal : Option Bool
  deriving DecidableEq, Repr

/-- `ListDeliveryQuery`, and `ListDeliveriesQuery`, which has the same fields. -/
structure ListDeliveryQuery where
  status : Option String
  limit : Option ℤ
  cursor : Option String
  deriving DecidableEq, Repr

/-- A payment as `to_json` shows it. -/
structure PaymentView where
  id : String
  merchantId : String
  destinationAddress : String
  memo : String
  amount : String
  asset : String
  assetIssuer : Option String
  status : PaymentStatus
  txHash : Option String
  paidAmount : Option String
  createdAt : String
  updatedAt : String
  expiresAt : String
  deriving DecidableEq, Repr

/-- A delivery as `list_webhooks` shows it. -/
structure DeliverySummary where
  id : String
  url : String
  event : String
  status : DeliveryStatus
  attempts : ℤ
  lastAttempt : Option String
  createdAt : String
  deriving DecidableEq, Repr

/-- A delivery as `delivery_to_json` shows it. -/
structure DeliveryView where
  id : String
  paymentId : String
  url : String
  event : String
  status : DeliveryStatus
  attempts : ℤ
  lastAttempt : Option String
  acknowledgedAt : Option String
  createdAt : String
  deriving DecidableEq, Repr

/-- A response of `list`; `offset` and `total` are absent in cursor mode. -/
structure PaymentsPage where
  payments : List PaymentView
  limit : ℤ
  offset : Option ℤ
  nextCursor : Option String
  total : Option ℕ
  deriving DecidableEq, Repr

structure WebhooksPage where
  paymentId : String
  deliveries : List DeliverySummary
  limit : ℤ
  nextCursor : Option String
  deriving DecidableEq, Repr

structure MerchantWebhooksPage where
  deliveries : List DeliveryView
  status : String
  limit : ℤ
  nextCursor : Option String
  deriving DecidableEq, Repr

def toJson (p : Payment) : PaymentView where
  id := p.id
  merchantId := p.merchantId
  destinationAddress := p.destinationAddress
  memo := p.memo
  amount := (canonicalAmount? p.amount).getD p.amount
  asset := p.asset
  assetIssuer := p.assetIssuer
  status := p.status
  txHash := p.txHash
  paidAmount := p.paidAmount.bind canonicalAmount?
  createdAt := p.createdAt
  updatedAt := p.updatedAt
  expiresAt := p.expiresAt

namespace Listing

def defaultLimit : ℤ := 20
def maxLimit : ℤ := 100

/-- `limit.unwrap_or(DEFAULT_LIMIT).clamp(1, MAX_LIMIT)`. -/
def effectiveLimit (limit : Option ℤ) : ℤ := max 1 (min (limit.getD defaultLimit) maxLimit)

def validStatuses : List String := ["pending", "completed", "underpaid", "expired"]
def validDeliveryStatuses : List String := ["pending", "delivered", "failed"]

def invalidStatus (what s : String) (valid : List String) : AppError :=
  .badRequest "invalid_status"
    ("invalid " ++ what ++ " '" ++ s ++ "'; valid: " ++ ", ".intercalate valid)

def invalidCursor : AppError := .badRequest "invalid_cursor" "invalid cursor"
def paymentNotFound : AppError := ⟨404, "payment_not_found", "payment not found"⟩

def checkStatus (status : Option String) (valid : List String) : Except AppError Unit :=
  match status with
  | none => .ok ()
  | some s => if valid.contains s then .ok () else .error (invalidStatus "status" s valid)

def readCursor (cursor : Option String) : Except AppError (Option (String × String)) :=
  match cursor with
  | none => .ok none
  | some raw =>
    match decodeCursor raw with
    | none => .error invalidCursor
    | some c => .ok (some c)

/-- A full page hands out a cursor made from its last row. -/
def nextCursor (n : ℤ) (stamps : List (String × String)) : Option String :=
  if (stamps.length : ℤ) = n then stamps.getLast?.map fun s => encodeCursor s.1 s.2 else none

def list (merchantId : String) (q : ListQuery) (db : Db) : Except AppError PaymentsPage :=
  match checkStatus q.status validStatuses with
  | .error e => .error e
  | .ok () =>
    let n := effectiveLimit q.limit
    match q.cursor with
    | some raw =>
      match decodeCursor raw with
      | none => .error invalidCursor
      | some cursor =>
        let payments := db.listPaymentsKeyset merchantId q.status n (some cursor)
        .ok { payments := payments.map toJson
              limit := n
              offset := none
              nextCursor := nextCursor n (payments.map Payment.stamp)
              total := none }
    | none =>
      let offset := max (q.offset.getD 0) 0
      let payments := db.listPayments merchantId q.status n offset
      .ok { payments := payments.map toJson
            limit := n
            offset := some offset
            nextCursor := nextCursor n (payments.map Payment.stamp)
            total := if q.includeTotal = some true then some (db.countPayments merchantId q.status)
              else none }

/-- A payment of another merchant is reported like a missing one. -/
def ownPayment (merchantId paymentId : String) (db : Db) : Except AppError Payment :=
  match (db.getPayment paymentId).filter (·.merchantId = merchantId) with
  | none => .error paymentNotFound
  | some payment => .ok payment

section
variable (jsonEvent : String → Option String)

def summary (d : WebhookDelivery) : DeliverySummary :=
  ⟨d.id, d.url, d.event jsonEvent, d.status, d.attempts, d.lastAttempt, d.createdAt⟩

def deliveryToJson (d : WebhookDelivery) : DeliveryView :=
  ⟨d.id, d.paymentId, d.url, d.event jsonEvent, d.status, d.attempts, d.lastAttempt,
    d.acknowledgedAt, d.createdAt⟩

def listWebhooks (merchantId paymentId : String) (q : ListDeliveryQuery) (db : Db) :
    Except AppError WebhooksPage :=
  match checkStatus q.status validDeliveryStatuses with
  | .error e => .error e
  | .ok () =>
    match ownPayment merchantId paymentId db with
    | .error e => .error e
    | .ok payment =>
      let n := effectiveLimit q.limit
      match readCursor q.cursor with
      | .error e => .error e
      | .ok cursor =>
        let deliveries := db.listWebhookDeliveriesKeyset paymentId q.status n cursor
        .ok { paymentId := payment.id
              deliveries := deliveries.map (summary jsonEvent)
              limit := n
              nextCursor := nextCursor n (deliveries.map WebhookDelivery.stamp) }

def listMerchantWebhooks (merchantId : String) (q : ListDeliveryQuery) (db : Db) :
    Except AppError MerchantWebhooksPage :=
  let status := q.status.getD "failed"
  if !validDeliveryStatuses.contains status then
    .error (invalidStatus "delivery status" status validDeliveryStatuses)
  else
    let n := effectiveLimit q.limit
    match readCursor q.cursor with
    | .error e => .error e
    | .ok cursor =>
      let deliveries := db.listDeliveriesForMerchant merchantId status n cursor
      .ok { deliveries := deliveries.map (deliveryToJson jsonEvent)
            status := status
            limit := n
            nextCursor := nextCursor n (deliveries.map WebhookDelivery.stamp) }

end
end Listing
end StellarGate
