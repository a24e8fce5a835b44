import StellarGate.Api.Listing
import StellarGate.Db.Keys

/-! The endpoints a merchant reaches with an API key (`src/api/mod.rs`, `src/api/payments.rs`),
from the `Authorization` header to the response: `auth_middleware`, `get_by_id`, the listings,
`redeliver_webhook` and `redeliver_webhooks_bulk`. -/
namespace StellarGate
open Base Listing

structure Store where
  db : Db
  keys : KeyDb

/-- What the outside world contributes to one request: the clock at its statements, whether
`safe_client` accepts a URL, and the status a receiver answers a POST with, if any. -/
structure Exchange where
  authAt : ℤ
  postAt : ℤ
  writeAt : ℤ
  allowed : String → Bool
  answer : Post → Option ℕ

/-- A request to a route behind `auth_middleware`. -/
inductive AuthedRequest where
  | list (q : ListQuery)
  | listWebhooks (paymentId : String) (q : ListDeliveryQuery)
  | listMerchantWebhooks (q : ListDeliveryQuery)
  | redeliver (paymentId deliveryId : String)
  | redeliverBulk (deliveryIds : Option (List String))
  deriving DecidableEq, Repr

inductive MerchantRequest where
  | getById (id : String)
  | authed (req : AuthedRequest)
  deriving DecidableEq, Repr

/-- A payment as `public_view` shows it. -/
structure PublicView where
  id : String
  status : PaymentStatus
  expiresAt : String
  deriving DecidableEq, Repr

inductive MerchantResponse where
  | payments (page : PaymentsPage)
  | payment (view : PaymentView)
  | publicPayment (view : PublicView)
  | webhooks (page : WebhooksPage)
  | merchantWebhooks (page : MerchantWebhooksPage)
  | redelivered
  | requeued (count : ℕ)
  | failed (error : AppError)
  deriving DecidableEq, Repr

namespace Merchant

def unauthorized : AppError := ⟨401, "unauthorized", "missing or invalid Authorization header"⟩
def invalidKey : AppError := ⟨401, "unauthorized", "invalid API key"⟩
def deliveryNotFound : AppError := ⟨404, "delivery_not_found", "delivery not found"⟩
def deliveryFailed : AppError := ⟨502, "webhook_delivery_failed", "webhook delivery failed"⟩

def targetBlocked : AppError :=
  .badRequest "webhook_target_blocked" "webhook target is not allowed"

def tooManyDeliveryIds : AppError :=
  .badRequest "too_many_delivery_ids"
    "at most 100 delivery_ids per request; omit the field to requeue every failed delivery"

def maxBulkDeliveryIds : ℕ := 100

/-- `bearer_token`, from the header as text. -/
def bearerToken (authorization : Option String) : Option String :=
  match authorization with
  | none => none
  | some v =>
    let scheme := "Bearer ".toList
    if !scheme.isPrefixOf v.toList then none
    else
      let key := trim (v.toList.drop scheme.length)
      if key.isEmpty then none else some (String.ofList key)

def publicView (p : Payment) : PublicView := ⟨p.id, p.status, p.expiresAt⟩

def respond {α : Type} (ok : α → MerchantResponse) : Except AppError α → MerchantResponse
  | .error e => .failed e
  | .ok a => ok a

/-- The delivery in the path of `redeliver_webhook`, of the payment in the path. -/
def findDelivery (merchantId paymentId deliveryId : String) (db : Db) :
    Except AppError WebhookDelivery :=
  match ownPayment merchantId paymentId db with
  | .error e => .error e
  | .ok _ =>
    match db.getWebhookDelivery deliveryId with
    | none => .error deliveryNotFound
    | some delivery =>
      if delivery.paymentId = paymentId then .ok delivery else .error deliveryNotFound

section
variable (sign : ℤ → String → String) (jsonEvent : String → Option String) (x : Exchange)

def redeliverWebhook (merchantId paymentId deliveryId : String) (db : Db) :
    MerchantResponse × List Post × Db :=
  match findDelivery merchantId paymentId deliveryId db with
  | .error e => (.failed e, [], db)
  | .ok delivery =>
    if !x.allowed delivery.url then (.failed targetBlocked, [], db)
    else
      let post := delivery.post sign jsonEvent x.postAt
      let delivered := (x.answer post).any isSuccess
      let status := if delivered then .delivered else .failed
      (if delivered then .redelivered else .failed deliveryFailed, [post],
        db.updateWebhookDelivery x.writeAt deliveryId status (delivery.attempts + 1))

def redeliverWebhooksBulk (merchantId : String) (deliveryIds : Option (List String)) (db : Db) :
    MerchantResponse × Db :=
  let ids := deliveryIds.getD []
  if maxBulkDeliveryIds < ids.length then (.failed tooManyDeliveryIds, db)
  else
    let r := db.requeueFailedDeliveries x.writeAt merchantId ids
    (.requeued r.1, r.2)

/-- The routes behind `auth_middleware`. -/
def handle (merchantId : String) (req : AuthedRequest) (db : Db) :
    MerchantResponse × List Post × Db :=
  match req with
  | .list q => (respond .payments (Listing.list merchantId q db), [], db)
  | .listWebhooks paymentId q =>
    (respond .webhooks (Listing.listWebhooks jsonEvent merchantId paymentId q db), [], db)
  | .listMerchantWebhooks q =>
    (respond .merchantWebhooks (Listing.listMerchantWebhooks jsonEvent merchantId q db), [], db)
  | .redeliver paymentId deliveryId =>
    redeliverWebhook sign jsonEvent x merchantId paymentId deliveryId db
  | .redeliverBulk deliveryIds =>
    let r := redeliverWebhooksBulk x merchantId deliveryIds db
    (r.1, [], r.2)

/-- `auth_middleware` around the routes. -/
def authMiddleware (hash : String → String) (authorization : Option String) (req : AuthedRequest)
    (s : Store) : MerchantResponse × List Post × Store :=
  match bearerToken authorization with
  | none => (.failed unauthorized, [], s)
  | some key =>
    match s.keys.findMerchantByKey hash x.authAt key with
    | (none, keys) => (.failed invalidKey, [], { s with keys })
    | (some merchantId, keys) =>
      let r := handle sign jsonEvent x merchantId req s.db
      (r.1, r.2.1, ⟨r.2.2, keys⟩)

/-- `get_by_id`, which reads the payment before it looks at the credential. -/
def getById (hash : String → String) (authorization : Option String) (id : String) (s : Store) :
    MerchantResponse × Store :=
  match s.db.getPayment id with
  | none => (.failed paymentNotFound, s)
  | some payment =>
    match bearerToken authorization with
    | none => (.publicPayment (publicView payment), s)
    | some key =>
      match s.keys.findMerchantByKey hash x.authAt key with
      | (none, keys) => (.failed unauthorized, { s with keys })
      | (some merchantId, keys) =>
        (if merchantId = payment.merchantId then .payment (toJson payment)
          else .failed paymentNotFound, { s with keys })

/-- One request, from its header to the response, the POSTs it sent and what it left behind. -/
def serve (hash : String → String) (authorization : Option String) (req : MerchantRequest)
    (s : Store) :
    MerchantResponse × List Post × Store :=
  match req with
  | .getById id =>
    let r := getById x hash authorization id s
    (r.1, [], r.2)
  | .authed req => authMiddleware sign jsonEvent x hash authorization req s

end
end Merchant
end StellarGate
