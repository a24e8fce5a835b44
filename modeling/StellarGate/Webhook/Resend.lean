import StellarGate.Db.Listing

/-! Sending a stored delivery again (`src/webhook.rs`, `src/api/payments.rs`).
`sign` is `webhook::sign` under the configured secret, `jsonEvent` reads the
`event` member of a JSON text. -/
namespace StellarGate

def fallbackEvent : String := "payment.completed"

def WebhookDelivery.event (jsonEvent : String → Option String) (d : WebhookDelivery) : String :=
  d.eventType.getD ((jsonEvent d.payload).getD fallbackEvent)

/-- A POST to a receiver: the headers that vary, and the body. -/
structure Post where
  url : String
  signature : String
  timestamp : ℤ
  event : String
  body : String
  deriving DecidableEq, Repr

def isSuccess (status : ℕ) : Bool := 200 ≤ status && status < 300

def WebhookDelivery.post (sign : ℤ → String → String) (jsonEvent : String → Option String)
    (timestamp : ℤ) (d : WebhookDelivery) : Post where
  url := d.url
  signature := sign timestamp d.payload
  timestamp := timestamp
  event := d.event jsonEvent
  body := d.payload

end StellarGate
