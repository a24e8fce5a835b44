import StellarGate.Db.Schema

/-! The JSON event body of a webhook (`build_payload` in `src/webhook.rs`). -/
namespace StellarGate

inductive JsonValue where
  | null
  | str (s : String)

namespace JsonValue

def ofOption : Option String → JsonValue
  | none => null
  | some s => str s

def hexDigit (n : ℕ) : Char := (Nat.toDigits 16 (n % 16)).headD '0'

/-- The escapes `serde_json` writes inside a string. -/
def escape (c : Char) : List Char :=
  if c = '"' then ['\\', '"']
  else if c = '\\' then ['\\', '\\']
  else if c.toNat = 8 then ['\\', 'b']
  else if c.toNat = 9 then ['\\', 't']
  else if c.toNat = 10 then ['\\', 'n']
  else if c.toNat = 12 then ['\\', 'f']
  else if c.toNat = 13 then ['\\', 'r']
  else if c.toNat < 32 then ['\\', 'u', '0', '0', hexDigit (c.toNat / 16), hexDigit c.toNat]
  else [c]

def quote (s : String) : List Char := '"' :: s.toList.flatMap escape ++ ['"']

def render : JsonValue → List Char
  | null => ['n', 'u', 'l', 'l']
  | str s => quote s

end JsonValue

structure Payload where
  event : WebhookEvent
  paymentId : String
  merchantId : String
  txHash : Option String
  amount : String
  paidAmount : Option String
  asset : String
  assetIssuer : Option String
  status : PaymentStatus
  delta : Option String
  deriving DecidableEq, Repr

/-- `parse_stroops(s).map(stroops_to_string)`. -/
def canonicalAmount? (s : String) : Option String := (parseStroops s).map stroopsToString

def buildPayload (payment : Payment) (event : WebhookEvent) (delta : Option String) : Payload where
  event := event
  paymentId := payment.id
  merchantId := payment.merchantId
  txHash := payment.txHash
  amount := (canonicalAmount? payment.amount).getD payment.amount
  paidAmount := payment.paidAmount.bind canonicalAmount?
  asset := payment.asset
  assetIssuer := payment.assetIssuer
  status := payment.status
  delta := delta.bind canonicalAmount?

namespace Payload
open JsonValue

/-- The members of the JSON object, in the key order of `serde_json`'s map. -/
def members (p : Payload) : List (String × JsonValue) :=
  [("amount", str p.amount), ("asset", str p.asset), ("asset_issuer", ofOption p.assetIssuer)] ++
    (p.delta.map fun d => ("delta", str d)).toList ++
    [("event", str p.event.name), ("merchant_id", str p.merchantId),
      ("paid_amount", ofOption p.paidAmount), ("payment_id", str p.paymentId),
      ("status", str p.status.name), ("tx_hash", ofOption p.txHash)]

/-- `serde_json::to_vec`, as text. -/
def toJson (p : Payload) : String :=
  let fields := p.members.map fun (k, v) => quote k ++ ':' :: v.render
  String.ofList ('\x7b' :: List.intercalate [','] fields ++ ['\x7d'])

end Payload
end StellarGate
