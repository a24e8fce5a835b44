import StellarGate.Db.Timestamp

/-! The settings of `src/config.rs` that the modelled code reads, and the library
functions it calls that are not part of the repository. -/
namespace StellarGate

structure AcceptedAsset where
  code : String
  issuer : Option String
  deriving DecidableEq, Repr

structure Config where
  network : String
  gatewayPublic : String
  acceptedAssets : List AcceptedAsset
  webhookRetryAttempts : ℕ
  allowedWebhookSchemes : List String
  paymentTtlSecs : ℕ
  expiryBatchSize : ℤ
  deriving DecidableEq, Repr

/-- `toUppercase` is `str::to_uppercase`, `urlScheme` the scheme `reqwest::Url::parse`
finds, `none` when the text is no URL. -/
structure Env where
  config : Config
  toUppercase : String → String
  urlScheme : String → Option String

/-- `payment_ttl_secs as i64`. -/
def Env.ttlSecs (env : Env) : ℤ := Int.bmod env.config.paymentTtlSecs 18446744073709551616

/-- What the outside world answers to one step of a call: the next
`Uuid::new_v4`, the outcome of a name lookup or of a POST, and the order SQLite
picks where SQL leaves it open. -/
structure Reply where
  uuid : String
  ok : Bool
  tie : String → ℕ

end StellarGate
