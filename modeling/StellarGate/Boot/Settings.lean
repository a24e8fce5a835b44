import StellarGate.Assets.AllowList
import StellarGate.Base.Integers
import StellarGate.Supervise.Workers
import StellarGate.Timing

/-! The settings of a process: `Config::from_env` of `src/config.rs`. -/
namespace StellarGate
open Base

/-- What `from_env` calls that is not part of the repository: `Debug` of a text,
`str::to_uppercase`, and the readings of a `HeaderValue` and of an `IpNet`, with the
texts of their errors. -/
structure BootLibrary (IpNet : Type) where
  debug : String → String
  toUppercase : String → String
  headerValue : String → Except String Unit
  ipNet : String → Except String IpNet

/-- `Config`, whole. -/
structure Settings (IpNet : Type) where
  port : ℕ
  databaseUrl : String
  horizonUrl : String
  config : Config
  delivery : DeliveryConfig
  timing : TimingConfig
  webhookSecret : String
  webhookRedriveIntervalSecs : ℕ
  retentionIntervalSecs : ℕ
  rateLimitRequestsPerSec : ℕ
  dbPoolMaxConnections : ℕ
  dbBusyTimeoutMs : ℕ
  corsAllowedOrigins : List String
  listenerMode : ListenerMode
  webhookAllowPrivateTargets : Bool
  adminProvisioningSecret : String
  trustedProxyCidrs : List IpNet
  deriving DecidableEq

namespace Boot

def u16Max : ℕ := 65535
def u32Max : ℕ := 4294967295

/-- `str::parse` for the types of the settings. A `usize` has 64 bits. -/
def unsigned (max : ℕ) (raw : String) : Except String ℕ :=
  (parseUnsigned max raw.toList).mapError IntErrorKind.display

def signed (raw : String) : Except String ℤ :=
  (parseSigned 9223372036854775807 raw.toList).mapError IntErrorKind.display

def bool (raw : String) : Except String Bool :=
  if raw = "true" then .ok true
  else if raw = "false" then .ok false
  else .error "provided string was not `true` or `false`"

def entries (raw : String) : List String :=
  (((raw.toList.splitOn ',').map trim).filter (· ≠ [])).map String.ofList

def defaultList : List AcceptedAsset :=
  [⟨"XLM", none⟩, ⟨"USDC", some "GBBD47IF6LWK7P7MDEVSCWR7DPUWV3NY3DTQEVFL4NAT4AQH3ZLLFLA5"⟩]

variable {IpNet : Type}

/-- `parse_env`. A variable that is not Unicode reads as one that is absent. -/
def parseEnv {α : Type} (lib : BootLibrary IpNet) (vars : String → Option String)
    (parse : String → Except String α) (key : String) (default : α) : Except String α :=
  match vars key with
  | some raw =>
    (parse raw).mapError fun e => "invalid value for " ++ key ++ "=" ++ lib.debug raw ++
    ": " ++ e ++
      ". Fix the environment variable or remove it to use the default."
  | none => .ok default

/-- `ListenerMode::parse`. -/
def listenerMode (lib : BootLibrary IpNet) (raw : String) : Except String ListenerMode :=
  let mode := String.ofList ((trim raw.toList).map Char.toLower)
  if mode = "" then .ok .stream
  else if mode = "stream" then .ok .stream
  else if mode = "poll" then .ok .poll
  else .error ("STELLAR_LISTENER_MODE=" ++ lib.debug mode ++
    " is not a recognised value. Valid values are \"stream\" or \"poll\". " ++
    "Fix the environment variable or remove it to use the default (\"stream\").")

def webhookPlaceholders : List String :=
  ["default-secret", "your_webhook_signing_secret", "REPLACE_ME_webhook_signing_secret"]

def isPlaceholder (secret : String) : Bool :=
  webhookPlaceholders.contains secret || "REPLACE_ME_".toList.isPrefixOf secret.toList

def validateWebhookSecret (lib : BootLibrary IpNet) : Option String → Except String String
  | none => .error "WEBHOOK_SECRET environment variable is missing"
  | some secret => do
    check (secret = "") "WEBHOOK_SECRET cannot be empty"
    check (trim secret.toList = []) "WEBHOOK_SECRET cannot contain only whitespace"
    check (isPlaceholder secret = true)
      ("WEBHOOK_SECRET is set to a known placeholder value (" ++ lib.debug secret ++
        "). Replace it with a strong, randomly-generated secret.")
    check (secret.utf8ByteSize < 32)
      ("WEBHOOK_SECRET must be at least 32 characters long (got " ++ secret.utf8ByteSize.repr ++
        ")")
    return secret

/-- The check of one of the `CORS_ALLOWED_ORIGINS`. -/
def checkOrigin (lib : BootLibrary IpNet) (origin : String) : Except String Unit :=
  (lib.headerValue origin).mapError fun e => "CORS_ALLOWED_ORIGINS contains an invalid origin " ++
    lib.debug origin ++ ": " ++ e ++ ". Fix or remove the bad entry."

/-- The reading of one of the `TRUSTED_PROXY_CIDRS`. -/
def parseCidr (lib : BootLibrary IpNet) (entry : String) : Except String IpNet :=
  (lib.ipNet entry).mapError fun e => "TRUSTED_PROXY_CIDRS contains an invalid CIDR " ++
    lib.debug entry ++ ": " ++ e ++
    ". Expected comma-separated CIDR blocks, e.g. 10.0.0.0/8. Fix or remove the bad entry."

def parseCidrs (lib : BootLibrary IpNet) (raw : String) : Except String (List IpNet) :=
  (entries raw).mapM (parseCidr lib)

/-- `ACCEPTED_ASSETS`: the default list where it is empty. -/
def acceptedAssets (lib : BootLibrary IpNet) (raw : String) : List AcceptedAsset :=
  if raw = "" then defaultList else AcceptedAsset.parseList lib.toUppercase raw

def fromEnv (lib : BootLibrary IpNet) (vars : String → Option String) :
    Except String (Settings IpNet) := do
  let network := (vars "STELLAR_NETWORK").getD "testnet"
  let webhookSecret ← validateWebhookSecret lib (vars "WEBHOOK_SECRET")
  let corsAllowedOrigins := entries ((vars "CORS_ALLOWED_ORIGINS").getD "")
  corsAllowedOrigins.forM (checkOrigin lib)
  check (network = "public" ∧ corsAllowedOrigins = [])
    ("CORS_ALLOWED_ORIGINS must be set when STELLAR_NETWORK=public. Leaving it unset would " ++
      "allow any browser origin to access the public API.")
  let port ← parseEnv lib vars (unsigned u16Max) "PORT" 3000
  let webhookRetryAttempts ← parseEnv lib vars (unsigned u32Max) "WEBHOOK_RETRY_ATTEMPTS" 3
  let webhookRetryDelayMs ← parseEnv lib vars (unsigned u64Max) "WEBHOOK_RETRY_DELAY_MS" 5000
  let webhookRetryMaxDelayMs ← parseEnv lib vars (unsigned u64Max)
    "WEBHOOK_RETRY_MAX_DELAY_MS" 60000
  let webhookTimeoutSecs ← parseEnv lib vars (unsigned u64Max) "WEBHOOK_TIMEOUT_SECS" 10
  let webhookRedriveIntervalSecs ← parseEnv lib vars (unsigned u64Max)
    "WEBHOOK_REDRIVE_INTERVAL_SECS" 30
  let redriveConcurrency ← parseEnv lib vars (unsigned u64Max) "WEBHOOK_REDRIVE_CONCURRENCY" 4
  let redriveMaxAttempts ← parseEnv lib vars (unsigned u32Max) "WEBHOOK_REDRIVE_MAX_ATTEMPTS" 8
  let redriveGraceSecs ← parseEnv lib vars signed "WEBHOOK_REDRIVE_GRACE_SECS" 60
  let redriveBackoffInitialSecs ← parseEnv lib vars signed "WEBHOOK_REDRIVE_BACKOFF_INITIAL_SECS" 30
  let redriveBackoffMaxSecs ← parseEnv lib vars signed "WEBHOOK_REDRIVE_BACKOFF_MAX_SECS" 900
  let redriveJitterSecs ← parseEnv lib vars signed "WEBHOOK_REDRIVE_JITTER_SECS" 30
  let retentionIntervalSecs ← parseEnv lib vars (unsigned u64Max) "RETENTION_INTERVAL_SECS" 3600
  let webhookDeliveryRetentionDays ← parseEnv lib vars signed "WEBHOOK_DELIVERY_RETENTION_DAYS" 30
  let idempotencyRetentionDays ← parseEnv lib vars signed "IDEMPOTENCY_RETENTION_DAYS" 7
  let pollIntervalSecs ← parseEnv lib vars (unsigned u64Max) "POLL_INTERVAL_SECS" 10
  let cursorStalenessMultiple ← parseEnv lib vars (unsigned u32Max) "CURSOR_STALENESS_MULTIPLE" 3
  let paymentTtlSecs ← parseEnv lib vars (unsigned u64Max) "PAYMENT_TTL_SECS" 3600
  let expiryBatchSize ← parseEnv lib vars signed "EXPIRY_BATCH_SIZE" 500
  let rateLimitRequestsPerSec ← parseEnv lib vars (unsigned u32Max) "RATE_LIMIT_REQUESTS_PER_SEC" 10
  let dbPoolMaxConnections ← parseEnv lib vars (unsigned u32Max) "DB_POOL_MAX_CONNECTIONS" 10
  let dbBusyTimeoutMs ← parseEnv lib vars (unsigned u64Max) "DB_BUSY_TIMEOUT_MS" 5000
  let listenerMode ← listenerMode lib ((vars "STELLAR_LISTENER_MODE").getD "")
  let webhookAllowPrivateTargets ← parseEnv lib vars bool "WEBHOOK_ALLOW_PRIVATE_TARGETS" false
  let requestTimeoutSecs ← parseEnv lib vars (unsigned u64Max) "REQUEST_TIMEOUT_SECS" 30
  let trustedProxyCidrs ← parseCidrs lib ((vars "TRUSTED_PROXY_CIDRS").getD "")
  let settings : Settings IpNet := {
    port
    databaseUrl := (vars "DATABASE_URL").getD "sqlite:stellargate.db"
    horizonUrl := (vars "STELLAR_HORIZON_URL").getD "https://horizon-testnet.stellar.org"
    config := {
      network
      gatewayPublic := (vars "STELLAR_GATEWAY_PUBLIC").getD "UNCONFIGURED"
      acceptedAssets := acceptedAssets lib ((vars "ACCEPTED_ASSETS").getD "")
      webhookRetryAttempts
      allowedWebhookSchemes := entries ((vars "ALLOWED_WEBHOOK_SCHEMES").getD "https")
      paymentTtlSecs
      expiryBatchSize }
    delivery := ⟨redriveMaxAttempts, redriveGraceSecs, redriveBackoffInitialSecs,
      redriveBackoffMaxSecs, redriveJitterSecs, redriveConcurrency, webhookDeliveryRetentionDays,
      idempotencyRetentionDays⟩
    timing := ⟨pollIntervalSecs, cursorStalenessMultiple, webhookRetryDelayMs,
      webhookRetryMaxDelayMs, webhookTimeoutSecs, requestTimeoutSecs⟩
    webhookSecret
    webhookRedriveIntervalSecs
    retentionIntervalSecs
    rateLimitRequestsPerSec
    dbPoolMaxConnections
    dbBusyTimeoutMs
    corsAllowedOrigins
    listenerMode
    webhookAllowPrivateTargets
    adminProvisioningSecret := (vars "ADMIN_PROVISIONING_SECRET").getD ""
    trustedProxyCidrs }
  validateAddresses settings.config
  validateTiming settings.config settings.delivery settings.timing
  return settings

end Boot
end StellarGate
