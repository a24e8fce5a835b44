import StellarGate.Boot.Lists

/-! Which settings a process can have: those that pass every check of `Config::from_env`, and each
of them from some environment. -/
namespace StellarGate
open Base

namespace Boot
variable {IpNet : Type} {lib : BootLibrary IpNet} {vars : String → Option String}
  {s : Settings IpNet}

/-- What `from_env` reads for each of the settings, and the checks that it makes. -/
structure Reads (lib : BootLibrary IpNet) (vars : String → Option String) (s : Settings IpNet) :
    Prop where
  secret : validateWebhookSecret lib (vars "WEBHOOK_SECRET") = .ok s.webhookSecret
  origins : entries ((vars "CORS_ALLOWED_ORIGINS").getD "") = s.corsAllowedOrigins
  headers : ∀ origin ∈ s.corsAllowedOrigins, lib.headerValue origin = .ok ()
  guarded : ¬ (s.config.network = "public" ∧ s.corsAllowedOrigins = [])
  port : parseEnv lib vars (unsigned u16Max) "PORT" 3000 = .ok s.port
  attempts : parseEnv lib vars (unsigned u32Max) "WEBHOOK_RETRY_ATTEMPTS" 3 =
    .ok s.config.webhookRetryAttempts
  delay : parseEnv lib vars (unsigned u64Max) "WEBHOOK_RETRY_DELAY_MS" 5000 =
    .ok s.timing.webhookRetryDelayMs
  maxDelay : parseEnv lib vars (unsigned u64Max) "WEBHOOK_RETRY_MAX_DELAY_MS" 60000 =
    .ok s.timing.webhookRetryMaxDelayMs
  timeout : parseEnv lib vars (unsigned u64Max) "WEBHOOK_TIMEOUT_SECS" 10 =
    .ok s.timing.webhookTimeoutSecs
  redriveInterval : parseEnv lib vars (unsigned u64Max) "WEBHOOK_REDRIVE_INTERVAL_SECS" 30 =
    .ok s.webhookRedriveIntervalSecs
  concurrency : parseEnv lib vars (unsigned u64Max) "WEBHOOK_REDRIVE_CONCURRENCY" 4 =
    .ok s.delivery.redriveConcurrency
  maxAttempts : ∃ n, parseEnv lib vars (unsigned u32Max) "WEBHOOK_REDRIVE_MAX_ATTEMPTS" 8 = .ok n ∧
    s.delivery.redriveMaxAttempts = n
  grace : parseEnv lib vars signed "WEBHOOK_REDRIVE_GRACE_SECS" 60 = .ok s.delivery.redriveGraceSecs
  backoffInitial : parseEnv lib vars signed "WEBHOOK_REDRIVE_BACKOFF_INITIAL_SECS" 30 =
    .ok s.delivery.redriveBackoffInitialSecs
  backoffMax : parseEnv lib vars signed "WEBHOOK_REDRIVE_BACKOFF_MAX_SECS" 900 =
    .ok s.delivery.redriveBackoffMaxSecs
  jitter : parseEnv lib vars signed "WEBHOOK_REDRIVE_JITTER_SECS" 30 =
    .ok s.delivery.redriveJitterSecs
  retention : parseEnv lib vars (unsigned u64Max) "RETENTION_INTERVAL_SECS" 3600 =
    .ok s.retentionIntervalSecs
  deliveryDays : parseEnv lib vars signed "WEBHOOK_DELIVERY_RETENTION_DAYS" 30 =
    .ok s.delivery.webhookDeliveryRetentionDays
  idempotencyDays : parseEnv lib vars signed "IDEMPOTENCY_RETENTION_DAYS" 7 =
    .ok s.delivery.idempotencyRetentionDays
  poll : parseEnv lib vars (unsigned u64Max) "POLL_INTERVAL_SECS" 10 = .ok s.timing.pollIntervalSecs
  staleness : parseEnv lib vars (unsigned u32Max) "CURSOR_STALENESS_MULTIPLE" 3 =
    .ok s.timing.cursorStalenessMultiple
  ttl : parseEnv lib vars (unsigned u64Max) "PAYMENT_TTL_SECS" 3600 = .ok s.config.paymentTtlSecs
  batch : parseEnv lib vars signed "EXPIRY_BATCH_SIZE" 500 = .ok s.config.expiryBatchSize
  rateLimit : parseEnv lib vars (unsigned u32Max) "RATE_LIMIT_REQUESTS_PER_SEC" 10 =
    .ok s.rateLimitRequestsPerSec
  connections : parseEnv lib vars (unsigned u32Max) "DB_POOL_MAX_CONNECTIONS" 10 =
    .ok s.dbPoolMaxConnections
  busy : parseEnv lib vars (unsigned u64Max) "DB_BUSY_TIMEOUT_MS" 5000 = .ok s.dbBusyTimeoutMs
  mode : listenerMode lib ((vars "STELLAR_LISTENER_MODE").getD "") = .ok s.listenerMode
  allowPrivate : parseEnv lib vars bool "WEBHOOK_ALLOW_PRIVATE_TARGETS" false =
    .ok s.webhookAllowPrivateTargets
  requestTimeout : parseEnv lib vars (unsigned u64Max) "REQUEST_TIMEOUT_SECS" 30 =
    .ok s.timing.requestTimeoutSecs
  cidrs : parseCidrs lib ((vars "TRUSTED_PROXY_CIDRS").getD "") = .ok s.trustedProxyCidrs
  database : (vars "DATABASE_URL").getD "sqlite:stellargate.db" = s.databaseUrl
  horizon : (vars "STELLAR_HORIZON_URL").getD "https://horizon-testnet.stellar.org" = s.horizonUrl
  network : (vars "STELLAR_NETWORK").getD "testnet" = s.config.network
  gateway : (vars "STELLAR_GATEWAY_PUBLIC").getD "UNCONFIGURED" = s.config.gatewayPublic
  assets : acceptedAssets lib ((vars "ACCEPTED_ASSETS").getD "") = s.config.acceptedAssets
  schemes : entries ((vars "ALLOWED_WEBHOOK_SCHEMES").getD "https") = s.config.allowedWebhookSchemes
  admin : (vars "ADMIN_PROVISIONING_SECRET").getD "" = s.adminProvisioningSecret
  addressed : Addressed s.config
  timed : Timed s.config s.delivery s.timing

theorem check_eq_ok {bad : Prop} [Decidable bad] {message : String} {u : Unit} :
    check bad message = .ok u ↔ ¬ bad := by
  unfold check
  split_ifs with h
  · exact iff_of_false (fun he => by cases he) fun hn => hn h
  · exact iff_of_true rfl h

theorem checkOrigins_eq_ok {origins : List String} {u : Unit} :
    origins.forM (checkOrigin lib) = .ok u ↔ ∀ origin ∈ origins,
      lib.headerValue origin = .ok () := by
  rw [forM_eq_ok]
  unfold checkOrigin
  simp only [mapError_eq_ok]

theorem fromEnv_eq_ok : fromEnv lib vars = .ok s ↔ Reads lib vars s := by
  constructor
  · intro h
    obtain ⟨_, hsecret, h⟩ := bind_eq_ok_iff.mp h
    obtain ⟨_, hheaders, h⟩ := bind_eq_ok_iff.mp h
    obtain ⟨_, hguarded, h⟩ := bind_eq_ok_iff.mp h
    obtain ⟨_, hport, h⟩ := bind_eq_ok_iff.mp h
    obtain ⟨_, hattempts, h⟩ := bind_eq_ok_iff.mp h
    obtain ⟨_, hdelay, h⟩ := bind_eq_ok_iff.mp h
    obtain ⟨_, hmaxDelay, h⟩ := bind_eq_ok_iff.mp h
    obtain ⟨_, htimeout, h⟩ := bind_eq_ok_iff.mp h
    obtain ⟨_, hinterval, h⟩ := bind_eq_ok_iff.mp h
    obtain ⟨_, hconcurrency, h⟩ := bind_eq_ok_iff.mp h
    obtain ⟨_, hmaxAttempts, h⟩ := bind_eq_ok_iff.mp h
    obtain ⟨_, hgrace, h⟩ := bind_eq_ok_iff.mp h
    obtain ⟨_, hinitial, h⟩ := bind_eq_ok_iff.mp h
    obtain ⟨_, hmax, h⟩ := bind_eq_ok_iff.mp h
    obtain ⟨_, hjitter, h⟩ := bind_eq_ok_iff.mp h
    obtain ⟨_, hretention, h⟩ := bind_eq_ok_iff.mp h
    obtain ⟨_, hdelivery, h⟩ := bind_eq_ok_iff.mp h
    obtain ⟨_, hidempotency, h⟩ := bind_eq_ok_iff.mp h
    obtain ⟨_, hpoll, h⟩ := bind_eq_ok_iff.mp h
    obtain ⟨_, hstaleness, h⟩ := bind_eq_ok_iff.mp h
    obtain ⟨_, httl, h⟩ := bind_eq_ok_iff.mp h
    obtain ⟨_, hbatch, h⟩ := bind_eq_ok_iff.mp h
    obtain ⟨_, hrate, h⟩ := bind_eq_ok_iff.mp h
    obtain ⟨_, hconnections, h⟩ := bind_eq_ok_iff.mp h
    obtain ⟨_, hbusy, h⟩ := bind_eq_ok_iff.mp h
    obtain ⟨_, hmode, h⟩ := bind_eq_ok_iff.mp h
    obtain ⟨_, hprivate, h⟩ := bind_eq_ok_iff.mp h
    obtain ⟨_, hrequest, h⟩ := bind_eq_ok_iff.mp h
    obtain ⟨_, hcidrs, h⟩ := bind_eq_ok_iff.mp h
    obtain ⟨_, haddressed, h⟩ := bind_eq_ok_iff.mp h
    obtain ⟨_, htimed, h⟩ := bind_eq_ok_iff.mp h
    cases h
    exact ⟨hsecret, rfl, checkOrigins_eq_ok.mp hheaders, check_eq_ok.mp hguarded, hport,
      hattempts, hdelay, hmaxDelay, htimeout, hinterval, hconcurrency, ⟨_, hmaxAttempts, rfl⟩,
      hgrace, hinitial, hmax, hjitter, hretention, hdelivery, hidempotency, hpoll, hstaleness, httl,
      hbatch, hrate, hconnections, hbusy, hmode, hprivate, hrequest, hcidrs, rfl, rfl, rfl, rfl,
      rfl, rfl, rfl, validateAddresses_eq_ok.mp haddressed, validateTiming_eq_ok.mp htimed⟩
  · intro h
    obtain ⟨attempts, hattempts, hmaxAttempts⟩ := h.maxAttempts
    obtain ⟨_, _, _, ⟨_, _, _, _, _, _, _⟩, ⟨_, _, _, _, _, _, _, _⟩, ⟨_, _, _, _, _, _⟩, _, _, _,
      _, _, _, _, _, _, _, _⟩ := s
    obtain rfl := h.origins
    obtain rfl := h.database
    obtain rfl := h.horizon
    obtain rfl := h.network
    obtain rfl := h.gateway
    obtain rfl := h.assets
    obtain rfl := h.schemes
    obtain rfl := h.admin
    obtain rfl := hmaxAttempts
    unfold fromEnv
    simp only [bind_eq_ok_iff]
    exact ⟨_, h.secret, (), checkOrigins_eq_ok.mpr h.headers, (), check_eq_ok.mpr h.guarded, _,
      h.port, _, h.attempts, _, h.delay, _, h.maxDelay, _, h.timeout, _, h.redriveInterval, _,
      h.concurrency, _, hattempts, _, h.grace, _, h.backoffInitial, _, h.backoffMax, _, h.jitter, _,
      h.retention, _, h.deliveryDays, _, h.idempotencyDays, _, h.poll, _, h.staleness, _, h.ttl, _,
      h.batch, _, h.rateLimit, _, h.connections, _, h.busy, _, h.mode, _, h.allowPrivate, _,
      h.requestTimeout, _, h.cidrs, (), validateAddresses_eq_ok.mpr h.addressed, (),
      validateTiming_eq_ok.mpr h.timed, rfl⟩

/-- The numbers among the settings, each with the greatest of its type. -/
def words (s : Settings IpNet) : List (ℕ × ℕ) :=
  [(u16Max, s.port), (u32Max, s.config.webhookRetryAttempts),
    (u64Max, s.timing.webhookRetryDelayMs), (u64Max, s.timing.webhookRetryMaxDelayMs),
    (u64Max, s.timing.webhookTimeoutSecs), (u64Max, s.webhookRedriveIntervalSecs),
    (u64Max, s.delivery.redriveConcurrency), (u32Max, s.delivery.redriveMaxAttempts.toNat),
    (u64Max, s.retentionIntervalSecs), (u64Max, s.timing.pollIntervalSecs),
    (u32Max, s.timing.cursorStalenessMultiple), (u64Max, s.config.paymentTtlSecs),
    (u32Max, s.rateLimitRequestsPerSec), (u32Max, s.dbPoolMaxConnections),
    (u64Max, s.dbBusyTimeoutMs), (u64Max, s.timing.requestTimeoutSecs)]

def integers (s : Settings IpNet) : List ℤ :=
  [s.delivery.redriveGraceSecs, s.delivery.redriveBackoffInitialSecs,
    s.delivery.redriveBackoffMaxSecs, s.delivery.redriveJitterSecs,
    s.delivery.webhookDeliveryRetentionDays, s.delivery.idempotencyRetentionDays,
    s.config.expiryBatchSize]

def texts (s : Settings IpNet) : List String :=
  [s.databaseUrl, s.config.network, s.horizonUrl, s.config.gatewayPublic, s.webhookSecret,
    s.adminProvisioningSecret]

structure Variables where
  value : String → Option String
  nulFree : ∀ key, ∀ text ∈ value key, NulFree text

/-- `i64` holds the number. -/
def IsI64 (z : ℤ) : Prop := -9223372036854775808 ≤ z ∧ z ≤ 9223372036854775807

/-- What every process's settings are. -/
structure Possible (lib : BootLibrary IpNet) (s : Settings IpNet) : Prop where
  words : ∀ w ∈ words s, w.2 ≤ w.1
  integers : ∀ z ∈ integers s, IsI64 z
  texts : ∀ text ∈ texts s, NulFree text
  attempts : 0 ≤ s.delivery.redriveMaxAttempts
  secret : trim s.webhookSecret.toList ≠ [] ∧ isPlaceholder s.webhookSecret = false ∧
    32 ≤ s.webhookSecret.utf8ByteSize
  schemes : ∀ scheme ∈ s.config.allowedWebhookSchemes, IsEntry scheme
  origins : ∀ origin ∈ s.corsAllowedOrigins, IsEntry origin ∧ lib.headerValue origin = .ok ()
  guarded : s.config.network = "public" → s.corsAllowedOrigins ≠ []
  codes : ∀ asset ∈ s.config.acceptedAssets, ∃ code, IsCode code ∧ lib.toUppercase code = asset.code
  proxies : ∀ net ∈ s.trustedProxyCidrs, ∃ entry, IsEntry entry ∧ lib.ipNet entry = .ok net
  addressed : Addressed s.config
  timed : Timed s.config s.delivery s.timing

theorem parseEnv_eq_ok {α : Type} {parse : String → Except String α} {key : String}
    {default a : α} :
    parseEnv lib vars parse key default = .ok a ↔
      (vars key = none ∧ default = a) ∨ ∃ raw, vars key = some raw ∧ parse raw = .ok a := by
  unfold parseEnv
  cases hkey : vars key with
  | none =>
    constructor
    · intro h
      cases h
      exact .inl ⟨rfl, rfl⟩
    · rintro (⟨-, rfl⟩ | ⟨raw, h, -⟩)
      · rfl
      · cases h
  | some raw =>
    rw [mapError_eq_ok_iff]
    constructor
    · exact fun h => .inr ⟨raw, rfl, h⟩
    · rintro (⟨h, -⟩ | ⟨_, h, hparse⟩)
      · cases h
      · cases h
        exact hparse

theorem le_of_parseEnv {max default n : ℕ} {key : String}
    (h : parseEnv lib vars (unsigned max) key default = .ok n) (hdefault : default ≤ max) :
    n ≤ max := by
  rcases parseEnv_eq_ok.mp h with ⟨-, rfl⟩ | ⟨raw, -, hparse⟩
  · exact hdefault
  · exact le_of_parseUnsigned (mapError_eq_ok_iff.mp hparse)

theorem isI64_of_parseEnv {default z : ℤ} {key : String}
    (h : parseEnv lib vars signed key default = .ok z) (hdefault : IsI64 default) : IsI64 z := by
  rcases parseEnv_eq_ok.mp h with ⟨-, rfl⟩ | ⟨raw, -, hparse⟩
  · exact hdefault
  · have hrange := mem_range_of_parseSigned (mapError_eq_ok_iff.mp hparse)
    unfold IsI64
    omega

theorem validateWebhookSecret_eq_ok {raw : Option String} {secret : String} :
    validateWebhookSecret lib raw = .ok secret ↔ raw = some secret ∧
      trim secret.toList ≠ [] ∧ isPlaceholder secret = false ∧ 32 ≤ secret.utf8ByteSize := by
  cases raw with
  | none => exact iff_of_false (fun h => by cases h) fun h => by cases h.1
  | some text =>
    unfold validateWebhookSecret
    simp only [bind_eq_ok_iff, check_eq_ok]
    constructor
    · rintro ⟨-, -, -, htrim, -, hplaceholder, -, hsize, h⟩
      cases h
      exact ⟨rfl, htrim, Bool.not_eq_true _ ▸ hplaceholder, not_lt.mp hsize⟩
    · rintro ⟨h, htrim, hplaceholder, hsize⟩
      cases h
      have hsome : secret ≠ "" := by
        rintro rfl
        exact htrim rfl
      exact ⟨(), hsome, (), htrim, (), by rw [hplaceholder]; exact Bool.false_ne_true, (),
        not_lt.mpr hsize, rfl⟩

theorem isCode_of_acceptedAssets (hupper : Uppercases lib.toUppercase) {raw : String}
    (hplain : NulFree raw) {asset : AcceptedAsset} (h : asset ∈ acceptedAssets lib raw) :
    ∃ code, IsCode code ∧ lib.toUppercase code = asset.code := by
  unfold acceptedAssets at h
  split_ifs at h with hraw
  · have hwritten : ∀ code ∈ ["XLM", "USDC"], IsCode code ∧ lib.toUppercase code = code := by
      intro code hcode
      have hascii : ∀ code ∈ ["XLM", "USDC"], (code.toList.all fun c => c.toNat < 128) = true := by
        decide
      have hself : ∀ code ∈ ["XLM", "USDC"], asciiUpper code = code := by decide +kernel
      have hcodes : ∀ code ∈ ["XLM", "USDC"], ',' ∉ code.toList ∧ ':' ∉ code.toList ∧
        trim code.toList = code.toList ∧ NulFree code := by decide +kernel
      obtain ⟨hcomma, hcolon, htrim, hnul⟩ := hcodes code hcode
      have hletters : ∀ c ∈ code.toList, c.toNat < 128 := fun c hc =>
        of_decide_eq_true (List.all_eq_true.mp (hascii code hcode) c hc)
      exact ⟨⟨hcomma, hcolon, htrim, hnul⟩, (hupper.ascii code hletters).trans (hself code hcode)⟩
    have hcode : asset.code ∈ ["XLM", "USDC"] := List.mem_map.mpr ⟨asset, h, rfl⟩
    exact ⟨asset.code, hwritten asset.code hcode⟩
  · rw [parseList_eq] at h
    obtain ⟨entry, hin, rfl⟩ := List.mem_map.mp h
    exact isCode_of_entry (isEntry_of_mem hplain hin)

theorem Variables.nulFree_getD (vars : Variables) (key : String) {default : String}
    (hdefault : NulFree default) : NulFree ((vars.value key).getD default) := by
  cases hkey : vars.value key with
  | none => exact hdefault
  | some text => exact vars.nulFree key text hkey

theorem Reads.possible (hupper : Uppercases lib.toUppercase) {vars : Variables}
    (h : Reads lib vars.value s) : Possible lib s := by
  obtain ⟨attempts, hattempts, hmaxAttempts⟩ := h.maxAttempts
  have hcidrs := h.cidrs
  unfold parseCidrs at hcidrs
  have hnets := mapM_eq_ok_iff.mp hcidrs
  constructor
  · have hredrives : s.delivery.redriveMaxAttempts.toNat ≤ u32Max := by
      rw [hmaxAttempts]
      exact le_of_parseEnv hattempts (by decide)
    simp only [words, List.forall_mem_cons]
    exact ⟨le_of_parseEnv h.port (by decide), le_of_parseEnv h.attempts (by decide),
      le_of_parseEnv h.delay (by decide), le_of_parseEnv h.maxDelay (by decide),
      le_of_parseEnv h.timeout (by decide), le_of_parseEnv h.redriveInterval (by decide),
      le_of_parseEnv h.concurrency (by decide), hredrives, le_of_parseEnv h.retention (by decide),
      le_of_parseEnv h.poll (by decide), le_of_parseEnv h.staleness (by decide),
      le_of_parseEnv h.ttl (by decide), le_of_parseEnv h.rateLimit (by decide),
      le_of_parseEnv h.connections (by decide), le_of_parseEnv h.busy (by decide),
      le_of_parseEnv h.requestTimeout (by decide), fun w hw => by cases hw⟩
  · have hdefault : ∀ z ∈ [60, 30, 900, 7, 500], IsI64 z := by
      intro z hz
      unfold IsI64
      simp only [List.mem_cons, List.not_mem_nil, or_false] at hz
      omega
    simp only [integers, List.forall_mem_cons]
    exact ⟨isI64_of_parseEnv h.grace (hdefault 60 (by decide)),
      isI64_of_parseEnv h.backoffInitial (hdefault 30 (by decide)),
      isI64_of_parseEnv h.backoffMax (hdefault 900 (by decide)), isI64_of_parseEnv h.jitter
        (hdefault 30 (by decide)),
      isI64_of_parseEnv h.deliveryDays (hdefault 30 (by decide)),
      isI64_of_parseEnv h.idempotencyDays (hdefault 7 (by decide)),
      isI64_of_parseEnv h.batch (hdefault 500 (by decide)), fun w hw => by cases hw⟩
  · have hsecret := (validateWebhookSecret_eq_ok.mp h.secret).1
    simp only [texts, List.forall_mem_cons, ← h.database, ← h.network, ← h.horizon,
      ← h.gateway, ← h.admin]
    exact ⟨vars.nulFree_getD _ (by decide), vars.nulFree_getD _ (by decide),
      vars.nulFree_getD _ (by decide), vars.nulFree_getD _ (by decide), vars.nulFree _ _ hsecret,
      vars.nulFree_getD _ (by decide), fun text htext => by cases htext⟩
  · rw [hmaxAttempts]
    exact Int.natCast_nonneg attempts
  · exact (validateWebhookSecret_eq_ok.mp h.secret).2
  · intro scheme hscheme
    rw [← h.schemes] at hscheme
    exact isEntry_of_mem (vars.nulFree_getD _ (by decide)) hscheme
  · intro origin horigin
    have hentry := isEntry_of_mem (vars.nulFree_getD _ (by decide)) (h.origins.symm ▸ horigin)
    exact ⟨hentry, h.headers origin horigin⟩
  · exact fun hpublic hnone => h.guarded ⟨hpublic, hnone⟩
  · intro asset hasset
    rw [← h.assets] at hasset
    exact isCode_of_acceptedAssets hupper (vars.nulFree_getD _ (by decide)) hasset
  · intro net hnet
    obtain ⟨entry, hentry, hread⟩ := exists_mem_of_forall₂ hnets hnet
    have hplain := vars.nulFree_getD "TRUSTED_PROXY_CIDRS" (show NulFree "" by decide)
    exact ⟨entry, isEntry_of_mem hplain hentry, mapError_eq_ok_iff.mp hread⟩
  · exact h.addressed
  · exact h.timed

def decimal (n : ℕ) : String := String.ofList (Nat.toDigits 10 n)

def integer (z : ℤ) : String := String.ofList (showInt z)

def modeText : ListenerMode → String
  | .stream => "stream"
  | .poll => "poll"

def boolText (b : Bool) : String := if b then "true" else "false"

/-- The variables that say these settings, where the assets and the proxies are written so. -/
def environment (s : Settings IpNet) (assets cidrs : String) : List (String × String) :=
  [("DATABASE_URL", s.databaseUrl), ("STELLAR_NETWORK", s.config.network),
    ("STELLAR_HORIZON_URL", s.horizonUrl), ("STELLAR_GATEWAY_PUBLIC", s.config.gatewayPublic),
    ("WEBHOOK_SECRET", s.webhookSecret),
    ("ALLOWED_WEBHOOK_SCHEMES", written s.config.allowedWebhookSchemes),
    ("CORS_ALLOWED_ORIGINS", written s.corsAllowedOrigins), ("PORT", decimal s.port),
    ("ACCEPTED_ASSETS", assets), ("WEBHOOK_RETRY_ATTEMPTS", decimal s.config.webhookRetryAttempts),
    ("WEBHOOK_RETRY_DELAY_MS", decimal s.timing.webhookRetryDelayMs),
    ("WEBHOOK_RETRY_MAX_DELAY_MS", decimal s.timing.webhookRetryMaxDelayMs),
    ("WEBHOOK_TIMEOUT_SECS", decimal s.timing.webhookTimeoutSecs),
    ("WEBHOOK_REDRIVE_INTERVAL_SECS", decimal s.webhookRedriveIntervalSecs),
    ("WEBHOOK_REDRIVE_CONCURRENCY", decimal s.delivery.redriveConcurrency),
    ("WEBHOOK_REDRIVE_MAX_ATTEMPTS", decimal s.delivery.redriveMaxAttempts.toNat),
    ("WEBHOOK_REDRIVE_GRACE_SECS", integer s.delivery.redriveGraceSecs),
    ("WEBHOOK_REDRIVE_BACKOFF_INITIAL_SECS", integer s.delivery.redriveBackoffInitialSecs),
    ("WEBHOOK_REDRIVE_BACKOFF_MAX_SECS", integer s.delivery.redriveBackoffMaxSecs),
    ("WEBHOOK_REDRIVE_JITTER_SECS", integer s.delivery.redriveJitterSecs),
    ("RETENTION_INTERVAL_SECS", decimal s.retentionIntervalSecs),
    ("WEBHOOK_DELIVERY_RETENTION_DAYS", integer s.delivery.webhookDeliveryRetentionDays),
    ("IDEMPOTENCY_RETENTION_DAYS", integer s.delivery.idempotencyRetentionDays),
    ("POLL_INTERVAL_SECS", decimal s.timing.pollIntervalSecs),
    ("CURSOR_STALENESS_MULTIPLE", decimal s.timing.cursorStalenessMultiple),
    ("PAYMENT_TTL_SECS", decimal s.config.paymentTtlSecs),
    ("EXPIRY_BATCH_SIZE", integer s.config.expiryBatchSize),
    ("RATE_LIMIT_REQUESTS_PER_SEC", decimal s.rateLimitRequestsPerSec),
    ("DB_POOL_MAX_CONNECTIONS", decimal s.dbPoolMaxConnections),
    ("DB_BUSY_TIMEOUT_MS", decimal s.dbBusyTimeoutMs),
    ("STELLAR_LISTENER_MODE", modeText s.listenerMode),
    ("WEBHOOK_ALLOW_PRIVATE_TARGETS", boolText s.webhookAllowPrivateTargets),
    ("ADMIN_PROVISIONING_SECRET", s.adminProvisioningSecret),
    ("REQUEST_TIMEOUT_SECS", decimal s.timing.requestTimeoutSecs), ("TRUSTED_PROXY_CIDRS", cidrs)]

theorem unsigned_decimal {max n : ℕ} (h : n ≤ max) : unsigned max (decimal n) = .ok n := by
  unfold unsigned decimal
  rw [String.toList_ofList, parseUnsigned_toDigits h]
  rfl

theorem signed_integer {z : ℤ} (h : IsI64 z) : signed (integer z) = .ok z := by
  unfold signed integer
  unfold IsI64 at h
  rw [String.toList_ofList, parseSigned_showInt (by omega) (by omega)]
  rfl

theorem bool_boolText (b : Bool) : bool (boolText b) = .ok b := by
  cases b <;> rfl

theorem listenerMode_modeText (lib : BootLibrary IpNet) (mode : ListenerMode) :
    listenerMode lib (modeText mode) = .ok mode := by
  cases mode <;> rfl

theorem parseEnv_of_some {α : Type} {parse : String → Except String α} {key raw : String}
    {default a : α} (hkey : vars key = some raw) (hparse : parse raw = .ok a) :
    parseEnv lib vars parse key default = .ok a :=
  parseEnv_eq_ok.mpr (.inr ⟨raw, hkey, hparse⟩)

theorem exists_acceptedAssets (hupper : Uppercases lib.toUppercase) {config : Config}
    (haddressed : Addressed config) (hcodes : ∀ asset ∈ config.acceptedAssets, ∃ code, IsCode code ∧
      lib.toUppercase code = asset.code) :
    ∃ raw, NulFree raw ∧ acceptedAssets lib raw = config.acceptedAssets := by
  have hentries : ∀ asset ∈ config.acceptedAssets, ∃ e, IsEntry e ∧
      readAsset lib.toUppercase e = asset := by
    intro asset hasset
    obtain ⟨code, hcode, hsame⟩ := hcodes asset hasset
    have hissuer : ∀ i ∈ asset.issuer, ',' ∉ i.toList ∧ trim i.toList = i.toList ∧ NulFree i := by
      intro i hi
      have hletters := (Strkey.checked_of_accepted (haddressed.issuers asset hasset i hi)).1
      have hcomma : ',' ∉ Strkey.alphabet := by decide
      have hplain : (Strkey.alphabet.all fun c => !isWhitespace c) = true := by decide
      have hblank : ∀ c ∈ Strkey.alphabet, isWhitespace c = false := fun c hc =>
        Bool.not_eq_true' _ ▸ List.all_eq_true.mp hplain c hc
      have hnul : Char.ofNat 0 ∉ Strkey.alphabet := by decide
      exact ⟨fun hin => hcomma (hletters _ hin), Money.trim_eq_self fun c hc => hblank c
        (hletters c hc), fun hin => hnul (hletters _ hin)⟩
    have hnative : asset.issuer = none → code ≠ "" := by
      rintro hnone rfl
      have hxlm := haddressed.native asset hasset hnone
      rw [← hsame, hupper.ascii "" (fun c hc => by cases hc)] at hxlm
      exact absurd hxlm (by decide)
    exact ⟨assetEntry code asset.issuer, isEntry_assetEntry hcode hissuer hnative,
      readAsset_assetEntry hcode (fun i hi => (hissuer i hi).2.1) hsame⟩
  obtain ⟨es, hes, hread⟩ := exists_written hentries
  cases hnil : es with
  | nil =>
    -- a single comma, as the empty text stands for the default list
    refine ⟨",", by decide, ?_⟩
    rw [← hread, hnil]
    rfl
  | cons e es' =>
    have hsome : written es ≠ "" := by
      intro hempty
      have hback := entries_written hes
      rw [hempty, hnil, show entries "" = [] from rfl] at hback
      cases hback
    refine ⟨written es, nulFree_written fun e he => (hes e he).nulFree, ?_⟩
    unfold acceptedAssets
    rw [if_neg hsome, parseList_eq, entries_written hes, hread]

theorem exists_cidrs {nets : List IpNet}
    (h : ∀ net ∈ nets, ∃ entry, IsEntry entry ∧ lib.ipNet entry = .ok net) :
    ∃ raw, NulFree raw ∧ parseCidrs lib raw = .ok nets := by
  have hentries : ∀ x ∈ nets.map Except.ok, ∃ e, IsEntry e ∧ parseCidr lib e = x := by
    intro x hx
    obtain ⟨net, hnet, rfl⟩ := List.mem_map.mp hx
    obtain ⟨entry, hentry, hread⟩ := h net hnet
    exact ⟨entry, hentry, mapError_eq_ok_iff.mpr hread⟩
  obtain ⟨es, hes, hread⟩ := exists_written hentries
  refine ⟨written es, nulFree_written fun e he => (hes e he).nulFree, ?_⟩
  unfold parseCidrs
  rw [entries_written hes, mapM_eq_ok_iff]
  have hsame : List.Forall₂ (· = ·) (es.map (parseCidr lib)) (nets.map Except.ok) := by
    rw [hread, List.forall₂_eq_eq_eq]
  rwa [List.forall₂_map_left_iff, List.forall₂_map_right_iff] at hsame

theorem Possible.reads (h : Possible lib s) {assets cidrs : String}
    (hassets : acceptedAssets lib assets = s.config.acceptedAssets)
    (hcidrs : parseCidrs lib cidrs = .ok s.trustedProxyCidrs) :
    Reads lib (fun key => (environment s assets cidrs).lookup key) s := by
  have hwords := h.words
  have hintegers := h.integers
  simp only [Boot.words, List.forall_mem_cons] at hwords
  simp only [Boot.integers, List.forall_mem_cons] at hintegers
  obtain ⟨hport, hattempts, hdelay, hmaxDelay, htimeout, hinterval, hconcurrency, hredrives,
    hretention, hpoll, hstaleness, httl, hrate, hconnections, hbusy, hrequest, -⟩ := hwords
  obtain ⟨hgrace, hinitial, hmax, hjitter, hdelivery, hidempotency, hbatch, -⟩ := hintegers
  constructor
  · exact validateWebhookSecret_eq_ok.mpr ⟨rfl, h.secret⟩
  · exact entries_written fun origin horigin => (h.origins origin horigin).1
  · exact fun origin horigin => (h.origins origin horigin).2
  · exact fun hpublic => h.guarded hpublic.1 hpublic.2
  · exact parseEnv_of_some rfl (unsigned_decimal hport)
  · exact parseEnv_of_some rfl (unsigned_decimal hattempts)
  · exact parseEnv_of_some rfl (unsigned_decimal hdelay)
  · exact parseEnv_of_some rfl (unsigned_decimal hmaxDelay)
  · exact parseEnv_of_some rfl (unsigned_decimal htimeout)
  · exact parseEnv_of_some rfl (unsigned_decimal hinterval)
  · exact parseEnv_of_some rfl (unsigned_decimal hconcurrency)
  · exact ⟨_, parseEnv_of_some rfl (unsigned_decimal hredrives),
      (Int.toNat_of_nonneg h.attempts).symm⟩
  · exact parseEnv_of_some rfl (signed_integer hgrace)
  · exact parseEnv_of_some rfl (signed_integer hinitial)
  · exact parseEnv_of_some rfl (signed_integer hmax)
  · exact parseEnv_of_some rfl (signed_integer hjitter)
  · exact parseEnv_of_some rfl (unsigned_decimal hretention)
  · exact parseEnv_of_some rfl (signed_integer hdelivery)
  · exact parseEnv_of_some rfl (signed_integer hidempotency)
  · exact parseEnv_of_some rfl (unsigned_decimal hpoll)
  · exact parseEnv_of_some rfl (unsigned_decimal hstaleness)
  · exact parseEnv_of_some rfl (unsigned_decimal httl)
  · exact parseEnv_of_some rfl (signed_integer hbatch)
  · exact parseEnv_of_some rfl (unsigned_decimal hrate)
  · exact parseEnv_of_some rfl (unsigned_decimal hconnections)
  · exact parseEnv_of_some rfl (unsigned_decimal hbusy)
  · exact listenerMode_modeText lib s.listenerMode
  · exact parseEnv_of_some rfl (bool_boolText s.webhookAllowPrivateTargets)
  · exact parseEnv_of_some rfl (unsigned_decimal hrequest)
  · exact hcidrs
  · rfl
  · rfl
  · rfl
  · rfl
  · exact hassets
  · exact entries_written h.schemes
  · rfl
  · exact h.addressed
  · exact h.timed

theorem nulFree_decimal (n : ℕ) : NulFree (decimal n) := by
  unfold NulFree decimal
  rw [String.toList_ofList]
  exact fun hnul => absurd (Nat.isDigit_of_mem_toDigits (by omega) (by omega) hnul) (by decide)

theorem nulFree_integer (z : ℤ) : NulFree (integer z) := by
  have hdigits : Char.ofNat 0 ∉ Nat.toDigits 10 z.natAbs := fun hnul =>
    absurd (Nat.isDigit_of_mem_toDigits (by omega) (by omega) hnul) (by decide)
  unfold NulFree integer showInt
  rw [String.toList_ofList]
  split_ifs
  · exact List.not_mem_cons_of_ne_of_not_mem (by decide) hdigits
  · exact hdigits

theorem nulFree_modeText (mode : ListenerMode) : NulFree (modeText mode) := by
  cases mode <;> decide

theorem nulFree_boolText (b : Bool) : NulFree (boolText b) := by
  cases b <;> decide

theorem exists_mem_of_lookup {entries : List (String × String)} {key text : String}
    (h : entries.lookup key = some text) : ∃ entry ∈ entries, entry.2 = text := by
  obtain ⟨before, after, rfl, -⟩ := List.lookup_eq_some_iff.mp h
  exact ⟨(key, text), List.mem_append_right _ List.mem_cons_self, rfl⟩

theorem Possible.nulFree (h : Possible lib s) {assets cidrs : String} (hassets : NulFree assets)
    (hcidrs : NulFree cidrs) : ∀ entry ∈ environment s assets cidrs, NulFree entry.2 := by
  have htexts := h.texts
  simp only [Boot.texts, List.forall_mem_cons] at htexts
  obtain ⟨hdatabase, hnetwork, hhorizon, hgateway, hsecret, hadmin, -⟩ := htexts
  have hschemes := nulFree_written fun scheme hin => (h.schemes scheme hin).nulFree
  have horigins := nulFree_written fun origin hin => (h.origins origin hin).1.nulFree
  simp only [environment, List.forall_mem_cons, nulFree_decimal, nulFree_integer, nulFree_modeText,
    nulFree_boolText, hdatabase, hnetwork, hhorizon, hgateway, hsecret, hadmin, hschemes,
    horigins, hassets, hcidrs, true_and]
  exact fun entry hin => absurd hin List.not_mem_nil

theorem Possible.boots (hupper : Uppercases lib.toUppercase) (h : Possible lib s) :
    ∃ vars : Variables, fromEnv lib vars.value = .ok s := by
  obtain ⟨assets, hplain, hassets⟩ := exists_acceptedAssets hupper h.addressed h.codes
  obtain ⟨cidrs, hplain', hcidrs⟩ := exists_cidrs h.proxies
  have hnul := h.nulFree hplain hplain'
  let vars : Variables :=
    { value := fun key => (environment s assets cidrs).lookup key
      nulFree := fun key text htext => by
        obtain ⟨_, hin, rfl⟩ := exists_mem_of_lookup htext
        exact hnul _ hin }
  exact ⟨vars, fromEnv_eq_ok.mpr (h.reads hassets hcidrs)⟩

def defaults (IpNet : Type) (secret : String) : Settings IpNet where
  port := 3000
  databaseUrl := "sqlite:stellargate.db"
  horizonUrl := "https://horizon-testnet.stellar.org"
  config := ⟨"testnet", "UNCONFIGURED", defaultList, 3, ["https"], 3600, 500⟩
  delivery := ⟨8, 60, 30, 900, 30, 4, 30, 7⟩
  timing := ⟨10, 3, 5000, 60000, 10, 30⟩
  webhookSecret := secret
  webhookRedriveIntervalSecs := 30
  retentionIntervalSecs := 3600
  rateLimitRequestsPerSec := 10
  dbPoolMaxConnections := 10
  dbBusyTimeoutMs := 5000
  corsAllowedOrigins := []
  listenerMode := .stream
  webhookAllowPrivateTargets := false
  adminProvisioningSecret := ""
  trustedProxyCidrs := []

/-- Every default passes its check: a secret is all that a process needs. -/
theorem fromEnv_defaults {secret : String}
    (hsecret : validateWebhookSecret lib (some secret) = .ok secret) :
    fromEnv lib (fun key => [("WEBHOOK_SECRET", secret)].lookup key) =
      .ok (defaults IpNet secret) := by
  have haddressed : validateAddresses (defaults IpNet secret).config = .ok () := by
    show validateAddresses ⟨"testnet", "UNCONFIGURED", defaultList, 3, ["https"], 3600, 500⟩ =
      .ok ()
    decide +kernel
  have htimed : validateTiming ⟨"testnet", "UNCONFIGURED", defaultList, 3, ["https"], 3600, 500⟩
      ⟨8, 60, 30, 900, 30, 4, 30, 7⟩ ⟨10, 3, 5000, 60000, 10, 30⟩ = .ok () := by
    decide +kernel
  have hschemes : entries "https" = ["https"] := by decide +kernel
  refine fromEnv_eq_ok.mpr ⟨hsecret, rfl, fun origin horigin => (by cases horigin),
    fun hpublic => ?_, rfl, rfl, rfl, rfl, rfl, rfl, rfl, ⟨8, rfl, rfl⟩, rfl, rfl, rfl, rfl, rfl,
    rfl, rfl, rfl, rfl, rfl, rfl, rfl, rfl, rfl, rfl, rfl, rfl, rfl, rfl, rfl, rfl, rfl, rfl,
    hschemes, rfl, validateAddresses_eq_ok.mp haddressed, validateTiming_eq_ok.mp htimed⟩
  exact absurd hpublic.1 (show "testnet" ≠ "public" by decide)

/-- A process boots with these settings from some environment exactly when they are possible
ones: nothing else passes the checks of `from_env`, and nothing that passes them is beyond what
the variables can say. -/
theorem fromEnv_possible (hupper : Uppercases lib.toUppercase) :
    (∃ vars : Variables, fromEnv lib vars.value = .ok s) ↔ Possible lib s := by
  constructor
  · rintro ⟨vars, h⟩
    exact (fromEnv_eq_ok.mp h).possible hupper
  · exact Possible.boots hupper

namespace Sample

def library : BootLibrary (ℕ × ℕ) where
  debug text := "\"" ++ text ++ "\""
  toUppercase := asciiUpper
  headerValue text :=
    if text.toList.all fun c => 32 ≤ c.toNat && c.toNat < 127 then .ok ()
    else .error "failed to parse header value"
  ipNet text := if text = "10.0.0.0/8" then .ok (167772160, 8)
    else .error "invalid IP address syntax"

def secret : String := "0123456789abcdef0123456789abcdef"

def assignments : List (String × String) :=
  [("WEBHOOK_SECRET", secret), ("STELLAR_NETWORK", "public"),
    ("CORS_ALLOWED_ORIGINS", "https://shop.example, https://admin.example"),
    ("ACCEPTED_ASSETS", "xlm, USDC:GBBD47IF6LWK7P7MDEVSCWR7DPUWV3NY3DTQEVFL4NAT4AQH3ZLLFLA5"),
    ("TRUSTED_PROXY_CIDRS", "10.0.0.0/8"), ("PORT", "+8080")]

def publicGateway : Variables where
  value key := assignments.lookup key
  nulFree key text htext := by
    have hall : ∀ entry ∈ assignments, NulFree entry.2 := by decide
    obtain ⟨_, hin, rfl⟩ := exists_mem_of_lookup htext
    exact hall _ hin

def settings : Settings (ℕ × ℕ) :=
  { defaults (ℕ × ℕ) secret with
    port := 8080
    config := { (defaults (ℕ × ℕ) secret).config with network := "public" }
    corsAllowedOrigins := ["https://shop.example", "https://admin.example"]
    trustedProxyCidrs := [(167772160, 8)] }

theorem fromEnv_publicGateway :
    fromEnv library publicGateway.value = .ok settings := by decide +kernel

end Sample

theorem fromEnv_possible_settings : Possible Sample.library Sample.settings :=
  (fromEnv_possible uppercases_asciiUpper).mp ⟨Sample.publicGateway, Sample.fromEnv_publicGateway⟩

end Boot
end StellarGate
