import StellarGate.Config
import StellarGate.Db.Deliveries

/-! The boot check of the timing settings: `validate_timing` of `src/config.rs`. -/
namespace StellarGate

/-- The settings that only `validate_timing` and the background loops read. -/
structure TimingConfig where
  pollIntervalSecs : ℕ
  cursorStalenessMultiple : ℕ
  webhookRetryDelayMs : ℕ
  webhookRetryMaxDelayMs : ℕ
  webhookTimeoutSecs : ℕ
  requestTimeoutSecs : ℕ
  deriving DecidableEq, Repr

/-- `u64::MAX`. -/
def u64Max : ℕ := 18446744073709551615

/-- The result of a saturating operation on `u64`. -/
def saturating (n : ℕ) : ℕ := min n u64Max

/-- The ceiling of the delay after an attempt: the base doubled, up to the cap. -/
def TimingConfig.retryCeiling (timing : TimingConfig) (attempt : ℕ) : ℕ :=
  min (saturating (timing.webhookRetryDelayMs * saturating (2 ^ (attempt - 1))))
    timing.webhookRetryMaxDelayMs

def worstCaseInlineDeliverySecs (config : Config) (timing : TimingConfig) : ℕ :=
  let attempts := max config.webhookRetryAttempts 1
  let timeouts := saturating (attempts * timing.webhookTimeoutSecs)
  let delaysMs := (List.range' 1 (attempts - 1)).foldl
    (fun sum attempt => saturating (sum + timing.retryCeiling attempt)) 0
  saturating (timeouts + (delaysMs + 999) / 1000)

def check (bad : Prop) [Decidable bad] (message : String) : Except String Unit :=
  if bad then .error message else .ok ()

theorem check_bind_eq_ok {bad : Prop} [Decidable bad] {message : String}
    {rest : Unit → Except String Unit} :
    check bad message >>= rest = .ok () ↔ ¬ bad ∧ rest () = .ok () := by
  unfold check
  split_ifs with h
  · exact iff_of_false (fun he => by cases he) fun hn => hn.1 h
  · exact (and_iff_right h).symm

/-- `validate_timing`, with the texts of its errors. -/
def validateTiming (config : Config) (delivery : DeliveryConfig) (timing : TimingConfig) :
    Except String Unit := do
  check (timing.pollIntervalSecs = 0)
    ("POLL_INTERVAL_SECS must be > 0 (got 0). A zero interval creates a tight polling loop at " ++
      "100% CPU.")
  check (timing.cursorStalenessMultiple = 0)
    ("CURSOR_STALENESS_MULTIPLE must be > 0 (got 0). A zero window would make /ready report a " ++
      "stale cursor the moment the poller finishes a cycle.")
  check (config.paymentTtlSecs = 0)
    ("PAYMENT_TTL_SECS must be > 0 (got 0). A zero TTL expires every payment intent immediately " ++
      "on creation.")
  check (config.paymentTtlSecs < timing.pollIntervalSecs)
    ("PAYMENT_TTL_SECS (" ++ config.paymentTtlSecs.repr ++ ") must be >= POLL_INTERVAL_SECS (" ++
      timing.pollIntervalSecs.repr ++ "). With the current settings, a payment intent would " ++
      "expire before the poller ever gets a chance to detect it.")
  check (config.expiryBatchSize ≤ 0)
    ("EXPIRY_BATCH_SIZE must be > 0 (got " ++ toString config.expiryBatchSize ++
      "). A zero or negative batch would make the expiry sweeper a no-op.")
  check (config.webhookRetryAttempts = 0)
    ("WEBHOOK_RETRY_ATTEMPTS must be > 0 (got 0). Zero attempts means webhooks are silently " ++
      "never delivered.")
  check (1 < config.webhookRetryAttempts ∧ timing.webhookRetryDelayMs = 0)
    ("WEBHOOK_RETRY_DELAY_MS must be > 0 when WEBHOOK_RETRY_ATTEMPTS (" ++
      config.webhookRetryAttempts.repr ++ ") > 1. A zero delay causes retry bursts that hammer " ++
      "the target endpoint.")
  check (timing.webhookRetryMaxDelayMs < timing.webhookRetryDelayMs)
    ("WEBHOOK_RETRY_MAX_DELAY_MS (" ++ timing.webhookRetryMaxDelayMs.repr ++
      ") must be >= WEBHOOK_RETRY_DELAY_MS (" ++ timing.webhookRetryDelayMs.repr ++
      "). With the current settings the cap would override the starting delay and the inline " ++
      "retry backoff would never actually grow.")
  let worstCaseInline := worstCaseInlineDeliverySecs config timing
  -- `worst_case_inline as i64` wraps around
  check (delivery.redriveGraceSecs < Int.bmod worstCaseInline 18446744073709551616)
    ("WEBHOOK_REDRIVE_GRACE_SECS (" ++ toString delivery.redriveGraceSecs ++
      ") is below the worst-case inline delivery time (" ++ worstCaseInline.repr ++
      "s). With the current settings the redrive worker could pick up a delivery whose inline " ++
      "dispatch is still running and send it twice. The inline budget is " ++
      "WEBHOOK_RETRY_ATTEMPTS (" ++
      config.webhookRetryAttempts.repr ++ ") attempts of up to WEBHOOK_TIMEOUT_SECS (" ++
      timing.webhookTimeoutSecs.repr ++ "s) each, plus the exponential retry delays " ++
      "(WEBHOOK_RETRY_DELAY_MS " ++ timing.webhookRetryDelayMs.repr ++
      "ms doubling to at most WEBHOOK_RETRY_MAX_DELAY_MS " ++ timing.webhookRetryMaxDelayMs.repr ++
      "ms).")
  check (delivery.redriveJitterSecs < 0)
    ("WEBHOOK_REDRIVE_JITTER_SECS must be >= 0 (got " ++ toString delivery.redriveJitterSecs ++
      "). A negative jitter would pull deliveries forward past their backoff.")
  check (timing.requestTimeoutSecs = 0)
    ("REQUEST_TIMEOUT_SECS must be > 0 (got 0). A zero timeout would abort every request " ++
      "immediately.")
  check (delivery.redriveBackoffMaxSecs < delivery.redriveBackoffInitialSecs)
    ("WEBHOOK_REDRIVE_BACKOFF_MAX_SECS (" ++ toString delivery.redriveBackoffMaxSecs ++
      ") must be >= WEBHOOK_REDRIVE_BACKOFF_INITIAL_SECS (" ++
      toString delivery.redriveBackoffInitialSecs ++
      "). With the current settings the cap would override the starting delay and backoff would " ++
      "never actually grow.")
  return ()

/-- What the boot check makes sure of. -/
structure Timed (config : Config) (delivery : DeliveryConfig) (timing : TimingConfig) : Prop where
  polls : 0 < timing.pollIntervalSecs
  staleness : 0 < timing.cursorStalenessMultiple
  ttl : 0 < config.paymentTtlSecs ∧ timing.pollIntervalSecs ≤ config.paymentTtlSecs
  batch : 0 < config.expiryBatchSize
  attempts : 0 < config.webhookRetryAttempts
  delay : 1 < config.webhookRetryAttempts → 0 < timing.webhookRetryDelayMs
  cap : timing.webhookRetryDelayMs ≤ timing.webhookRetryMaxDelayMs
  grace : Int.bmod (worstCaseInlineDeliverySecs config timing) 18446744073709551616 ≤
    delivery.redriveGraceSecs
  jitter : 0 ≤ delivery.redriveJitterSecs
  request : 0 < timing.requestTimeoutSecs
  backoff : delivery.redriveBackoffInitialSecs ≤ delivery.redriveBackoffMaxSecs

theorem validateTiming_eq_ok {config : Config} {delivery : DeliveryConfig} {timing : TimingConfig} :
    validateTiming config delivery timing = .ok () ↔ Timed config delivery timing := by
  simp only [validateTiming, check_bind_eq_ok]
  constructor
  · rintro ⟨h1, h2, h3, h4, h5, h6, h7, h8, h9, h10, h11, h12, -⟩
    exact ⟨by omega, by omega, by omega, by omega, by omega, by omega, by omega, by omega, by omega,
      by omega, by omega⟩
  · rintro ⟨h1, h2, h3, h4, h5, h6, h7, h8, h9, h10, h11⟩
    exact ⟨by omega, by omega, by omega, by omega, by omega, by omega, by omega, by omega, by omega,
      by omega, by omega, by omega, rfl⟩

end StellarGate
