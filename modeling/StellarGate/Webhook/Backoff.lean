import StellarGate.Webhook.Grace

/-! The jittered delay between inline attempts (`retry_delay` of `src/webhook.rs`), the time the
inline loop of `dispatch` takes with it, and the bounds that the boot check computes for it. -/
namespace StellarGate
open Base Grace

/-- The ceiling of `retry_delay`, in milliseconds. -/
def delayCeiling (attempt base maxDelay : ℕ) : ℕ :=
  min (base * min (2 ^ (attempt - 1)) u32Max) maxDelay

/-- `retry_delay`, in milliseconds, with the draw of its jitter. -/
def retryDelay (attempt base maxDelay random : ℕ) : ℕ :=
  let ceiling := delayCeiling attempt base maxDelay
  if ceiling = 0 then 0 else ceiling / 2 + random % (ceiling - ceiling / 2 + 1)

namespace TimingConfig

def delayAfter (timing : TimingConfig) (attempt random : ℕ) : ℕ :=
  retryDelay attempt timing.webhookRetryDelayMs timing.webhookRetryMaxDelayMs random

/-- The capped exponential delay after an attempt, in exact arithmetic. -/
def exactCeiling (timing : TimingConfig) (attempt : ℕ) : ℕ :=
  min (timing.webhookRetryDelayMs * 2 ^ (attempt - 1)) timing.webhookRetryMaxDelayMs

end TimingConfig

/-- The sum of a delay for each gap between `attempts` attempts. -/
def overGaps (attempts : ℕ) (delay : ℕ → ℕ) : ℕ := ((List.range' 1 (attempts - 1)).map delay).sum

/-- The longest inline delivery in exact arithmetic, in seconds: every attempt times out, and the
gaps are rounded up to whole seconds. -/
def exactInlineSecs (config : Config) (timing : TimingConfig) : ℕ :=
  config.webhookRetryAttempts * timing.webhookTimeoutSecs +
    (overGaps config.webhookRetryAttempts timing.exactCeiling + 999) / 1000

section Delay
variable {attempt base maxDelay random : ℕ}

theorem retryDelay_le :
    retryDelay attempt base maxDelay random ≤ delayCeiling attempt base maxDelay := by
  simp only [retryDelay]
  generalize delayCeiling attempt base maxDelay = ceiling
  split_ifs with h
  · exact Nat.zero_le _
  · have hlt := Nat.mod_lt random (show 0 < ceiling - ceiling / 2 + 1 by omega)
    omega

theorem half_le_retryDelay :
    delayCeiling attempt base maxDelay / 2 ≤ retryDelay attempt base maxDelay random := by
  simp only [retryDelay]
  generalize delayCeiling attempt base maxDelay = ceiling
  split_ifs with h
  · rw [h]
  · exact Nat.le_add_right _ _

/-- The draw that gives the longest delay. -/
def longestDraw (attempt base maxDelay : ℕ) : ℕ :=
  delayCeiling attempt base maxDelay - delayCeiling attempt base maxDelay / 2

theorem retryDelay_longestDraw :
    retryDelay attempt base maxDelay (longestDraw attempt base maxDelay) =
      delayCeiling attempt base maxDelay := by
  simp only [retryDelay, longestDraw]
  generalize delayCeiling attempt base maxDelay = ceiling
  split_ifs with h
  · exact h.symm
  · rw [Nat.mod_eq_of_lt (Nat.lt_succ_self _)]
    omega

theorem retryDelay_shortest :
    retryDelay attempt base maxDelay 0 = delayCeiling attempt base maxDelay / 2 := by
  simp only [retryDelay]
  generalize delayCeiling attempt base maxDelay = ceiling
  split_ifs with h
  · rw [h]
  · rw [Nat.zero_mod, Nat.add_zero]

end Delay

/-! The saturating sums of the boot check. -/
section Saturation
variable {config : Config} {timing : TimingConfig}

theorem saturating_of_le {n : ℕ} (h : n ≤ u64Max) : saturating n = n := min_eq_left h

theorem saturating_saturating_add (m n : ℕ) :
    saturating (saturating m + n) = saturating (m + n) := by
  unfold saturating
  omega

/-- A saturating sum is the exact sum, saturated once. -/
theorem foldl_saturating (f : ℕ → ℕ) (l : List ℕ) (s : ℕ) :
    l.foldl (fun sum k => saturating (sum + f k)) (saturating s) =
      saturating (s + (l.map f).sum) := by
  induction l generalizing s with
  | nil => rfl
  | cons k l ih =>
    rw [List.foldl_cons, saturating_saturating_add, ih, List.map_cons, List.sum_cons, Nat.add_assoc]

/-- The cap hides the saturation of the factor and of the product. -/
theorem retryCeiling_eq (hmax : timing.webhookRetryMaxDelayMs ≤ u64Max) (attempt : ℕ) :
    timing.retryCeiling attempt = timing.exactCeiling attempt := by
  unfold TimingConfig.retryCeiling TimingConfig.exactCeiling saturating
  generalize timing.webhookRetryDelayMs = base
  rcases Nat.eq_zero_or_pos base with rfl | hbase
  · simp
  by_cases hfactor : 2 ^ (attempt - 1) ≤ u64Max
  · rw [min_eq_left hfactor]
    omega
  · have hsat : u64Max ≤ base * u64Max := Nat.le_mul_of_pos_left _ hbase
    have hexact : u64Max ≤ base * 2 ^ (attempt - 1) := by
      calc u64Max ≤ 2 ^ (attempt - 1) := by omega
        _ ≤ base * 2 ^ (attempt - 1) := Nat.le_mul_of_pos_left _ hbase
    rw [min_eq_right (by omega : u64Max ≤ 2 ^ (attempt - 1)), min_eq_right hsat, min_eq_right hmax,
      min_eq_right (by omega)]

/-- The bound of the boot check, with its three saturations. -/
theorem worstCase_eq (hattempts : 1 ≤ config.webhookRetryAttempts)
    (hmax : timing.webhookRetryMaxDelayMs ≤ u64Max) : worstCaseInlineDeliverySecs config timing =
      saturating (saturating (config.webhookRetryAttempts * timing.webhookTimeoutSecs) +
        (saturating (overGaps config.webhookRetryAttempts timing.exactCeiling) + 999) / 1000) := by
  have hfold := foldl_saturating timing.retryCeiling
    (List.range' 1 (config.webhookRetryAttempts - 1)) 0
  have hceilings : (List.range' 1 (config.webhookRetryAttempts - 1)).map timing.retryCeiling =
      (List.range' 1 (config.webhookRetryAttempts - 1)).map timing.exactCeiling :=
    List.map_congr_left fun k _ => retryCeiling_eq hmax k
  rw [show saturating 0 = 0 from rfl, Nat.zero_add, hceilings] at hfold
  simp only [worstCaseInlineDeliverySecs]
  rw [max_eq_left hattempts, hfold]
  rfl

theorem overGaps_le (attempts : ℕ) {f g : ℕ → ℕ} (h : ∀ k, f k ≤ g k) :
    overGaps attempts f ≤ overGaps attempts g := by
  apply List.sum_le_sum
  exact fun k _ => h k

theorem delayAfter_le (timing : TimingConfig) (attempt random : ℕ) :
    timing.delayAfter attempt random ≤ retryDelayCeiling timing attempt := retryDelay_le

theorem retryDelayCeiling_le (timing : TimingConfig) (attempt : ℕ) :
    retryDelayCeiling timing attempt ≤ timing.exactCeiling attempt := by
  have hfactor : min (2 ^ (attempt - 1)) u32Max ≤ 2 ^ (attempt - 1) := min_le_left _ _
  exact min_le_min_right _ (Nat.mul_le_mul_left _ hfactor)

/-- The bound covers every sequence of jittered delays just when the longest delays do not outgrow
the 64 bits of milliseconds in which the bound is summed. -/
theorem worstCase_covers_iff (hattempts : 1 ≤ config.webhookRetryAttempts)
    (hmax : timing.webhookRetryMaxDelayMs ≤ u64Max)
    (hfit : exactInlineSecs config timing ≤ u64Max) :
    (∀ random : ℕ → ℕ, config.webhookRetryAttempts * timing.webhookTimeoutSecs * 1000 +
        overGaps config.webhookRetryAttempts (fun k => timing.delayAfter k (random k)) ≤
      worstCaseInlineDeliverySecs config timing * 1000) ↔
    overGaps config.webhookRetryAttempts (retryDelayCeiling timing) ≤ 18446744073709552000 := by
  have hexact := overGaps_le config.webhookRetryAttempts (retryDelayCeiling_le timing)
  have hworst := worstCase_eq hattempts hmax
  unfold exactInlineSecs at hfit
  generalize config.webhookRetryAttempts * timing.webhookTimeoutSecs = timeouts at *
  generalize overGaps config.webhookRetryAttempts timing.exactCeiling = exact at *
  rw [saturating_of_le (by omega : timeouts ≤ u64Max)] at hworst
  have hcovers : overGaps config.webhookRetryAttempts (retryDelayCeiling timing) ≤
      18446744073709552000 ↔
      timeouts * 1000 + overGaps config.webhookRetryAttempts (retryDelayCeiling timing) ≤
        worstCaseInlineDeliverySecs config timing * 1000 := by
    rw [hworst]
    unfold saturating u64Max at *
    omega
  rw [hcovers]
  constructor
  · intro h
    have hlongest := h fun k =>
      longestDraw k timing.webhookRetryDelayMs timing.webhookRetryMaxDelayMs
    have hdelays : (fun k => timing.delayAfter k (longestDraw k timing.webhookRetryDelayMs
        timing.webhookRetryMaxDelayMs)) = retryDelayCeiling timing :=
      funext fun k => retryDelay_longestDraw
    rw [hdelays] at hlongest
    exact hlongest
  · intro h random
    have hdelays := overGaps_le config.webhookRetryAttempts fun k =>
      delayAfter_le timing k (random k)
    omega

/-- The cast of the bound to `i64`: beyond the largest `i64` it is negative. -/
theorem bmod_worstCase (config : Config) (timing : TimingConfig) :
    Int.bmod (worstCaseInlineDeliverySecs config timing) 18446744073709551616 =
      if (worstCaseInlineDeliverySecs config timing : ℤ) ≤ i64Max then
        (worstCaseInlineDeliverySecs config timing : ℤ)
      else worstCaseInlineDeliverySecs config timing - 18446744073709551616 := by
  have hle : worstCaseInlineDeliverySecs config timing ≤ u64Max := min_le_right _ _
  generalize worstCaseInlineDeliverySecs config timing = worst at hle
  unfold u64Max at hle
  unfold i64Max
  rw [Int.bmod_def]
  split_ifs <;> omega

theorem worstCase_covers_iff_default :
    let config := Grace.Sample.env.config
    let timing := Grace.Sample.timing
    (∀ random : ℕ → ℕ, config.webhookRetryAttempts * timing.webhookTimeoutSecs * 1000 +
        overGaps config.webhookRetryAttempts (fun k => timing.delayAfter k (random k)) ≤
      worstCaseInlineDeliverySecs config timing * 1000) ↔
    overGaps config.webhookRetryAttempts (retryDelayCeiling timing) ≤ 18446744073709552000 :=
  worstCase_covers_iff (by decide) (by decide) (by decide)

/-- Two gaps of the longest delay that the settings can hold: their sum saturates. -/
theorem worstCase_too_short :
    let config := Grace.Sample.env.config
    let timing := { Grace.Sample.timing with
      webhookRetryDelayMs := u64Max, webhookRetryMaxDelayMs := u64Max, webhookTimeoutSecs := 1 }
    exactInlineSecs config timing ≤ u64Max ∧
      ¬ ∀ random : ℕ → ℕ, config.webhookRetryAttempts * timing.webhookTimeoutSecs * 1000 +
          overGaps config.webhookRetryAttempts (fun k => timing.delayAfter k (random k)) ≤
        worstCaseInlineDeliverySecs config timing * 1000 := by
  constructor
  · decide +kernel
  · intro h
    exact absurd (h fun _ => 9223372036854775808) (by decide +kernel)

/-- The settings with the shortest grace window that still boots. -/
def shortestGrace (config : Config) (delivery : DeliveryConfig) (timing : TimingConfig) :
    DeliveryConfig :=
  { delivery with
    redriveGraceSecs := Int.bmod (worstCaseInlineDeliverySecs config timing) 18446744073709551616 }

theorem redriveGraceSecs_shortestGrace (config : Config) (delivery : DeliveryConfig)
    (timing : TimingConfig) :
    (shortestGrace config delivery timing).redriveGraceSecs =
      Int.bmod (worstCaseInlineDeliverySecs config timing) 18446744073709551616 := by
  simp only [shortestGrace]

theorem Timed.shortestGrace {delivery : DeliveryConfig} (h : Timed config delivery timing) :
    Timed config (shortestGrace config delivery timing) timing := by
  have hgrace := redriveGraceSecs_shortestGrace config delivery timing
  unfold StellarGate.shortestGrace at hgrace ⊢
  constructor
  · exact h.polls
  · exact h.staleness
  · exact h.ttl
  · exact h.batch
  · exact h.attempts
  · exact h.delay
  · exact h.cap
  · exact hgrace.ge
  · exact h.jitter
  · exact h.request
  · exact h.backoff

/-- The boot check makes the grace window cover the exact bound just when neither the sum of the
delays saturates nor the bound leaves the range of `i64`, whatever the grace window. -/
theorem grace_covers_iff (hmax : timing.webhookRetryMaxDelayMs ≤ u64Max)
    (hboots : ∃ delivery, validateTiming config delivery timing = .ok ()) :
    (∀ delivery, -9223372036854775808 ≤ delivery.redriveGraceSecs →
      delivery.redriveGraceSecs ≤ i64Max →
      validateTiming config delivery timing = .ok () →
        (exactInlineSecs config timing : ℤ) ≤ delivery.redriveGraceSecs) ↔
    (exactInlineSecs config timing : ℤ) ≤ i64Max ∧
      (overGaps config.webhookRetryAttempts timing.exactCeiling + 999) / 1000 ≤
      18446744073709552 := by
  obtain ⟨delivery, hok⟩ := hboots
  have htimed := validateTiming_eq_ok.mp hok
  have hworst := worstCase_eq htimed.attempts hmax
  have hcast := bmod_worstCase config timing
  have hexact : exactInlineSecs config timing =
      config.webhookRetryAttempts * timing.webhookTimeoutSecs +
        (overGaps config.webhookRetryAttempts timing.exactCeiling + 999) / 1000 := rfl
  generalize config.webhookRetryAttempts * timing.webhookTimeoutSecs = timeouts at hworst hexact
  generalize overGaps config.webhookRetryAttempts timing.exactCeiling = delays at hworst hexact ⊢
  rw [hexact]
  unfold saturating u64Max at hworst
  have hi64 : i64Max = 9223372036854775807 := rfl
  constructor
  · intro h
    have hgrace : (shortestGrace config delivery timing).redriveGraceSecs =
        if (worstCaseInlineDeliverySecs config timing : ℤ) ≤ i64Max then
          (worstCaseInlineDeliverySecs config timing : ℤ)
        else worstCaseInlineDeliverySecs config timing - 18446744073709551616 := by
      rw [redriveGraceSecs_shortestGrace, hcast]
    have hshortest := h (shortestGrace config delivery timing) (by rw [hgrace]; split_ifs <;> omega)
      (by rw [hgrace]; split_ifs <;> omega) (validateTiming_eq_ok.mpr htimed.shortestGrace)
    rw [hgrace] at hshortest
    split_ifs at hshortest <;> omega
  · rintro ⟨hfit, hdelays⟩ other - - hother
    have hgrace := (validateTiming_eq_ok.mp hother).grace
    rw [hcast] at hgrace
    split_ifs at hgrace <;> omega

/-- The default settings, which boot with a grace window of 45 seconds. -/
theorem grace_covers_iff_default :
    let config := Grace.Sample.env.config
    let timing := Grace.Sample.timing
    (∀ delivery, -9223372036854775808 ≤ delivery.redriveGraceSecs →
      delivery.redriveGraceSecs ≤ i64Max →
      validateTiming config delivery timing = .ok () →
        (exactInlineSecs config timing : ℤ) ≤ delivery.redriveGraceSecs) ↔
    (exactInlineSecs config timing : ℤ) ≤ i64Max ∧
      (overGaps config.webhookRetryAttempts timing.exactCeiling + 999) / 1000 ≤ 18446744073709552 :=
  grace_covers_iff (by decide) ⟨Grace.Sample.delivery 45, by decide⟩

/-- A timeout so long that the bound saturates, and is then read as `-1`. -/
theorem grace_too_short :
    let timing := { Grace.Sample.timing with webhookTimeoutSecs := u64Max }
    validateTiming Grace.Sample.env.config (Grace.Sample.delivery 60) timing = .ok () ∧
      ¬ (exactInlineSecs Grace.Sample.env.config timing : ℤ) ≤
      (Grace.Sample.delivery 60).redriveGraceSecs := by
  decide +kernel

end Saturation

structure InlineAttempt where
  tookMs : ℕ
  delivered : Bool
  random : ℕ

/-- A POST of the inline loop: its number, the moment it is sent in milliseconds, and its
`X-StellarGate-Timestamp`. -/
structure InlinePost where
  attempt : ℕ
  sentMs : ℕ
  timestamp : ℕ
  deriving DecidableEq, Repr

/-- The loop of `dispatch` with `left` attempts to go. The headers are made
once, before the loop. -/
def inlineLoop (timing : TimingConfig) (timestamp : ℕ) (meets : ℕ → InlineAttempt) :
    (left attempt clock : ℕ) → List InlinePost
  | 0, _, _ => []
  | left + 1, attempt, clock =>
    ⟨attempt, clock, timestamp⟩ ::
      if (meets attempt).delivered then []
      else inlineLoop timing timestamp meets left (attempt + 1)
        (clock + (meets attempt).tookMs + timing.delayAfter attempt (meets attempt).random)

/-- The POSTs of a `dispatch` that is signed at `signedMs` and looks its
target up for `lookupMs`. -/
def inlinePosts (env : Env) (timing : TimingConfig) (signedMs lookupMs : ℕ)
    (meets : ℕ → InlineAttempt) :
    List InlinePost :=
  inlineLoop timing (signedMs / 1000) meets (Dispatch.attempts env) 1 (signedMs + lookupMs)

/-- The tolerance that receivers are told to use. -/
def toleranceMs : ℕ := 300000

/-- Every inline POST leaves while its timestamp is within the tolerance. -/
def InTolerance (env : Env) (timing : TimingConfig) : Prop :=
  ∀ (signedMs lookupMs : ℕ) (meets : ℕ → InlineAttempt), lookupMs ≤ resolveTimeoutMs →
    (∀ k, (meets k).tookMs ≤ timing.webhookTimeoutSecs * 1000) →
    ∀ post ∈ inlinePosts env timing signedMs lookupMs meets,
      post.sentMs ≤ post.timestamp * 1000 + toleranceMs

section Tolerance
variable {env : Env} {timing : TimingConfig} {timestamp start : ℕ} {meets : ℕ → InlineAttempt}

/-- The POSTs of the loop are those of the step machine, at moments when it can be there. -/
theorem inlineLoop_underway {d : Dispatch} {id : String} {db : Db}
    (htook : ∀ k, (meets k).tookMs ≤ timing.webhookTimeoutSecs * 1000) {left k clock : ℕ}
    (hleft : left = 0 ∨ k + left = Dispatch.attempts env)
    (h : Underway env timing d start (.post id (k + 1)) db clock)
    {post : InlinePost} (hpost : post ∈ inlineLoop timing timestamp meets left (k + 1) clock) :
    post.timestamp = timestamp ∧ Underway env timing d start (.post id post.attempt)
      db post.sentMs := by
  induction left generalizing k clock with
  | zero => cases hpost
  | succ left ih =>
    rcases List.mem_cons.mp hpost with rfl | hpost
    · exact ⟨rfl, h⟩
    split_ifs at hpost
    · cases hpost
    by_cases hlast : left = 0
    · rw [hlast] at hpost
      cases hpost
    have hstep : d.step env 0 ⟨"", false, fun _ => 0⟩ (.post id (k + 1)) db =
        (.post id (k + 1 + 1), db) := by
      simp only [Dispatch.step, Bool.false_eq_true, if_false]
      rw [if_pos (by omega)]
    have hnext := h.step 0 ⟨"", false, fun _ => 0⟩ rfl
      (Nat.le_add_right clock
        ((meets (k + 1)).tookMs + timing.delayAfter (k + 1) (meets (k + 1)).random))
      (by
        have hdelay := delayAfter_le timing (k + 1) (meets (k + 1)).random
        have htook := htook (k + 1)
        rw [hstep]
        simp only [stepMs]
        omega)
    rw [hstep, ← Nat.add_assoc] at hnext
    exact ih (.inr (by omega)) hnext hpost

theorem exists_underway (env : Env) (timing : TimingConfig) (start : ℕ) :
    ∃ d id db, Underway env timing d start (.connect id) db start := by
  obtain ⟨rows, hinsert, -⟩ := Table.insert_of_fresh (t := Db.empty.webhookDeliveries)
    (r := { someRow with createdAt := strftime (start / 1000 : ℕ) })
    (by simp [Db.empty, Table.empty])
  have hsave : Db.empty.saveWebhookDelivery (start / 1000 : ℕ) "d1" someDispatch.payment.id
      "https://shop.example/hook" (buildPayload someDispatch.payment someDispatch.event
        someDispatch.delta).toJson someDispatch.event.name =
          some { Db.empty with webhookDeliveries := rows } :=
    Option.map_eq_some_iff.mpr ⟨rows, hinsert, rfl⟩
  exact ⟨someDispatch, _, _,
    @Underway.stored env timing someDispatch start _ ⟨"d1", true, fun _ => 0⟩ _ _ rfl hsave⟩

theorem inlinePosts_le {signedMs lookupMs : ℕ} (hlookup : lookupMs ≤ resolveTimeoutMs)
    (htook : ∀ k, (meets k).tookMs ≤ timing.webhookTimeoutSecs * 1000) {post : InlinePost}
    (h : post ∈ inlinePosts env timing signedMs lookupMs meets) : post.timestamp = signedMs / 1000 ∧
      post.attempt ≤ Dispatch.attempts env ∧ post.sentMs ≤ signedMs + elapsedMs timing
        (post.attempt - 1) := by
  obtain ⟨d, id, db, hstored⟩ := exists_underway env timing signedMs
  have hconnected : Underway env timing d signedMs (.post id 1) db (signedMs + lookupMs) :=
    hstored.step 0 ⟨"", true, fun _ => 0⟩ rfl (Nat.le_add_right _ _) (Nat.add_le_add_left hlookup _)
  obtain ⟨hstamp, hunder⟩ := inlineLoop_underway htook (.inr (Nat.zero_add _)) hconnected h
  exact ⟨hstamp, (hunder.le.2 _ _ rfl).2, hunder.le.1⟩

/-- Attempts that all time out, with the longest delays after them. -/
def slowestAttempts (timing : TimingConfig) (k : ℕ) : InlineAttempt :=
  ⟨timing.webhookTimeoutSecs * 1000, false,
    longestDraw k timing.webhookRetryDelayMs timing.webhookRetryMaxDelayMs⟩

theorem slowestAttempts_last (timestamp start left k : ℕ) :
    ⟨k + left + 1, start + elapsedMs timing (k + left), timestamp⟩ ∈
      inlineLoop timing timestamp (slowestAttempts timing) (left + 1) (k + 1)
        (start + elapsedMs timing k) := by
  induction left generalizing k with
  | zero => exact List.mem_cons_self
  | succ left ih =>
    apply List.mem_cons_of_mem
    have hdelay : timing.delayAfter (k + 1) (slowestAttempts timing (k + 1)).random =
        retryDelayCeiling timing (k + 1) := retryDelay_longestDraw
    have hclock : start + elapsedMs timing k + (slowestAttempts timing (k + 1)).tookMs +
        timing.delayAfter (k + 1) (slowestAttempts timing (k + 1)).random =
          start + elapsedMs timing (k + 1) := by
      rw [hdelay, Nat.add_assoc, Nat.add_assoc]
      rfl
    have hlast := ih (k + 1)
    rw [show k + 1 + left = k + (left + 1) by omega] at hlast
    have hfailed : (slowestAttempts timing (k + 1)).delivered = false := rfl
    rw [hfailed, if_neg Bool.false_ne_true, hclock]
    exact hlast

/-- Every inline POST is in tolerance just when the last one is that is sent as late as it can be,
with a signature made at the end of a second. -/
theorem inTolerance_iff (env : Env) (timing : TimingConfig) :
    InTolerance env timing ↔ elapsedMs timing (Dispatch.attempts env - 1) + 999 ≤ toleranceMs := by
  have hpos : 1 ≤ Dispatch.attempts env := le_max_right _ _
  constructor
  · intro h
    obtain ⟨left, hleft⟩ : ∃ left, Dispatch.attempts env = left + 1 :=
        ⟨Dispatch.attempts env - 1, by omega⟩
    have hlast := @slowestAttempts_last timing (999 / 1000) 999 left 0
    have hlate := h 999 resolveTimeoutMs (slowestAttempts timing) le_rfl (fun _ => le_rfl) _ (by
      unfold inlinePosts
      rw [hleft]
      exact hlast)
    rw [hleft, Nat.add_sub_cancel]
    simp only [Nat.zero_add] at hlate
    omega
  · intro h signedMs lookupMs meets hlookup htook post hpost
    obtain ⟨hstamp, hattempt, hsent⟩ := inlinePosts_le hlookup htook hpost
    have hmono := @elapsedMs_mono timing _ _ (show post.attempt - 1 ≤ Dispatch.attempts env - 1 by
      omega)
    rw [hstamp]
    omega

end Tolerance

/-- Five attempts that wait a minute each. -/
def patientEnv : Env :=
  { Grace.Sample.env with config := { Grace.Sample.env.config with webhookRetryAttempts := 5 } }
def patientTiming : TimingConfig := { Grace.Sample.timing with webhookTimeoutSecs := 60 }

/-- Settings that boot, with a last POST 318 seconds after its timestamp. -/
theorem late_post :
    validateTiming patientEnv.config (Grace.Sample.delivery 400) patientTiming = .ok () ∧
      ⟨5, 318000, 0⟩ ∈ inlinePosts patientEnv patientTiming 0 3000 (slowestAttempts patientTiming) ∧
      ¬ InTolerance patientEnv patientTiming := by
  have hpost : ⟨5, 318000, 0⟩ ∈ inlinePosts patientEnv patientTiming 0 3000
      (slowestAttempts patientTiming) := by
    decide
  refine ⟨by decide, hpost, fun h => ?_⟩
  exact absurd (h 0 3000 (slowestAttempts patientTiming) le_rfl (fun _ => le_rfl) _ hpost)
    (by decide)

end StellarGate
