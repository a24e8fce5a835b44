import StellarGate.Base.Duration
import StellarGate.Base.Words
import StellarGate.Horizon.Backoff

/-! `retry_delay` of `src/webhook.rs` in the arithmetic it computes with, and the use
`next_poll_delay` of `src/horizon.rs` makes of it. -/
namespace StellarGate
open Base Grace Backoff

/-- `retry_delay`, with the draw of its jitter. It is none where a sum or a difference overflows. -/
def retryDelayChecked (attempt : UInt32) (base maxDelay : Duration) (random : ℕ) :
    Option Duration :=
  let factor := saturatingPow 2 (saturatingSub attempt 1)
  let ceiling := min (base.saturatingMul factor.toNat) maxDelay
  -- `as u64` drops the upper half of the 128 bits.
  let ceilingMs := UInt64.ofNat ceiling.asMillis
  if ceilingMs = 0 then some (.ofMillis 0)
  else
    let half := ceilingMs / 2
    (checkedSub ceilingMs half).bind fun span =>
      (checkedAdd half (UInt64.ofNat (random % (span.toNat + 1)))).map Duration.ofMillis

/-- `next_poll_delay`. -/
def nextPollDelayChecked (consecutiveFailures : UInt32) (retryAfter : Option Duration)
    (random : ℕ) :
    Option Duration :=
  match retryAfter with
  | some d => some d
  | none => retryDelayChecked consecutiveFailures (.ofSecs 1) (.ofSecs 120) random

/-- The ceiling in machine arithmetic is the exact one. -/
theorem asMillis_ceiling (attempt : UInt32) (base maxDelay : UInt64) :
    (min ((Duration.ofMillis base).saturatingMul (saturatingPow 2 (saturatingSub attempt 1)).toNat)
      (Duration.ofMillis maxDelay)).asMillis = delayCeiling attempt.toNat base.toNat
        maxDelay.toNat := by
  rw [Duration.asMillis_min_saturatingMul, toNat_saturatingPow, toNat_saturatingSub]
  rfl

/-- The half of the ceiling and the draw from the rest fit a word. -/
theorem checked_jitter (ceiling : UInt64) (random : ℕ) :
    ∃ span d, checkedSub ceiling (ceiling / 2) = some span ∧
      checkedAdd (ceiling / 2) (UInt64.ofNat (random % (span.toNat + 1))) = some d ∧
      d.toNat = ceiling.toNat / 2 + random % (ceiling.toNat - ceiling.toNat / 2 + 1) := by
  have hlt := ceiling.toNat_lt
  have hhalf : (ceiling / 2).toNat = ceiling.toNat / 2 := UInt64.toNat_div ceiling 2
  obtain ⟨hsub, hspan⟩ := checkedSub_of_le (a := ceiling) (b := ceiling / 2) (by omega)
  rw [hhalf] at hspan
  obtain ⟨draw, hdraw⟩ : ∃ draw, draw = random % (ceiling.toNat - ceiling.toNat / 2 + 1) := ⟨_, rfl⟩
  have hle : draw ≤ ceiling.toNat - ceiling.toNat / 2 := by
    rw [hdraw]
    exact Nat.lt_succ_iff.mp (Nat.mod_lt random (Nat.succ_pos _))
  have hword : (UInt64.ofNat draw).toNat = draw :=
      toNat_ofNat_of_le (by omega : draw ≤ ceiling.toNat)
  obtain ⟨hadd, hsum⟩ := checkedAdd_of_lt (a := ceiling / 2) (b := UInt64.ofNat draw) (by omega)
  refine ⟨ceiling - ceiling / 2, ceiling / 2 + UInt64.ofNat draw, hsub, ?_, ?_⟩
  · rw [hspan, ← hdraw]
    exact hadd
  · rw [hsum, hhalf, hword, hdraw]

/-- In milliseconds, machine arithmetic computes the exact delay and never overflows. -/
theorem retryDelayChecked_eq (attempt : UInt32) (base maxDelay : UInt64) (random : ℕ) :
    ∃ d, retryDelayChecked attempt (.ofMillis base) (.ofMillis maxDelay) random =
      some (.ofMillis d) ∧
      d.toNat = retryDelay attempt.toNat base.toNat maxDelay.toNat random := by
  have hceiling : (UInt64.ofNat (delayCeiling attempt.toNat base.toNat maxDelay.toNat)).toNat =
      delayCeiling attempt.toNat base.toNat maxDelay.toNat := toNat_ofNat_of_le (min_le_right _ _)
  obtain ⟨span, d, hsub, hadd, hd⟩ :=
    checked_jitter (UInt64.ofNat (delayCeiling attempt.toNat base.toNat maxDelay.toNat)) random
  rw [hceiling] at hd
  unfold retryDelayChecked
  simp only [asMillis_ceiling]
  split_ifs with hzero
  · have hnone : delayCeiling attempt.toNat base.toNat maxDelay.toNat = 0 := by
      rw [← hceiling, hzero]
      rfl
    exact ⟨0, rfl, (if_pos hnone).symm⟩
  · have hsome : delayCeiling attempt.toNat base.toNat maxDelay.toNat ≠ 0 := by
      intro h
      rw [h] at hzero
      exact hzero rfl
    refine ⟨d, ?_, ?_⟩
    · rw [hsub, Option.bind_some, hadd, Option.map_some]
    · rw [hd]
      exact (if_neg hsome).symm

theorem delayCeiling_mono {m n : ℕ} (h : m ≤ n) (base maxDelay : ℕ) :
    delayCeiling m base maxDelay ≤ delayCeiling n base maxDelay := by
  have hpow : 2 ^ (m - 1) ≤ 2 ^ (n - 1) := Nat.pow_le_pow_right (by decide) (by omega)
  unfold delayCeiling
  exact min_le_min (Nat.mul_le_mul_left _ (min_le_min hpow (le_refl _))) (le_refl _)

/-- Without a `Retry-After` the poller waits as `retry_delay` does from one
second, up to two minutes. -/
theorem nextPollDelayChecked_none (failures : UInt32) (random : ℕ) :
    ∃ d, nextPollDelayChecked failures none random = some (.ofMillis d) ∧
      d.toNat = nextPollDelay failures.toNat none random :=
  retryDelayChecked_eq failures 1000 120000 random

theorem nextPollDelay_bounds (failures random : ℕ) :
    500 ≤ nextPollDelay failures none random ∧ nextPollDelay failures none random ≤ 120000 := by
  have hbase := pollBackoffBase_le_delayCeiling failures
  have hcap : delayCeiling failures pollBackoffBase pollBackoffMax ≤ 120000 := min_le_right _ _
  have hlow : delayCeiling failures pollBackoffBase pollBackoffMax / 2 ≤
    nextPollDelay failures none random :=
    half_le_retryDelay
  have hhigh : nextPollDelay failures none random ≤ delayCeiling failures pollBackoffBase
    pollBackoffMax :=
    retryDelay_le
  unfold pollBackoffBase at hbase hlow
  constructor <;> omega

/-- `retry_delay` stays between half its ceiling and its ceiling, and the ceiling grows with the
attempt; the poller waits between half a second and two minutes. -/
theorem retryDelay_band :
    (∀ (attempt : UInt32) (base maxDelay : UInt64) (random : ℕ),
      ∃ d, retryDelayChecked attempt (.ofMillis base) (.ofMillis maxDelay) random =
          some (.ofMillis d) ∧
        min (base.toNat * min (2 ^ (attempt.toNat - 1)) (2 ^ 32 - 1)) maxDelay.toNat / 2 ≤ d.toNat ∧
        d.toNat ≤ min (base.toNat * min (2 ^ (attempt.toNat - 1)) (2 ^ 32 - 1)) maxDelay.toNat) ∧
    (∀ (attempt attempt' : UInt32) (base maxDelay : UInt64), attempt ≤ attempt' →
      min (base.toNat * min (2 ^ (attempt.toNat - 1)) (2 ^ 32 - 1)) maxDelay.toNat ≤
        min (base.toNat * min (2 ^ (attempt'.toNat - 1)) (2 ^ 32 - 1)) maxDelay.toNat) ∧
    ∀ (failures : UInt32) (random : ℕ), ∃ d,
      nextPollDelayChecked failures none random = some (.ofMillis d) ∧
        500 ≤ d.toNat ∧ d.toNat ≤ 120000 := by
  refine ⟨?_, ?_, ?_⟩
  · intro attempt base maxDelay random
    obtain ⟨d, heq, hd⟩ := retryDelayChecked_eq attempt base maxDelay random
    refine ⟨d, heq, ?_⟩
    rw [hd]
    exact ⟨half_le_retryDelay, retryDelay_le⟩
  · intro attempt attempt' base maxDelay h
    exact delayCeiling_mono (UInt32.le_iff_toNat_le.mp h) base.toNat maxDelay.toNat
  · intro failures random
    obtain ⟨d, heq, hd⟩ := nextPollDelayChecked_none failures random
    refine ⟨d, heq, ?_⟩
    rw [hd]
    exact nextPollDelay_bounds failures.toNat random

/-- From one second and up to thirty, the twentieth attempt is followed by fifteen to thirty
seconds, and no attempt before it has a greater ceiling. -/
theorem retryDelay_band_twentieth :
    (∃ d, retryDelayChecked 20 (.ofMillis 1000) (.ofMillis 30000) 7 = some (.ofMillis d) ∧
      15000 ≤ d.toNat ∧ d.toNat ≤ 30000) ∧
    delayCeiling 3 1000 30000 ≤ delayCeiling 20 1000 30000 := by
  have hceiling : min ((1000 : UInt64).toNat * min (2 ^ ((20 : UInt32).toNat - 1)) (2 ^ 32 - 1))
      (30000 : UInt64).toNat = 30000 := by decide
  obtain ⟨d, heq, hlow, hhigh⟩ := retryDelay_band.1 20 1000 30000 7
  rw [hceiling] at hlow hhigh
  exact ⟨⟨d, heq, hlow, hhigh⟩, retryDelay_band.2.1 3 20 1000 30000 (by decide)⟩

end StellarGate
