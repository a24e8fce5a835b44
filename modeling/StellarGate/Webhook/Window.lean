import StellarGate.Db.Deliveries

/-! The window that `list_redrivable_deliveries` of `src/db.rs` leaves a delivery alone for: an
exponential backoff over the attempts, between the grace and the longest wait. -/
namespace StellarGate
open Base

/-- Settings of the redrive worker that are not negative, in order, and below 2 ^ 30 seconds. -/
structure DeliveryConfig.Bounded (c : DeliveryConfig) : Prop where
  grace : 0 ≤ c.redriveGraceSecs ∧ c.redriveGraceSecs < 2 ^ 30
  initial : 0 ≤ c.redriveBackoffInitialSecs ∧ c.redriveBackoffInitialSecs ≤ c.redriveBackoffMaxSecs
  max : c.redriveBackoffMaxSecs < 2 ^ 30
  jitter : 0 ≤ c.redriveJitterSecs ∧ c.redriveJitterSecs < 2 ^ 30

namespace Db
section Factor
variable {m n attempts : ℤ}

theorem redriveFactor_of_pos (h : 1 ≤ attempts) :
    redriveFactor attempts = 2 ^ (min (attempts - 1) 32).toNat :=
  shiftLeft_one_eq_pow (by omega) (by omega)

theorem redriveFactor_of_le_zero (h : attempts ≤ 0) : redriveFactor attempts = 0 :=
  shiftLeft_one_of_neg (by omega)

theorem redriveFactor_bounds (attempts : ℤ) :
    0 ≤ redriveFactor attempts ∧ redriveFactor attempts ≤ 2 ^ 32 := by
  rcases le_or_gt attempts 0 with h | h
  · rw [redriveFactor_of_le_zero h]
    decide
  · rw [redriveFactor_of_pos h]
    exact ⟨pow_nonneg (by decide) _, pow_le_pow_right₀ (by decide) (by omega)⟩

theorem redriveFactor_mono (h : m ≤ n) : redriveFactor m ≤ redriveFactor n := by
  rcases le_or_gt m 0 with hm | hm
  · rw [redriveFactor_of_le_zero hm]
    exact (redriveFactor_bounds n).1
  · rw [redriveFactor_of_pos hm, redriveFactor_of_pos (by omega)]
    exact pow_le_pow_right₀ (by decide) (by omega)

end Factor

section Window
variable {c : DeliveryConfig} {attempts : ℤ}

/-- The product stays far below 2 ^ 63. -/
theorem redriveProduct_fits (h : c.Bounded) (attempts : ℤ) :
    FitsInt64 (c.redriveBackoffInitialSecs * redriveFactor attempts) := by
  obtain ⟨h0, hfactor⟩ := redriveFactor_bounds attempts
  have hinitial : c.redriveBackoffInitialSecs < 2 ^ 30 := lt_of_le_of_lt h.initial.2 h.max
  have hlow : 0 ≤ c.redriveBackoffInitialSecs * redriveFactor attempts := mul_nonneg h.initial.1 h0
  have hhigh : c.redriveBackoffInitialSecs * redriveFactor attempts ≤ 2 ^ 30 * 2 ^ 32 :=
    mul_le_mul hinitial.le hfactor h0 (by decide)
  unfold FitsInt64
  omega

/-- The clamp of the exponent is hidden by the cap. -/
theorem min_redriveFactor (h : c.Bounded) (ha : 1 ≤ attempts) :
    min (c.redriveBackoffInitialSecs * redriveFactor attempts) c.redriveBackoffMaxSecs =
      min (c.redriveBackoffInitialSecs * 2 ^ (attempts - 1).toNat) c.redriveBackoffMaxSecs := by
  rw [redriveFactor_of_pos ha]
  by_cases hclamp : attempts - 1 ≤ 32
  · rw [min_eq_left hclamp]
  rcases h.initial.1.lt_or_eq with hpos | hzero
  · have hpow : (2 : ℤ) ^ 32 ≤ 2 ^ (attempts - 1).toNat := pow_le_pow_right₀ (by decide) (by omega)
    have hbig : (2 : ℤ) ^ 32 ≤ c.redriveBackoffInitialSecs * 2 ^ 32 :=
        le_mul_of_one_le_left (by decide) hpos
    have hbigger : c.redriveBackoffInitialSecs * 2 ^ 32 ≤
        c.redriveBackoffInitialSecs * 2 ^ (attempts - 1).toNat :=
        mul_le_mul_of_nonneg_left hpow hpos.le
    have hexp : (min (attempts - 1) 32).toNat = 32 := by omega
    have hmax := h.max
    rw [hexp, min_eq_right (by omega), min_eq_right (by omega)]
  · rw [← hzero, zero_mul, zero_mul]

theorem redriveWindow_of_pos (ha : 1 ≤ attempts) : redriveWindow c attempts = max c.redriveGraceSecs
    (min (c.redriveBackoffInitialSecs * redriveFactor attempts) c.redriveBackoffMaxSecs) :=
  if_neg (by omega)

/-- At zero attempts the backoff would change nothing. -/
theorem redriveWindow_eq (h : c.Bounded) (attempts : ℤ) :
    redriveWindow c attempts = max c.redriveGraceSecs
      (min (c.redriveBackoffInitialSecs * redriveFactor attempts) c.redriveBackoffMaxSecs) := by
  unfold redriveWindow
  split_ifs with hzero
  · have hgrace := h.grace.1
    have hmax : 0 ≤ c.redriveBackoffMaxSecs := h.initial.1.trans h.initial.2
    rw [hzero, redriveFactor_of_le_zero (le_refl 0), mul_zero, min_eq_left hmax, max_eq_left hgrace]
  · rfl

/-- The window never shrinks as the attempts grow. -/
theorem redriveWindow_mono (h : c.Bounded) {m n : ℤ} (hmn : m ≤ n) :
    redriveWindow c m ≤ redriveWindow c n := by
  rw [redriveWindow_eq h, redriveWindow_eq h]
  have hmul := mul_le_mul_of_nonneg_left (redriveFactor_mono hmn) h.initial.1
  exact max_le_max (le_refl _) (min_le_min hmul (le_refl _))

theorem grace_le_redriveWindow (h : c.Bounded) (attempts : ℤ) :
    c.redriveGraceSecs ≤ redriveWindow c attempts := by
  rw [redriveWindow_eq h]
  exact le_max_left _ _

theorem redriveWindow_le (h : c.Bounded) (attempts : ℤ) :
    redriveWindow c attempts ≤ max c.redriveGraceSecs c.redriveBackoffMaxSecs := by
  rw [redriveWindow_eq h]
  exact max_le_max (le_refl _) (min_le_right _ _)

theorem backoff_le_redriveWindow (h : c.Bounded) (ha : 1 ≤ attempts) :
    min (c.redriveBackoffInitialSecs * 2 ^ (attempts - 1).toNat) c.redriveBackoffMaxSecs ≤
      redriveWindow c attempts := by
  rw [redriveWindow_of_pos ha, min_redriveFactor h ha]
  exact le_max_right _ _

theorem jitter_bounds (h : c.Bounded) (random : ℕ) :
    0 ≤ jitter c random ∧ jitter c random ≤ c.redriveJitterSecs := by
  unfold jitter
  split_ifs with hpos
  · have hlt := Int.emod_lt_of_pos (random : ℤ) (by omega : 0 < c.redriveJitterSecs + 1)
    exact ⟨Int.emod_nonneg _ (by omega), by omega⟩
  · exact ⟨le_refl 0, h.jitter.1⟩

end Window

section Selection
variable {c : DeliveryConfig} {now : ℤ} {random tie : String → ℕ} {db : Db} {d : WebhookDelivery}

/-- When the last attempt, or the creation, was. -/
def idleSince (d : WebhookDelivery) : Option ℤ := unixTime (d.lastAttempt.getD d.createdAt)

theorem redrivable_iff (h : c.Bounded) : redrivable c now random d = true ↔
    (d.status = .pending ∨ d.status = .failed) ∧ d.attempts < c.redriveMaxAttempts ∧
      ∃ t, idleSince d = some t ∧ redriveWindow c d.attempts + jitter c (random d.id) ≤
      now - t := by
  have hgrace := grace_le_redriveWindow h d.attempts
  have hjitter := jitter_bounds h (random d.id)
  have hpos : 0 ≤ redriveWindow c d.attempts + jitter c (random d.id) := by
    have := h.grace.1
    omega
  unfold redrivable idleSince
  simp only [Bool.and_eq_true, Bool.or_eq_true, decide_eq_true_eq, Option.any_eq_true, hpos,
    true_and, and_assoc]
  constructor
  · rintro ⟨hstatus, hattempts, t, ht, hle⟩
    exact ⟨hstatus, hattempts, t, ht, by omega⟩
  · rintro ⟨hstatus, hattempts, t, ht, hle⟩
    exact ⟨hstatus, hattempts, t, ht, by omega⟩

theorem id_mem_listRedrivableDeliveries (hd : d ∈ db.webhookDeliveries.rows) :
    d.id ∈ (db.listRedrivableDeliveries c now random tie).map WebhookDelivery.id ↔
      redrivable c now random d = true := by
  unfold listRedrivableDeliveries
  simp only [List.map_map, List.mem_map, Function.comp_apply, List.mem_insertionSort,
    List.mem_filter]
  constructor
  · rintro ⟨e, ⟨he, hred⟩, hid⟩
    have hsame : e = d := Table.eq_of_key (k := WebhookDelivery.id) (by simp) he hd hid
    rwa [hsame] at hred
  · intro hred
    exact ⟨d, ⟨hd, hred⟩, rfl⟩

/-- A selected row has waited for the grace and, once attempted, for its backoff. -/
theorem waited_of_redrivable (h : c.Bounded) (hred : redrivable c now random d = true) :
    ∃ t, idleSince d = some t ∧ c.redriveGraceSecs ≤ now - t ∧
      (1 ≤ d.attempts → min (c.redriveBackoffInitialSecs * 2 ^ (d.attempts - 1).toNat)
        c.redriveBackoffMaxSecs ≤ now - t) := by
  obtain ⟨-, -, t, ht, hle⟩ := (redrivable_iff h).mp hred
  have hgrace := grace_le_redriveWindow h d.attempts
  have hjitter := (jitter_bounds h (random d.id)).1
  refine ⟨t, ht, by omega, ?_⟩
  intro ha
  have hbackoff := backoff_le_redriveWindow h ha
  exact hbackoff.trans (by omega)

/-- No draw keeps a row back for longer than the longest wait and the jitter. -/
theorem redrivable_of_waited (h : c.Bounded) {t : ℤ}
    (hstatus : d.status = .pending ∨ d.status = .failed) (ha : d.attempts < c.redriveMaxAttempts)
    (ht : idleSince d = some t)
    (hle : max c.redriveGraceSecs c.redriveBackoffMaxSecs + c.redriveJitterSecs ≤ now - t) :
    redrivable c now random d = true := by
  have hwindow := redriveWindow_le h d.attempts
  have hjitter := (jitter_bounds h (random d.id)).2
  exact (redrivable_iff h).mpr ⟨hstatus, ha, t, ht, by omega⟩

end Selection

/-- The redrive window is a monotone backoff between the grace and the longest wait, and no step of
its arithmetic leaves 64 bits. -/
theorem redrive_window {c : DeliveryConfig} (h : c.Bounded) :
    (∀ (db : Db) (d : WebhookDelivery) (now : ℤ) (random tie : String → ℕ),
      d ∈ db.webhookDeliveries.rows →
      (d.id ∈ (db.listRedrivableDeliveries c now random tie).map WebhookDelivery.id →
        ∃ t, idleSince d = some t ∧ c.redriveGraceSecs ≤ now - t ∧
          (1 ≤ d.attempts →
            min (c.redriveBackoffInitialSecs * 2 ^ (d.attempts - 1).toNat) c.redriveBackoffMaxSecs ≤
              now - t)) ∧
      ∀ t, (d.status = .pending ∨ d.status = .failed) → d.attempts < c.redriveMaxAttempts →
        idleSince d = some t →
        max c.redriveGraceSecs c.redriveBackoffMaxSecs + c.redriveJitterSecs ≤ now - t →
        d.id ∈ (db.listRedrivableDeliveries c now random tie).map WebhookDelivery.id) ∧
    (∀ m n : ℤ, m ≤ n → redriveWindow c m ≤ redriveWindow c n) ∧
    ∀ attempts : ℤ, (1 ≤ attempts → redriveFactor attempts = 2 ^ (min (attempts - 1) 32).toNat) ∧
      FitsInt64 (redriveFactor attempts) ∧
      FitsInt64 (c.redriveBackoffInitialSecs * redriveFactor attempts) := by
  refine ⟨?_, fun m n => redriveWindow_mono h, ?_⟩
  · intro db d now random tie hd
    constructor
    · intro hlisted
      exact waited_of_redrivable h ((id_mem_listRedrivableDeliveries hd).mp hlisted)
    · intro t hstatus ha ht hle
      exact (id_mem_listRedrivableDeliveries hd).mpr (redrivable_of_waited h hstatus ha ht hle)
  · intro attempts
    have hfactor := redriveFactor_bounds attempts
    refine ⟨redriveFactor_of_pos, ?_, redriveProduct_fits h attempts⟩
    unfold FitsInt64
    omega

namespace Sample

/-- The defaults of the redrive worker. -/
def redriveDefaults : DeliveryConfig := ⟨8, 60, 30, 900, 30, 4, 30, 7⟩

def failedDelivery : WebhookDelivery :=
  ⟨"w1", "p1", "https://shop.example/hook", "body", some "payment.completed", .failed, 3,
    some "2026-04-29T15:00:00Z", none, "2026-04-29T14:00:00Z"⟩

def deliveries : Db := { Db.empty with webhookDeliveries := ⟨[failedDelivery], by simp⟩ }

end Sample

/-- With the defaults, a third attempt that failed is followed up after two minutes at the earliest
and after fifteen and a half at the latest. -/
theorem redrive_window_defaults :
    "w1" ∉ (Sample.deliveries.listRedrivableDeliveries Sample.redriveDefaults (1777474800 + 119)
        (fun _ => 0) (fun _ => 0)).map WebhookDelivery.id ∧
      "w1" ∈ (Sample.deliveries.listRedrivableDeliveries Sample.redriveDefaults (1777474800 + 930)
        (fun _ => 30) (fun _ => 0)).map WebhookDelivery.id := by
  have hbounded : Sample.redriveDefaults.Bounded := ⟨by decide, by decide, by decide, by decide⟩
  have hmem : Sample.failedDelivery ∈ Sample.deliveries.webhookDeliveries.rows :=
      List.mem_singleton_self _
  have hsince : idleSince Sample.failedDelivery = some 1777474800 := by decide
  have hrow := (redrive_window hbounded).1 Sample.deliveries Sample.failedDelivery
  constructor
  · intro hlisted
    obtain ⟨t, ht, -, hwaited⟩ := (hrow _ _ _ hmem).1 hlisted
    obtain rfl := Option.some.inj (hsince.symm.trans ht)
    exact absurd (hwaited (by decide)) (by decide)
  · exact (hrow _ _ _ hmem).2 1777474800 (.inr rfl) (by decide) hsince (by decide)

end Db
end StellarGate
