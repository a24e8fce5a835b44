import StellarGate.Db.Instants
import StellarGate.Timing
import StellarGate.Webhook.Dispatch

/-! The grace window of the redrive worker against the time one `dispatch` can take. Instants are
milliseconds; the database clock shows whole seconds. -/
namespace StellarGate
open Base

namespace Grace

/-- `RESOLVE_TIMEOUT`. -/
def resolveTimeoutMs : ℕ := 3000

/-- `u32::MAX`. -/
def u32Max : ℕ := 4294967295

/-- The longest `retry_delay` after an attempt. -/
def retryDelayCeiling (timing : TimingConfig) (attempt : ℕ) : ℕ :=
  min (timing.webhookRetryDelayMs * min (2 ^ (attempt - 1)) u32Max) timing.webhookRetryMaxDelayMs

/-- The most a step of `dispatch` takes: the lookup, a POST, or a POST and the gap after it. -/
def stepMs (timing : TimingConfig) : DispatchPc → DispatchPc → ℕ
  | .connect _, _ => resolveTimeoutMs
  | .post _ k, .post _ _ => timing.webhookTimeoutSecs * 1000 + retryDelayCeiling timing k
  | .post _ _, _ => timing.webhookTimeoutSecs * 1000
  | _, _ => 0

def exchanging : DispatchPc → Bool
  | .connect _ | .post _ _ => true
  | .start | .finish _ _ _ | .done => false

/-- The delivery of a `dispatch` that has stored its row. -/
def deliveryId : DispatchPc → Option String
  | .connect id | .post id _ | .finish id _ _ => some id
  | .start | .done => none

/-- Where a `dispatch` that stored its row at `start` can stand, with which database, and when. At
`finish` it is about to write the outcome. Others leave its row alone. -/
inductive Underway (env : Env) (timing : TimingConfig) (d : Dispatch) (start : ℕ) :
    DispatchPc → Db → ℕ → Prop
  | stored {url : String} {r : Reply} {db db' : Db} (hurl : d.payment.webhookUrl = some url)
      (hsave : db.saveWebhookDelivery (start / 1000 : ℕ) r.uuid d.payment.id url
        (buildPayload d.payment d.event d.delta).toJson d.event.name = some db') :
      Underway env timing d start (.connect r.uuid) db' start
  | step {pc : DispatchPc} {db : Db} {clock later : ℕ} (now : ℤ) (r : Reply)
      (h : Underway env timing d start pc db clock) (hpc : exchanging pc = true)
      (hfrom : clock ≤ later) (hto : later ≤ clock + stepMs timing pc (d.step env now r pc db).1) :
      Underway env timing d start (d.step env now r pc db).1 (d.step env now r pc db).2 later
  | others {pc : DispatchPc} {db db' : Db} {clock : ℕ} (h : Underway env timing d start pc db clock)
      (hsame : ∀ row, deliveryId pc = some row.id →
        (row ∈ db'.webhookDeliveries.rows ↔ row ∈ db.webhookDeliveries.rows)) :
      Underway env timing d start pc db' clock

/-- While a `dispatch` is under way, its row is not eligible. -/
def NeverRaced (env : Env) (delivery : DeliveryConfig) (timing : TimingConfig) : Prop :=
  ∀ (d : Dispatch) (start : ℕ) (pc : DispatchPc) (db : Db) (clock : ℕ),
    InRange (start / 1000 : ℕ) → Underway env timing d start pc db clock →
    ∀ t, start ≤ t → t ≤ clock → ∀ random, ∀ row ∈ db.webhookDeliveries.rows,
      deliveryId pc = some row.id → Db.redrivable delivery (t / 1000 : ℕ) random row = false

/-- The longest a `dispatch` can take before its POST number `k + 1`. -/
def elapsedMs (timing : TimingConfig) : ℕ → ℕ
  | 0 => resolveTimeoutMs
  | k + 1 =>
    elapsedMs timing k + (timing.webhookTimeoutSecs * 1000 + retryDelayCeiling timing (k + 1))

/-- The longest a `dispatch` can take from its row to its last statement. -/
def longestDispatchMs (env : Env) (timing : TimingConfig) : ℕ :=
  elapsedMs timing (Dispatch.attempts env - 1) + timing.webhookTimeoutSecs * 1000

section
variable {env : Env} {delivery : DeliveryConfig} {timing : TimingConfig} {d : Dispatch}
  {start clock : ℕ} {pc : DispatchPc} {db : Db}

theorem elapsedMs_mono {j k : ℕ} (h : j ≤ k) : elapsedMs timing j ≤ elapsedMs timing k := by
  induction k with
  | zero => rw [Nat.le_zero.mp h]
  | succ k ih =>
    rcases h.lt_or_eq with hlt | rfl
    · have hle := ih (by omega)
      simp only [elapsedMs]
      omega
    · exact le_rfl

/-- The latest instant at which a `dispatch` reaches each place. -/
def latest (env : Env) (timing : TimingConfig) : DispatchPc → ℕ
  | .start | .connect _ => 0
  | .post _ k => elapsedMs timing (k - 1)
  | .finish _ _ _ | .done => longestDispatchMs env timing

/-- A `dispatch` under way is at a POST it has attempts for, and not late. -/
theorem Underway.le (h : Underway env timing d start pc db clock) :
    clock ≤ start + latest env timing pc ∧
      ∀ id k, pc = .post id k → 1 ≤ k ∧ k ≤ Dispatch.attempts env := by
  have hpos : 1 ≤ Dispatch.attempts env := le_max_right _ _
  induction h with
  | stored => exact ⟨le_rfl, by simp⟩
  | others _ _ ih => exact ih
  | @step pc db clock later now r _ hpc _ hto ih =>
    obtain ⟨hle, hk⟩ := ih
    cases pc with
    | connect id =>
      simp only [latest] at hle
      have hbase := @elapsedMs_mono timing _ _ (Nat.zero_le (Dispatch.attempts env - 1))
      simp only [elapsedMs] at hbase
      simp only [Dispatch.step] at hto ⊢
      split_ifs at hto ⊢
      · simp only [stepMs, latest, Nat.sub_self, elapsedMs] at hto ⊢
        exact ⟨by omega, by simpa using hpos⟩
      · simp only [stepMs, latest, longestDispatchMs] at hto ⊢
        exact ⟨by omega, by simp⟩
    | post id k =>
      obtain ⟨hk1, hk2⟩ := hk id k rfl
      simp only [latest] at hle
      have hlast := @elapsedMs_mono timing _ _ (show k - 1 ≤ Dispatch.attempts env - 1 by omega)
      simp only [Dispatch.step] at hto ⊢
      split_ifs at hto ⊢
      · simp only [stepMs, latest, longestDispatchMs] at hto ⊢
        exact ⟨by omega, by simp⟩
      · obtain ⟨j, rfl⟩ : ∃ j, k = j + 1 := ⟨k - 1, by omega⟩
        simp only [stepMs, latest, Nat.add_sub_cancel, elapsedMs] at hto hle ⊢
        exact ⟨by omega, by simp; omega⟩
      · simp only [stepMs, latest, longestDispatchMs] at hto ⊢
        exact ⟨by omega, by simp⟩
    | start | finish id status n | done => cases hpc

theorem exchange {now : ℤ} {r : Reply} (hpc : exchanging pc = true) :
    (d.step env now r pc db).2 = db ∧ deliveryId (d.step env now r pc db).1 = deliveryId pc := by
  cases pc with
  | connect id =>
    refine ⟨rfl, ?_⟩
    simp only [Dispatch.step]
    split_ifs <;> rfl
  | post id k =>
    refine ⟨rfl, ?_⟩
    simp only [Dispatch.step]
    split_ifs <;> rfl
  | start | finish id status n | done => cases hpc

/-- A row as `save_webhook_delivery` writes it at `start`. -/
structure Stored (start : ℕ) (row : WebhookDelivery) : Prop where
  status : row.status = .pending
  attempts : row.attempts = 0
  lastAttempt : row.lastAttempt = none
  createdAt : row.createdAt = strftime (start / 1000 : ℕ)

theorem Underway.row (h : Underway env timing d start pc db clock) {row : WebhookDelivery}
    (hrow : row ∈ db.webhookDeliveries.rows) (hid : deliveryId pc = some row.id) :
    Stored start row := by
  induction h with
  | @stored url r db db' _ hsave =>
    obtain ⟨rows, hinsert, rfl⟩ := Option.map_eq_some_iff.mp hsave
    have hrows := (Table.insert_eq_some hinsert).1
    have hnew : _ ∈ rows.rows := hrows ▸ List.mem_append_right _ (List.mem_singleton_self _)
    have heq := Table.eq_of_key (k := WebhookDelivery.id) (by simp) hrow hnew
      (Option.some.inj hid).symm
    rw [heq]
    exact ⟨rfl, rfl, rfl, rfl⟩
  | step now r _ hpc _ _ ih =>
    rw [(exchange hpc).1] at hrow
    rw [(exchange hpc).2] at hid
    exact ih hrow hid
  | others _ hsame ih => exact ih ((hsame row hid).mp hrow) hid

theorem redrivable_stored {now : ℤ} {random : String → ℕ} {row : WebhookDelivery}
    (h : Stored start row) (hin : InRange (start / 1000 : ℕ)) :
    Db.redrivable delivery now random row = true ↔ 0 < delivery.redriveMaxAttempts ∧
      0 ≤ delivery.redriveGraceSecs + Db.jitter delivery (random row.id) ∧
      (start / 1000 : ℕ) + (delivery.redriveGraceSecs + Db.jitter delivery (random row.id)) ≤
      now := by
  have hread : unixTime (row.lastAttempt.getD row.createdAt) = some ((start / 1000 : ℕ) : ℤ) := by
    rw [h.lastAttempt, h.createdAt]
    exact unixTime_strftime hin
  have hwindow : Db.redriveWindow delivery 0 = delivery.redriveGraceSecs := if_pos rfl
  simp [Db.redrivable, hread, hwindow, h.status, h.attempts]

theorem jitter_nonneg (random : ℕ) : 0 ≤ Db.jitter delivery random := by
  unfold Db.jitter
  split_ifs
  · exact Int.emod_nonneg _ (by omega)
  · exact le_rfl

theorem jitter_zero : Db.jitter delivery 0 = 0 := by
  simp [Db.jitter]

/-- A grace window longer than the longest `dispatch`, in the seconds the clock shows, is enough. -/
theorem neverRaced_of_lt
    (h : (((longestDispatchMs env timing + 999) / 1000 : ℕ) : ℤ) < delivery.redriveGraceSecs) :
    NeverRaced env delivery timing := by
  intro d start pc db clock hin hunder t _ ht random row hrow hid
  have hstored := hunder.row hrow hid
  have hclock : clock ≤ start + longestDispatchMs env timing := by
    have hle := hunder.le.1
    have hlatest : latest env timing pc ≤ longestDispatchMs env timing := by
      cases pc with
      | post id k =>
        have hk := (hunder.le.2 id k rfl).2
        have hmono := @elapsedMs_mono timing _ _ (show k - 1 ≤ Dispatch.attempts env - 1 by omega)
        exact hmono.trans (Nat.le_add_right _ _)
      | start | connect id => exact Nat.zero_le _
      | finish id status n | done => exact le_rfl
    omega
  rw [Bool.eq_false_iff]
  intro hred
  have hdue := ((redrivable_stored hstored hin).mp hred).2.2
  have hjitter := @jitter_nonneg delivery (random row.id)
  omega

/-- A lookup, a POST and a gap that each take all the time there is. -/
theorem slowest {id : String} (h : Underway env timing d start (.connect id) db start) {k : ℕ}
    (hk : k + 1 ≤ Dispatch.attempts env) :
    Underway env timing d start (.post id (k + 1)) db (start + elapsedMs timing k) := by
  induction k with
  | zero => exact h.step 0 ⟨"", true, fun _ => 0⟩ rfl (Nat.le_add_right _ _) le_rfl
  | succ k ih =>
    have hstep : d.step env 0 ⟨"", false, fun _ => 0⟩ (.post id (k + 1)) db =
        (.post id (k + 1 + 1), db) := by
      simp only [Dispatch.step, Bool.false_eq_true, if_false]
      rw [if_pos (by omega)]
    have hfrom : start + elapsedMs timing k ≤ start + elapsedMs timing (k + 1) := by
      simp only [elapsedMs]
      omega
    have hnext := (ih (by omega)).step 0 ⟨"", false, fun _ => 0⟩ rfl hfrom (by
      rw [hstep]
      simp only [elapsedMs, stepMs]
      omega)
    rw [hstep] at hnext
    exact hnext

/-- A `dispatch` of `longestDispatchMs`, all of whose attempts fail. -/
theorem slowest_finish {id : String} (h : Underway env timing d start (.connect id) db start) :
    Underway env timing d start (.finish id .failed (Dispatch.attempts env)) db
      (start + longestDispatchMs env timing) := by
  have hpos : 1 ≤ Dispatch.attempts env := le_max_right _ _
  have hlast := slowest h (k := Dispatch.attempts env - 1) (by omega)
  rw [Nat.sub_add_cancel hpos] at hlast
  have hstep : d.step env 0 ⟨"", false, fun _ => 0⟩ (.post id (Dispatch.attempts env)) db =
      (.finish id .failed (Dispatch.attempts env), db) := by
    simp [Dispatch.step]
  have hfrom : start + elapsedMs timing (Dispatch.attempts env - 1) ≤
      start + longestDispatchMs env timing := by
    simp only [longestDispatchMs]
    omega
  have hnext := hlast.step 0 ⟨"", false, fun _ => 0⟩ rfl hfrom (by
    rw [hstep]
    simp only [longestDispatchMs, stepMs]
    omega)
  rw [hstep] at hnext
  exact hnext

/-- Some call of `dispatch`. -/
def someDispatch : Dispatch :=
  ⟨⟨"p1", "m", "GDEST", "memo", "1", "XLM", none, .completed, some "https://shop.example/hook",
    some "tx", some "1", "2026-04-29T15:00:00Z", "2026-04-29T15:10:00Z", "2026-04-29T16:00:00Z"⟩,
    .completed, none⟩

/-- Its row, where it starts in the first second of 1970. -/
def someRow : WebhookDelivery :=
  { id := "d1", paymentId := someDispatch.payment.id, url := "https://shop.example/hook",
    payload := (buildPayload someDispatch.payment someDispatch.event someDispatch.delta).toJson,
    eventType := some someDispatch.event.name, status := .pending, attempts := 0,
      lastAttempt := none,
    acknowledgedAt := none, createdAt := strftime 0 }

/-- A `dispatch` that begins at the end of a second and takes as long as it can is raced. -/
theorem raced_of_le (hmax : 0 < delivery.redriveMaxAttempts)
    (hgrace : 0 ≤ delivery.redriveGraceSecs)
    (h : delivery.redriveGraceSecs ≤ ((longestDispatchMs env timing + 999) / 1000 : ℕ)) :
    ¬ NeverRaced env delivery timing := by
  intro hnever
  obtain ⟨rows, hinsert, hrows⟩ :=
    Table.insert_of_fresh (t := Db.empty.webhookDeliveries) (r := someRow)
      (by simp [Db.empty, Table.empty])
  have hsave : Db.empty.saveWebhookDelivery (999 / 1000 : ℕ) "d1" someDispatch.payment.id
      "https://shop.example/hook" (buildPayload someDispatch.payment someDispatch.event
        someDispatch.delta).toJson someDispatch.event.name =
          some { Db.empty with webhookDeliveries := rows } :=
    Option.map_eq_some_iff.mpr ⟨rows, hinsert, rfl⟩
  have hstart : Underway env timing someDispatch 999 (.connect "d1") _ 999 :=
    @Underway.stored env timing someDispatch 999 _ ⟨"d1", true, fun _ => 0⟩ _ _ rfl hsave
  have hunder := slowest_finish hstart
  have hmem : someRow ∈ rows.rows := hrows ▸ List.mem_append_right _ (List.mem_singleton_self _)
  have hin : InRange ((999 / 1000 : ℕ) : ℤ) := by decide
  have hfalse := hnever _ _ _ _ _ hin hunder _ (Nat.le_add_right _ _) le_rfl (fun _ => 0)
    someRow hmem rfl
  have hdue := @redrivable_stored delivery 999 ((999 + longestDispatchMs env timing) / 1000 : ℕ)
    (fun _ => 0) _ (hunder.row hmem rfl) hin
  rw [hfalse, jitter_zero] at hdue
  exact Bool.false_ne_true (hdue.mpr ⟨hmax, by omega, by omega⟩)

end

/-- With a configuration that boots, the redrive worker races no `dispatch` just when
it sends nothing, or the grace window is longer than the longest `dispatch` in the
seconds the clock shows. -/
theorem neverRaced_iff {env : Env} {delivery : DeliveryConfig} {timing : TimingConfig}
    (hboot : validateTiming env.config delivery timing = .ok ())
    (hfit : worstCaseInlineDeliverySecs env.config timing < 9223372036854775808) :
    NeverRaced env delivery timing ↔ delivery.redriveMaxAttempts ≤ 0 ∨
      (((longestDispatchMs env timing + 999) / 1000 : ℕ) : ℤ) < delivery.redriveGraceSecs := by
  have hgrace : 0 ≤ delivery.redriveGraceSecs := by
    have hworst := (validateTiming_eq_ok.mp hboot).grace
    rw [Int.bmod_eq_of_le (by omega) (by omega)] at hworst
    omega
  constructor
  · intro hnever
    by_contra hn
    obtain ⟨hmax, hle⟩ := not_or.mp hn
    exact raced_of_le (by omega) hgrace (by omega) hnever
  · rintro (hmax | hlt)
    · intro d start pc db clock hin hunder t _ _ random row hrow hid
      rw [Bool.eq_false_iff]
      intro hred
      have hpos := ((redrivable_stored (hunder.row hrow hid) hin).mp hred).1
      omega
    · exact neverRaced_of_lt hlt

namespace Sample

def env : Env :=
  ⟨⟨"testnet", "GATE", [⟨"XLM", none⟩], 3, ["https"], 3600, 500⟩, id, fun _ => some "https"⟩

def timing : TimingConfig :=
  { pollIntervalSecs := 10, cursorStalenessMultiple := 3, webhookRetryDelayMs := 5000,
    webhookRetryMaxDelayMs := 60000, webhookTimeoutSecs := 10, requestTimeoutSecs := 30 }

def delivery (graceSecs : ℤ) : DeliveryConfig :=
  { redriveMaxAttempts := 10, redriveGraceSecs := graceSecs, redriveBackoffInitialSecs := 30,
    redriveBackoffMaxSecs := 3600, redriveJitterSecs := 15, redriveConcurrency := 5,
    webhookDeliveryRetentionDays := 30, idempotencyRetentionDays := 7 }

end Sample

theorem neverRaced_default : NeverRaced Sample.env (Sample.delivery 60) Sample.timing :=
  (neverRaced_iff (by decide) (by decide)).mpr (.inr (by decide))

/-- The grace window may be as short as the worst case that the boot computes, where the lookup and
the fraction of a second are left out. -/
theorem worst_case_raced :
    validateTiming Sample.env.config (Sample.delivery 45) Sample.timing = .ok () ∧
    worstCaseInlineDeliverySecs Sample.env.config Sample.timing = 45 ∧
    ¬ NeverRaced Sample.env (Sample.delivery 45) Sample.timing :=
  ⟨by decide, by decide, raced_of_le (by decide) (by decide) (by decide)⟩

end Grace
end StellarGate
