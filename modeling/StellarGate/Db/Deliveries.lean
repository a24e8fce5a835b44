import StellarGate.Base.Int64
import StellarGate.Db.Listing

/-! The statements of `src/db.rs` behind the redrive worker and the retention worker. -/
namespace StellarGate
open Base

/-- The inverse of `civilFromDays`. -/
def daysFromCivil (year month day : ℤ) : ℤ :=
  let y := if month ≤ 2 then year - 1 else year
  let yoe := y % 400
  let doy := (153 * (if 2 < month then month - 3 else month + 9) + 2) / 5 + day - 1
  y / 400 * 146097 + (yoe * 365 + yoe / 4 - yoe / 100 + doy) - 719468

def number (cs : List Char) : Option ℤ :=
  cs.foldl
    (fun acc c => acc.bind fun n => if c.isDigit then some (10 * n + (c.toNat - 48 : ℕ)) else none)
    (some 0)

/-- How SQLite's date functions read a stored timestamp of the form that `strftime` writes; `none`
is NULL. They read other forms too, such as a lower-case `z`, which no statement stores. -/
def unixTime (ts : String) : Option ℤ :=
  match ts.toList with
  | [y₁, y₂, y₃, y₄, '-', m₁, m₂, '-', d₁, d₂, 'T', h₁, h₂, ':', n₁, n₂, ':', s₁, s₂, 'Z'] =>
    (number [y₁, y₂, y₃, y₄]).bind fun year => (number [m₁, m₂]).bind fun month =>
      (number [d₁, d₂]).bind fun day => (number [h₁, h₂]).bind fun hour =>
        (number [n₁, n₂]).bind fun minute => (number [s₁, s₂]).bind fun second =>
          if 1 ≤ month ∧ month ≤ 12 ∧ 1 ≤ day ∧ day ≤ 31 ∧ hour ≤ 24 ∧ minute ≤ 59 ∧ second ≤ 59
          then
            some (daysFromCivil year month day * 86400 + hour * 3600 + minute * 60 + second)
          else none
  | _ => none

example : unixTime (strftime 1777474800) = some 1777474800 := by decide

structure DeliveryConfig where
  redriveMaxAttempts : ℤ
  redriveGraceSecs : ℤ
  redriveBackoffInitialSecs : ℤ
  redriveBackoffMaxSecs : ℤ
  redriveJitterSecs : ℤ
  redriveConcurrency : ℕ
  webhookDeliveryRetentionDays : ℤ
  idempotencyRetentionDays : ℤ
  deriving DecidableEq, Repr

namespace Db

/-- `1 << MIN(attempts - 1, 32)`. -/
def redriveFactor (attempts : ℤ) : ℤ := shiftLeft 1 (min (attempts - 1) 32)

/-- How long a row with so many attempts is left alone, the jitter apart. -/
def redriveWindow (c : DeliveryConfig) (attempts : ℤ) : ℤ :=
  if attempts = 0 then c.redriveGraceSecs
  else max c.redriveGraceSecs
    (min (c.redriveBackoffInitialSecs * redriveFactor attempts) c.redriveBackoffMaxSecs)

/-- `ABS(RANDOM()) % (n + 1)`, where there is a jitter at all. -/
def jitter (c : DeliveryConfig) (random : ℕ) : ℤ :=
  if 0 < c.redriveJitterSecs then random % (c.redriveJitterSecs + 1) else 0

/-- The `WHERE` clause of `list_redrivable_deliveries`. A modifier such as
`+-5 seconds` gives NULL. -/
def redrivable (c : DeliveryConfig) (now : ℤ) (random : String → ℕ) (d : WebhookDelivery) : Bool :=
  let window := redriveWindow c d.attempts + jitter c (random d.id)
  (d.status = .pending || d.status = .failed) && d.attempts < c.redriveMaxAttempts &&
    (unixTime (d.lastAttempt.getD d.createdAt)).any fun t => 0 ≤ window && t + window ≤ now

/-- `ORDER BY created_at ASC`, equal values in the order of `tie`. -/
def redriveOrder (tie : String → ℕ) (a b : WebhookDelivery) : Prop :=
  a.createdAt < b.createdAt ∨ (a.createdAt = b.createdAt ∧ tie a.id ≤ tie b.id)

instance (tie : String → ℕ) : DecidableRel (redriveOrder tie) := fun a b =>
  inferInstanceAs (Decidable
    (a.createdAt < b.createdAt ∨ (a.createdAt = b.createdAt ∧ tie a.id ≤ tie b.id)))

def listRedrivableDeliveries (c : DeliveryConfig) (now : ℤ) (random tie : String → ℕ) (db : Db) :
    List WebhookDelivery :=
  ((db.webhookDeliveries.rows.filter (redrivable c now random)).insertionSort
    (redriveOrder tie)).map rowToWebhookDelivery

def pruneBatch : ℤ := 500

/-- The text of `strftime(…, 'now', '-n days')`. No text is below NULL, and
none below the empty one. -/
def cutoff (now days : ℤ) : String := (strftimeChecked (now - days * 86400)).getD ""

/-- The `LIMIT` of a batch; without an order, SQLite takes the rows in any order. -/
def batch {ρ : Type} (tie : ρ → ℕ) (p : ρ → Bool) (rows : List ρ) : List ρ :=
  limit pruneBatch ((rows.filter p).insertionSort fun a b => tie a ≤ tie b)

/-- The `WHERE` clause of `prune_webhook_deliveries`. -/
def prunable (now days : ℤ) (d : WebhookDelivery) : Bool :=
  (d.status = .delivered || (d.status = .failed && d.acknowledgedAt.isSome)) &&
  d.createdAt < cutoff now days

/-- `prune_webhook_deliveries`, with the number of rows deleted. -/
def pruneWebhookDeliveries (now days : ℤ) (tie : String → ℕ) (db : Db) : ℕ × Db :=
  let ids := (batch (fun d => tie d.id) (prunable now days) db.webhookDeliveries.rows).map
    WebhookDelivery.id
  (ids.length,
    { db with webhookDeliveries := db.webhookDeliveries.delete fun d => ids.contains d.id })

/-- The `WHERE` clause of `compact_stale_failed_deliveries`. -/
def compactable (now days : ℤ) (d : WebhookDelivery) : Bool :=
  d.status = .failed && d.acknowledgedAt.isNone && d.payload ≠ "" && d.createdAt < cutoff now days

def compactRow (d : WebhookDelivery) : WebhookDelivery := { d with payload := "" }

theorem compactRow_keys : ∀ k ∈ [WebhookDelivery.id], ∀ d, k (compactRow d) = k d := by
  simp [compactRow]

/-- `compact_stale_failed_deliveries`, with the number of rows updated. -/
def compactStaleFailedDeliveries (now days : ℤ) (tie : String → ℕ) (db : Db) : ℕ × Db :=
  let ids := (batch (fun d => tie d.id) (compactable now days) db.webhookDeliveries.rows).map
    WebhookDelivery.id
  let hit := fun d : WebhookDelivery => ids.contains d.id
  let webhookDeliveries := db.webhookDeliveries.update hit compactRow compactRow_keys
  (ids.length, { db with webhookDeliveries })

/-- `prune_idempotency_keys`, with the number of rows deleted. -/
def pruneIdempotencyKeys (now days : ℤ) (tie : String → ℕ) (db : Db) : ℕ × Db :=
  let keys := (batch (fun r : IdempotencyKey => tie r.idempotencyKey)
    (fun r => r.createdAt < cutoff now days) db.idempotencyKeys.rows).map IdempotencyKey.key
  (keys.length,
    { db with idempotencyKeys := db.idempotencyKeys.delete fun r => keys.contains r.key })

end Db
end StellarGate
