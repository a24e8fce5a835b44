import StellarGate.Base.Batch
import StellarGate.Db.Clock
import StellarGate.Webhook.Retention

/-! A cycle of the retention worker with nothing else running: `prune_once` and `drain`
of `src/retention.rs`. -/
namespace StellarGate
open Base

namespace Retention

/-- `drain`, from the `k`-th call of `batch` on. -/
def drain {σ : Type*} (cap : ℕ) (batch : ℕ → σ → ℕ × σ) (k total : ℕ) (s : σ) : ℕ × σ :=
  let b := batch k s
  if (b.1 : ℤ) < Db.pruneBatch ∨ cap ≤ total + b.1 then (total + b.1, b.2)
  else drain cap batch (k + 1) (total + b.1) b.2
termination_by cap - total
decreasing_by
  have hfull : ¬ (((batch k s).1 : ℤ) < Db.pruneBatch ∨ cap ≤ total + (batch k s).1) := by
    assumption
  show cap - (total + (batch k s).1) < cap - total
  unfold Db.pruneBatch at hfull
  omega

/-- `prune_once`, with the counts it returns. `ties i k` settles which rows the `k`-th batch of the
`i`-th `drain` takes. -/
def pruneOnce (config : DeliveryConfig) (now : ℤ) (ties : ℕ → ℕ → String → ℕ) (db : Db) :
    (ℕ × ℕ) × Db :=
  let days := config.webhookDeliveryRetentionDays
  let deliveries :=
    if 0 < days then
      let pruned := drain Jobs.maxPerCycle (fun k => Db.pruneWebhookDeliveries now days (ties 0 k))
        0 0 db
      let compacted :=
        drain Jobs.maxPerCycle (fun k => Db.compactStaleFailedDeliveries now days (ties 1 k))
          0 0 pruned.2
      (pruned.1, compacted.2)
    else (0, db)
  let days := config.idempotencyRetentionDays
  let keys :=
    if 0 < days then
      drain Jobs.maxPerCycle (fun k => Db.pruneIdempotencyKeys now days (ties 2 k)) 0 0 deliveries.2
    else (0, deliveries.2)
  ((deliveries.1, keys.1), keys.2)

/-- `created_at` stands before the cutoff of so many days, as the statements compare the texts. -/
def older (now days : ℤ) (createdAt : String) : Bool := createdAt < Db.cutoff now days

/-- The `WHERE` clause of `prune_idempotency_keys`. -/
def agedKey (now days : ℤ) (r : IdempotencyKey) : Bool := older now days r.createdAt

def compact (d : WebhookDelivery) : Option WebhookDelivery := some (Db.compactRow d)

/-- Of the instants, `old days` holds of those more than `days` days before `now`. -/
def TellsAge (now : ℤ) (old : ℤ → String → Bool) : Prop :=
  ∀ days t, 0 < days → InRange t → (old days (strftime t) = true ↔ t < now - days * 86400)

/-- The cutoff tells the age, also where it lies before the year 0000. -/
theorem older_tellsAge {now : ℤ} (hnow : InRange now) : TellsAge now (older now) := by
  intro days t hdays ht
  have hlast : now - days * 86400 ≤ 253402300799 := by
    have := hnow.2
    omega
  by_cases hfirst : -62167219200 ≤ now - days * 86400
  · have hcut : Db.cutoff now days = strftime (now - days * 86400) := by
      unfold Db.cutoff strftimeChecked
      rw [if_pos ⟨hfirst, hlast⟩]
      rfl
    rw [older, hcut, decide_eq_true_iff]
    exact strftime_lt_iff ht ⟨hfirst, hlast⟩
  · have hcut : Db.cutoff now days = "" := by
      unfold Db.cutoff strftimeChecked
      rw [if_neg fun h => hfirst h.1]
      rfl
    rw [older, hcut, decide_eq_true_iff]
    refine iff_of_false (fun h => ?_) fun h => ?_
    · exact absurd (String.lt_iff_toList_lt.mp h) (List.not_lt_nil _)
    · have := ht.1
      omega

section Drain
variable {σ ρ : Type*} {p : ρ → Bool} {act : ρ → Option ρ} (rows : σ → List ρ) (same : σ → σ → Prop)
  {batch : ℕ → σ → ℕ × σ} {cap : ℕ}

theorem drain_of_short {k total : ℕ} {s : σ}
    (h : (batch k s).1 < 500 ∨ cap ≤ total + (batch k s).1) :
    drain cap batch k total s = (total + (batch k s).1, (batch k s).2) := by
  have hstop : ((batch k s).1 : ℤ) < Db.pruneBatch ∨ cap ≤ total + (batch k s).1 := by
    unfold Db.pruneBatch
    omega
  unfold drain
  exact if_pos hstop

theorem drain_of_full {k total : ℕ} {s : σ}
    (h : ¬ ((batch k s).1 < 500 ∨ cap ≤ total + (batch k s).1)) :
    drain cap batch k total s = drain cap batch (k + 1) (total + (batch k s).1) (batch k s).2 := by
  have hgo : ¬ (((batch k s).1 : ℤ) < Db.pruneBatch ∨ cap ≤ total + (batch k s).1) := by
    unfold Db.pruneBatch
    omega
  conv_lhs => unfold drain
  exact if_neg hgo

theorem drain_takes (hact : ∀ r r', act r = some r' → p r' = false)
    (htrans : ∀ s s' s'', same s s' → same s' s'' → same s s'')
    (hbatch : ∀ k s, TakesUpTo p act 500 (rows s) (rows (batch k s).2) (batch k s).1 ∧ same s
      (batch k s).2)
    (hcap : 500 ∣ cap) (k total : ℕ) (s : σ) (htotal : 500 ∣ total) (hlt : total < cap) :
    ∃ n, (drain cap batch k total s).1 = total + n ∧
      TakesUpTo p act (cap - total) (rows s) (rows (drain cap batch k total s).2) n ∧
      same s (drain cap batch k total s).2 := by
  induction hroom : cap - total using Nat.strong_induction_on generalizing k total s with
  | h room ih =>
    obtain ⟨htakes, hsame⟩ := hbatch k s
    have hle : (batch k s).1 ≤ 500 := by
      obtain ⟨-, -, -, hmin⟩ := htakes
      omega
    by_cases h : (batch k s).1 < 500 ∨ cap ≤ total + (batch k s).1
    · rw [drain_of_short h]
      refine ⟨_, rfl, ?_, hsame⟩
      by_cases hshort : (batch k s).1 < 500
      · exact htakes.short hshort (by omega)
      · have hsize : room = 500 := by omega
        rw [hsize]
        exact htakes
    · rw [drain_of_full h]
      obtain ⟨n, hn, hrest, hkeep⟩ := ih (cap - (total + (batch k s).1)) (by omega) (k + 1)
        (total + (batch k s).1) (batch k s).2 (by omega) (by omega) rfl
      refine ⟨(batch k s).1 + n, ?_, ?_, htrans _ _ _ hsame hkeep⟩
      · rw [hn]
        omega
      · have hsize : room = 500 + (cap - (total + (batch k s).1)) := by omega
        rw [hsize]
        exact htakes.trans hrest hact

theorem drain_maxPerCycle (hact : ∀ r r', act r = some r' → p r' = false)
    (htrans : ∀ s s' s'', same s s' → same s' s'' → same s s'')
    (hbatch : ∀ k s, TakesUpTo p act 500 (rows s) (rows (batch k s).2) (batch k s).1 ∧ same s
      (batch k s).2)
    (s : σ) :
    TakesUpTo p act 50000 (rows s) (rows (drain Jobs.maxPerCycle batch 0 0 s).2)
        (drain Jobs.maxPerCycle batch 0 0 s).1 ∧
      same s (drain Jobs.maxPerCycle batch 0 0 s).2 := by
  have hcap : Jobs.maxPerCycle = 50000 := rfl
  have hdiv : 500 ∣ Jobs.maxPerCycle := by
    rw [hcap]
    omega
  obtain ⟨n, hn, htakes, hsame⟩ := drain_takes rows same hact htrans hbatch hdiv 0 0 s
    (Nat.dvd_zero 500) (by omega)
  rw [hcap] at htakes
  rw [hn, Nat.zero_add]
  exact ⟨htakes, hsame⟩

end Drain

section Batches
variable {now days : ℤ}

def SameButDeliveries (db db' : Db) : Prop :=
  db'.payments = db.payments ∧ db'.processedTransactions = db.processedTransactions ∧
    db'.idempotencyKeys = db.idempotencyKeys

def SameButKeys (db db' : Db) : Prop :=
  db'.payments = db.payments ∧ db'.processedTransactions = db.processedTransactions ∧
    db'.webhookDeliveries = db.webhookDeliveries

theorem SameButDeliveries.trans (db db' db'' : Db) (h : SameButDeliveries db db')
    (h' : SameButDeliveries db' db'') : SameButDeliveries db db'' :=
  ⟨h'.1.trans h.1, h'.2.1.trans h.2.1, h'.2.2.trans h.2.2⟩

theorem SameButKeys.trans (db db' db'' : Db) (h : SameButKeys db db') (h' : SameButKeys db' db'') :
    SameButKeys db db'' :=
  ⟨h'.1.trans h.1, h'.2.1.trans h.2.1, h'.2.2.trans h.2.2⟩

theorem length_batch {ρ : Type} (tie : ρ → ℕ) (p : ρ → Bool) (rows : List ρ) :
    (Db.batch tie p rows).length = min (rows.countP p) 500 := by
  unfold Db.batch Db.pruneBatch
  rw [Db.length_limit (by decide), List.length_insertionSort, ← List.countP_eq_length_filter]
  exact Nat.min_comm _ _

theorem nodup_batch {ρ : Type} {tie : ρ → ℕ} {p : ρ → Bool} {rows : List ρ} (h : rows.Nodup) :
    (Db.batch tie p rows).Nodup := by
  have hsorted := (List.perm_insertionSort (fun a b => tie a ≤ tie b) (rows.filter p)).symm
  exact (hsorted.nodup (h.filter p)).sublist (Db.limit_sublist _ _)

theorem takesUpTo_batch {ρ κ : Type} [BEq κ] [LawfulBEq κ] {keys : List (ρ → κ)}
    (t : Table ρ κ keys) (key : ρ → κ) (hkey : key ∈ keys) (tie : ρ → ℕ) (p : ρ → Bool)
    (act : ρ → Option ρ) :
    TakesUpTo p act 500 t.rows
      (t.rows.filterMap fun r => if ((Db.batch tie p t.rows).map key).contains (key r) then act r
        else some r)
      ((Db.batch tie p t.rows).map key).length :=
  takesUpTo_of_keys (t.unique key hkey) (fun _ hr => Jobs.mem_batch hr)
    (nodup_batch (List.Nodup.of_map key (t.unique key hkey))) (length_batch _ _ _)

theorem pruneWebhookDeliveries_takes (now days : ℤ) (tie : String → ℕ) (db : Db) :
    TakesUpTo (Db.prunable now days) (fun _ => none) 500 db.webhookDeliveries.rows
        (db.pruneWebhookDeliveries now days tie).2.webhookDeliveries.rows
        (db.pruneWebhookDeliveries now days tie).1 ∧
      SameButDeliveries db (db.pruneWebhookDeliveries now days tie).2 := by
  refine ⟨?_, rfl, rfl, rfl⟩
  have h := takesUpTo_batch db.webhookDeliveries WebhookDelivery.id (by simp) (fun d => tie d.id)
    (Db.prunable now days) fun _ => none
  rw [filterMap_drop] at h
  exact h

theorem compactStaleFailedDeliveries_takes (now days : ℤ) (tie : String → ℕ) (db : Db) :
    TakesUpTo (Db.compactable now days) compact 500 db.webhookDeliveries.rows
        (db.compactStaleFailedDeliveries now days tie).2.webhookDeliveries.rows
        (db.compactStaleFailedDeliveries now days tie).1 ∧
      SameButDeliveries db (db.compactStaleFailedDeliveries now days tie).2 := by
  refine ⟨?_, rfl, rfl, rfl⟩
  have h := takesUpTo_batch db.webhookDeliveries WebhookDelivery.id (by simp) (fun d => tie d.id)
    (Db.compactable now days) compact
  unfold compact at h
  rw [filterMap_change] at h
  exact h

theorem pruneIdempotencyKeys_takes (now days : ℤ) (tie : String → ℕ) (db : Db) :
    TakesUpTo (agedKey now days) (fun _ => none) 500 db.idempotencyKeys.rows
        (db.pruneIdempotencyKeys now days tie).2.idempotencyKeys.rows
        (db.pruneIdempotencyKeys now days tie).1 ∧
      SameButKeys db (db.pruneIdempotencyKeys now days tie).2 := by
  refine ⟨?_, rfl, rfl, rfl⟩
  have h := takesUpTo_batch db.idempotencyKeys IdempotencyKey.key (by simp)
    (fun r => tie r.idempotencyKey) (agedKey now days) fun _ => none
  rw [filterMap_drop] at h
  exact h

theorem compact_not_compactable (d d' : WebhookDelivery) (h : compact d = some d') :
    Db.compactable now days d' = false := by
  cases h
  simp [Db.compactable, Db.compactRow]

/-- No delivery is deleted and compacted. -/
theorem not_compactable_of_prunable {d : WebhookDelivery} (h : Db.prunable now days d = true) :
    Db.compactable now days d = false := by
  unfold Db.prunable at h
  unfold Db.compactable
  cases hs : d.status <;> cases ha : d.acknowledgedAt <;> simp_all

end Batches

/-- The rows of a table that a cycle may take under a window of so many days. -/
def perCycle (days : ℤ) : ℕ := if 0 < days then 50000 else 0

def settled (d : WebhookDelivery) : Bool :=
  d.status = .delivered || d.status = .failed && d.acknowledgedAt.isSome

/-- The delivery has failed, nobody has acknowledged it, and its payload is kept. -/
def lingering (d : WebhookDelivery) : Bool :=
  d.status = .failed && d.acknowledgedAt.isNone && d.payload ≠ ""

/-- The database `final` of a cycle that starts from `db` and returns `counts`, where `old` tells
the age: it has deleted the deliveries `deleted` and the keys `dropped`, and emptied the payloads
of the deliveries `emptied`. -/
structure Cycle (config : DeliveryConfig) (old : ℤ → String → Bool) (db : Db) (counts : ℕ × ℕ)
    (final : Db) (deleted emptied : WebhookDelivery → Bool) (dropped : IdempotencyKey → Bool) :
    Prop where
  deletedAged : ∀ d ∈ db.webhookDeliveries.rows, deleted d = true →
    (settled d && old config.webhookDeliveryRetentionDays d.createdAt) = true
  emptiedAged : ∀ d ∈ db.webhookDeliveries.rows, emptied d = true →
    (lingering d && old config.webhookDeliveryRetentionDays d.createdAt) = true
  droppedAged : ∀ r ∈ db.idempotencyKeys.rows, dropped r = true →
    old config.idempotencyRetentionDays r.createdAt = true
  deletions : db.webhookDeliveries.rows.countP deleted =
    min (db.webhookDeliveries.rows.countP fun d =>
      settled d && old config.webhookDeliveryRetentionDays d.createdAt)
      (perCycle config.webhookDeliveryRetentionDays)
  emptyings : db.webhookDeliveries.rows.countP emptied =
    min (db.webhookDeliveries.rows.countP fun d =>
      lingering d && old config.webhookDeliveryRetentionDays d.createdAt)
      (perCycle config.webhookDeliveryRetentionDays)
  drops : db.idempotencyKeys.rows.countP dropped =
    min (db.idempotencyKeys.rows.countP fun r => old config.idempotencyRetentionDays r.createdAt)
      (perCycle config.idempotencyRetentionDays)
  counts : counts =
    (db.webhookDeliveries.rows.countP deleted, db.idempotencyKeys.rows.countP dropped)
  deliveries : final.webhookDeliveries.rows = db.webhookDeliveries.rows.filterMap fun d =>
    if deleted d then none else some (if emptied d then Db.compactRow d else d)
  keys : final.idempotencyKeys.rows = db.idempotencyKeys.rows.filter fun r => !dropped r
  others : final.payments = db.payments ∧ final.processedTransactions = db.processedTransactions

section Cycle
variable {now days : ℤ} {db : Db}

theorem deliveries_cycle (now days : ℤ) (ties : ℕ → ℕ → String → ℕ) (db : Db) :
    let r := if 0 < days then
        let pruned := drain Jobs.maxPerCycle
          (fun k => Db.pruneWebhookDeliveries now days (ties 0 k)) 0 0 db
        let compacted :=
          drain Jobs.maxPerCycle (fun k => Db.compactStaleFailedDeliveries now days (ties 1 k))
            0 0 pruned.2
        (pruned.1, compacted.2)
      else (0, db)
    ∃ rows n, TakesUpTo (Db.prunable now days) (fun _ => none) (perCycle days)
      db.webhookDeliveries.rows rows r.1 ∧
      TakesUpTo (Db.compactable now days) compact (perCycle days)
        rows r.2.webhookDeliveries.rows n ∧
      SameButDeliveries db r.2 := by
  unfold perCycle
  split_ifs with h
  · obtain ⟨hpruned, hsame⟩ := drain_maxPerCycle (fun db : Db => db.webhookDeliveries.rows)
      SameButDeliveries (by rintro _ _ ⟨⟩) SameButDeliveries.trans
      (fun k s => pruneWebhookDeliveries_takes now days (ties 0 k) s) db
    obtain ⟨hcompacted, hsame'⟩ := drain_maxPerCycle (fun db : Db => db.webhookDeliveries.rows)
      SameButDeliveries compact_not_compactable SameButDeliveries.trans
      (fun k s => compactStaleFailedDeliveries_takes now days (ties 1 k) s) _
    exact ⟨_, _, hpruned, hcompacted, hsame.trans _ _ _ hsame'⟩
  · exact ⟨_, 0, .none _ _ _, .none _ _ _, rfl, rfl, rfl⟩

theorem keys_cycle (now days : ℤ) (ties : ℕ → String → ℕ) (db : Db) :
    let r := if 0 < days then
        drain Jobs.maxPerCycle (fun k => Db.pruneIdempotencyKeys now days (ties k)) 0 0 db
      else (0, db)
    TakesUpTo (agedKey now days) (fun _ => none) (perCycle days) db.idempotencyKeys.rows
        r.2.idempotencyKeys.rows r.1 ∧
      SameButKeys db r.2 := by
  unfold perCycle
  split_ifs with h
  · exact drain_maxPerCycle (fun db : Db => db.idempotencyKeys.rows) SameButKeys (by rintro _ _ ⟨⟩)
      SameButKeys.trans
      (fun k s => pruneIdempotencyKeys_takes now days (ties k) s) db
  · exact ⟨.none _ _ _, rfl, rfl, rfl⟩

theorem Cycle.of_halves {config : DeliveryConfig} {d k : ℕ × Db} {rows : List WebhookDelivery}
    {n : ℕ} (hdeleted : TakesUpTo (Db.prunable now config.webhookDeliveryRetentionDays)
      (fun _ => none) (perCycle config.webhookDeliveryRetentionDays)
        db.webhookDeliveries.rows rows d.1)
    (hemptied : TakesUpTo (Db.compactable now config.webhookDeliveryRetentionDays) compact
      (perCycle config.webhookDeliveryRetentionDays) rows d.2.webhookDeliveries.rows n)
    (hsame : SameButDeliveries db d.2)
    (hdropped : TakesUpTo (agedKey now config.idempotencyRetentionDays) (fun _ => none)
      (perCycle config.idempotencyRetentionDays) d.2.idempotencyKeys.rows
        k.2.idempotencyKeys.rows k.1)
    (hsame' : SameButKeys d.2 k.2) :
    ∃ deleted emptied dropped,
      Cycle config (older now) db (d.1, k.1) k.2 deleted emptied dropped := by
  obtain ⟨deleted, hprune, hdeletions, hmin⟩ := hdeleted
  obtain ⟨emptied, hcompact, hemptyings, hmin'⟩ := hemptied
  obtain ⟨dropped, hdrop, hdrops, hmin''⟩ := hdropped
  rw [hsame.2.2] at hdrop hdrops hmin''
  have hrows : rows = db.webhookDeliveries.rows.filter fun r => !deleted r := by
    rw [hprune.left, filterMap_drop]
  have hcompactable := hprune.countP_of_disjoint (fun _ => not_compactable_of_prunable)
    (by rintro _ _ ⟨⟩)
  refine ⟨deleted, fun r => !deleted r && emptied r, dropped, hprune.meets, ?_, hdrop.meets, ?_,
    ?_, ?_, ?_, ?_, ?_, hsame'.1.trans hsame.1, hsame'.2.1.trans hsame.2.1⟩
  · intro r hr ht
    rw [Bool.and_eq_true] at ht
    apply hcompact.meets r _ ht.2
    rw [hrows]
    exact List.mem_filter.mpr ⟨hr, ht.1⟩
  · exact hdeletions.trans hmin
  · have hcount : db.webhookDeliveries.rows.countP (fun r => !deleted r && emptied r) =
        min (db.webhookDeliveries.rows.countP
          (Db.compactable now config.webhookDeliveryRetentionDays))
          (perCycle config.webhookDeliveryRetentionDays) := by
      rw [← hcompactable, ← hmin', ← hemptyings, hrows, List.countP_filter]
      simp only [Bool.and_comm]
    exact hcount
  · exact hdrops.trans hmin''
  · rw [hdeletions, hdrops]
  · rw [hsame'.2.2, hcompact.left, hprune.left, List.filterMap_filterMap]
    apply List.filterMap_congr
    intro r _
    by_cases ht : deleted r = true
    · rw [if_pos ht, if_pos ht]
      rfl
    · rw [if_neg ht, if_neg ht]
      have ht : deleted r = false := by simpa using ht
      rw [Option.bind_some, ht]
      unfold compact
      split_ifs <;> simp_all
  · rw [hdrop.left, filterMap_drop]

end Cycle

/-- `prune_once` removes what has aged out: what is older by the texts is, for a `created_at` that
`strftime` wrote, older by the clock. -/
theorem pruneOnce_exact (config : DeliveryConfig) {now : ℤ} (hnow : InRange now)
    (ties : ℕ → ℕ → String → ℕ) (db : Db) :
    TellsAge now (older now) ∧ ∃ deleted emptied dropped,
      Cycle config (older now) db (pruneOnce config now ties db).1 (pruneOnce config now ties db).2
        deleted emptied dropped := by
  constructor
  · exact older_tellsAge hnow
  · obtain ⟨rows, n, hdeleted, hemptied, hsame⟩ :=
      deliveries_cycle now config.webhookDeliveryRetentionDays ties db
    obtain ⟨hdropped, hsame'⟩ := keys_cycle now config.idempotencyRetentionDays (ties 2) _
    exact Cycle.of_halves hdeleted hemptied hsame hdropped hsame'

namespace Sample

def config : DeliveryConfig :=
  { Jobs.Sample.site.config with webhookDeliveryRetentionDays := 90, idempotencyRetentionDays := 1 }

def delivery (id : String) (status : DeliveryStatus) (acknowledgedAt : Option String)
    (createdAt : String) : WebhookDelivery :=
  { id, paymentId := "p1", url := "https://shop.example/hook", payload := "body",
    eventType := none, status, attempts := 1, lastAttempt := none, acknowledgedAt, createdAt }

/-- On each side of the window: a delivered row, a failed one and an acknowledged one, and a key. -/
def store : Db :=
  let old := "2026-01-01T00:00:00Z"
  let new := "2026-04-28T15:00:01Z"
  { payments := .empty, processedTransactions := .empty
    webhookDeliveries :=
      { rows := [delivery "d1" .delivered none old, delivery "d2" .failed none old,
          delivery "d3" .failed (some old) old, delivery "d4" .pending none old,
          delivery "d5" .delivered none new, delivery "d6" .failed none new]
        unique := by decide }
    idempotencyKeys :=
      { rows := [⟨"m", "k1", "p1", old⟩, ⟨"m", "k2", "p1", new⟩]
        unique := by decide } }

end Sample

theorem pruneOnce_exact_store :
    let cycle := pruneOnce Sample.config 1777474800 (fun _ _ _ => 0) Sample.store
    TellsAge 1777474800 (older 1777474800) ∧ ∃ deleted emptied dropped,
      Cycle Sample.config (older 1777474800) Sample.store cycle.1 cycle.2 deleted emptied dropped ∧
      cycle.1 = (2, 1) ∧ Sample.store.webhookDeliveries.rows.countP emptied = 1 := by
  intro cycle
  have hnow : InRange 1777474800 := by decide
  obtain ⟨hage, deleted, emptied, dropped, hcycle⟩ :=
    pruneOnce_exact Sample.config hnow (fun _ _ _ => 0) Sample.store
  refine ⟨hage, deleted, emptied, dropped, hcycle, ?_, ?_⟩
  · rw [hcycle.counts, hcycle.deletions, hcycle.drops]
    decide +kernel
  · rw [hcycle.emptyings]
    decide +kernel

end Retention

namespace Jobs
open Retention

/-- The first `n` steps of a job that takes them alone, with the replies of the outside world. -/
def alone (site : Site) (replies : ℕ → JobReply) : ℕ → Job × Ledger → Job × Ledger
  | 0, x => x
  | n + 1, x => alone site (fun i => replies (i + 1)) n ((machine site).exec (replies 0) x.1 x.2)

section Alone
variable {site : Site}

theorem drained_iff {n total : ℕ} : drained n total = true ↔ n < 500 ∨ maxPerCycle ≤ total + n := by
  unfold drained Db.pruneBatch
  rw [Bool.or_eq_true, decide_eq_true_iff, decide_eq_true_iff]
  omega

theorem alone_add (replies : ℕ → JobReply) (m n : ℕ) (x : Job × Ledger) :
    alone site replies (m + n) x = alone site (fun i => replies (m + i)) n
      (alone site replies m x) := by
  induction m generalizing replies x with
  | zero => simp [alone]
  | succ m ih =>
    rw [Nat.succ_add, alone, ih]
    have hshift : (fun i => replies (m + i + 1)) = fun i => replies (m + 1 + i) := by
      funext i
      rw [Nat.add_right_comm]
    rw [hshift]
    rfl

theorem alone_drain {replies : ℕ → JobReply} {stage : ℕ → Job} {next : Job}
    {batch : ℕ → Db → ℕ × Db}
    (hstep : ∀ k total s, (machine site).exec (replies k) (stage total) s =
      (if drained (batch k s.db).1 total then next else stage (total + (batch k s.db).1),
        { s with db := (batch k s.db).2 })) (k total : ℕ) (s : Ledger) :
    ∃ n, alone site (fun i => replies (k + i)) n (stage total, s) =
      (next, { s with db := (drain maxPerCycle batch k total s.db).2 }) := by
  induction hroom : maxPerCycle - total using Nat.strong_induction_on generalizing k total s with
  | h room ih =>
    have hfirst : (machine site).exec (replies (k + 0)) (stage total) s = _ := hstep k total s
    by_cases h : (batch k s.db).1 < 500 ∨ maxPerCycle ≤ total + (batch k s.db).1
    · refine ⟨1, ?_⟩
      rw [drain_of_short h, alone, alone, hfirst, if_pos (drained_iff.mpr h)]
    · have hdrained : ¬ drained (batch k s.db).1 total = true := fun hd => h (drained_iff.mp hd)
      obtain ⟨n, hn⟩ := ih (maxPerCycle - (total + (batch k s.db).1)) (by omega) (k + 1)
        (total + (batch k s.db).1) { s with db := (batch k s.db).2 } rfl
      refine ⟨n + 1, ?_⟩
      rw [drain_of_full h, ← hn, alone, hfirst, if_neg hdrained]
      have hshift : (fun i => replies (k + (i + 1))) = fun i => replies (k + 1 + i) := by
        funext i
        rw [Nat.add_assoc, Nat.add_comm 1]
      rw [hshift]

variable {replies : ℕ → JobReply} {now : ℤ}

variable (site) in
theorem alone_afterDeliveries (hworks : ∀ k, (replies k).works = true)
    (hnow : ∀ k, (replies k).now = now) (m : ℕ) (s : Ledger) :
    ∃ (tie : ℕ → String → ℕ) (n : ℕ), alone site (fun i => replies (m + i)) n
      (afterDeliveries site, s) =
      (.done, { s with db := (if 0 < site.config.idempotencyRetentionDays then
        drain maxPerCycle (fun k => Db.pruneIdempotencyKeys now site.config.idempotencyRetentionDays
          (tie k)) 0 0 s.db
        else (0, s.db)).2 }) := by
  unfold afterDeliveries
  split_ifs with hdays
  · refine ⟨fun k => (replies (m + k)).tie, ?_⟩
    obtain ⟨n, hn⟩ := @alone_drain site (fun i => replies (m + i)) .pruneKeys .done
      (fun k => Db.pruneIdempotencyKeys now site.config.idempotencyRetentionDays
        (replies (m + k)).tie)
      (fun k total s => by rw [← hnow (m + k)]; exact if_pos (hworks (m + k))) 0 0 s
    refine ⟨n, ?_⟩
    rw [← hn]
    simp only [Nat.zero_add]
  · exact ⟨fun _ _ => 0, 0, rfl⟩

theorem alone_pruneOnce (hworks : ∀ k, (replies k).works = true) (hnow : ∀ k, (replies k).now = now)
    (s : Ledger) :
    ∃ ties n, alone site replies n (start site .pruneOnce, s) =
      (.done, { s with db := (pruneOnce site.config now ties s.db).2 }) := by
  have hstart : start site .pruneOnce =
    if 0 < site.config.webhookDeliveryRetentionDays then .prune 0 else afterDeliveries site := rfl
  rw [hstart]
  unfold pruneOnce
  by_cases hdays : 0 < site.config.webhookDeliveryRetentionDays
  · simp only [if_pos hdays]
    obtain ⟨n, hn⟩ := @alone_drain site replies .prune (.compact 0)
      (fun k => Db.pruneWebhookDeliveries now site.config.webhookDeliveryRetentionDays
        (replies k).tie)
      (fun k total s => by rw [← hnow k]; exact if_pos (hworks k)) 0 0 s
    obtain ⟨n', hn'⟩ := @alone_drain site (fun i => replies (n + i)) .compact (afterDeliveries site)
      (fun k => Db.compactStaleFailedDeliveries now site.config.webhookDeliveryRetentionDays
        (replies (n + k)).tie)
      (fun k total s => by rw [← hnow (n + k)]; exact if_pos (hworks (n + k))) 0 0
      { s with db := (drain maxPerCycle (fun k =>
        Db.pruneWebhookDeliveries now site.config.webhookDeliveryRetentionDays (replies k).tie)
          0 0 s.db).2 }
    simp only [Nat.zero_add] at hn hn'
    obtain ⟨tie, n'', hn''⟩ :=
      alone_afterDeliveries site hworks hnow (n + n') { s with db := (drain maxPerCycle (fun k =>
      Db.compactStaleFailedDeliveries now site.config.webhookDeliveryRetentionDays
        (replies (n + k)).tie) 0 0 (drain maxPerCycle (fun k =>
          Db.pruneWebhookDeliveries now site.config.webhookDeliveryRetentionDays (replies k).tie)
            0 0 s.db).2).2 }
    refine ⟨fun i k => if i = 0 then (replies k).tie else if i = 1 then (replies (n + k)).tie
      else tie k, n + (n' + n''), ?_⟩
    rw [alone_add, hn, alone_add, hn']
    simp only [Nat.add_assoc] at hn''
    exact hn''
  · simp only [if_neg hdays]
    obtain ⟨tie, n, hn⟩ := alone_afterDeliveries site hworks hnow 0 s
    refine ⟨fun _ => tie, n, ?_⟩
    simp only [Nat.zero_add] at hn
    exact hn

end Alone
end Jobs
end StellarGate
