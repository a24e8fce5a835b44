import StellarGate.Webhook.Delivered

/-! Retention beside the redrive worker: which deliveries `prune_once` takes that
`list_redrivable_deliveries` can still return. -/
namespace StellarGate
open Base

namespace Jobs

/-- The redrive worker is not done with the delivery. -/
def Owed (c : DeliveryConfig) (d : WebhookDelivery) : Prop :=
  (d.status = .pending ∨ d.status = .failed) ∧ d.attempts < c.redriveMaxAttempts

instance (c : DeliveryConfig) (d : WebhookDelivery) : Decidable (Owed c d) :=
  inferInstanceAs (Decidable ((_ ∨ _) ∧ _))

/-- The `WHERE` clause of a statement of `prune_once` on the deliveries. -/
def retentionHits (site : Site) (now : ℤ) : Job → Option (WebhookDelivery → Bool)
  | .prune _ => some (Db.prunable now site.config.webhookDeliveryRetentionDays)
  | .compact _ => some (Db.compactable now site.config.webhookDeliveryRetentionDays)
  | _ => none

/-- No delivery that the redrive worker is not done with meets the `WHERE` clause. -/
def NoneAged (site : Site) (r : JobReply) (j : Job) (s : Ledger) : Prop :=
  r.works = true → ∀ hits ∈ retentionHits site r.now j,
    ∀ d ∈ s.db.webhookDeliveries.rows, Owed site.config d → hits d = false

/-- The rows that meet the `WHERE` clause fit in one batch. -/
def Fits (site : Site) (r : JobReply) (j : Job) (s : Ledger) : Prop :=
  ∀ hits ∈ retentionHits site r.now j, (s.db.webhookDeliveries.rows.countP hits : ℤ) ≤ Db.pruneBatch

/-- A step of `prune_once` leaves the deliveries alone that the redrive worker is not done with. -/
def Spares (site : Site) (r : JobReply) (j : Job) (s : Ledger) : Prop :=
  (retentionHits site r.now j).isSome = true →
    ∀ d ∈ s.db.webhookDeliveries.rows, Owed site.config d →
      d ∈ ((machine site).exec r j s).2.db.webhookDeliveries.rows

section
variable {site : Site} {r : JobReply} {j : Job} {s : Ledger}

theorem mem_batch {ρ : Type} {tie : ρ → ℕ} {p : ρ → Bool} {rows : List ρ} {x : ρ}
    (h : x ∈ Db.batch tie p rows) : x ∈ rows ∧ p x = true := by
  have hmem := (List.mem_insertionSort _).mp (Db.mem_limit h)
  exact List.mem_filter.mp hmem

theorem mem_batch_of_fits {ρ : Type} {tie : ρ → ℕ} {p : ρ → Bool} {rows : List ρ} {x : ρ}
    (hfit : (rows.countP p : ℤ) ≤ Db.pruneBatch) (hx : x ∈ rows) (hp : p x = true) :
    x ∈ Db.batch tie p rows := by
  have hlen : ((rows.filter p).insertionSort fun a b => tie a ≤ tie b).length ≤
      Db.pruneBatch.toNat := by
    rw [List.length_insertionSort, ← List.countP_eq_length_filter]
    omega
  have hmem : x ∈ (rows.filter p).insertionSort fun a b => tie a ≤ tie b :=
    (List.mem_insertionSort _).mpr (List.mem_filter.mpr ⟨hx, hp⟩)
  unfold Db.batch Db.limit
  rw [if_neg (by decide), List.take_of_length_le hlen]
  exact hmem

theorem mem_of_batch_id {tie : String → ℕ} {p : WebhookDelivery → Bool}
    {d : WebhookDelivery} {db : Db} (hd : d ∈ db.webhookDeliveries.rows)
    (h : d.id ∈ (Db.batch (fun d => tie d.id) p db.webhookDeliveries.rows).map WebhookDelivery.id) :
    d ∈ Db.batch (fun d => tie d.id) p db.webhookDeliveries.rows := by
  obtain ⟨b, hb, hid⟩ := List.mem_map.mp h
  have hsame : b = d :=
    Table.eq_of_key (k := WebhookDelivery.id) (by simp) (mem_batch hb).1 hd hid
  exact hsame ▸ hb

theorem mem_prune_iff {d : WebhookDelivery} {db : Db} {now days : ℤ} {tie : String → ℕ}
    (hd : d ∈ db.webhookDeliveries.rows) :
    d ∈ (db.pruneWebhookDeliveries now days tie).2.webhookDeliveries.rows ↔
      d ∉ Db.batch (fun d => tie d.id) (Db.prunable now days) db.webhookDeliveries.rows := by
  simp only [Db.pruneWebhookDeliveries, Table.delete, List.mem_filter, Bool.not_eq_true',
    List.contains_eq_mem, decide_eq_false_iff_not]
  constructor
  · rintro ⟨-, hn⟩ hb
    exact hn (List.mem_map.mpr ⟨d, hb, rfl⟩)
  · exact fun hn => ⟨hd, fun hid => hn (mem_of_batch_id hd hid)⟩

theorem mem_compact_iff {d : WebhookDelivery} {db : Db} {now days : ℤ} {tie : String → ℕ}
    (hd : d ∈ db.webhookDeliveries.rows) :
    d ∈ (db.compactStaleFailedDeliveries now days tie).2.webhookDeliveries.rows ↔
      d ∉ Db.batch (fun d => tie d.id) (Db.compactable now days) db.webhookDeliveries.rows := by
  unfold Db.compactStaleFailedDeliveries
  simp only
  rw [Table.mem_update Db.compactRow_keys]
  simp only [List.contains_eq_mem, decide_eq_true_eq]
  constructor
  · rintro ⟨d₀, hd₀, heq⟩ hb
    have hid : d₀.id = d.id := by
      rw [← heq]
      split_ifs <;> rfl
    have hsame : d₀ = d := Table.eq_of_key (k := WebhookDelivery.id) (by simp) hd₀ hd hid
    rw [hsame, if_pos (List.mem_map.mpr ⟨d, hb, rfl⟩)] at heq
    -- a row that is cleared has a payload to clear
    have hpayload : d.payload ≠ "" := by
      have hhit := (mem_batch hb).2
      simp only [Db.compactable, Bool.and_eq_true, decide_eq_true_eq] at hhit
      exact hhit.1.2
    exact hpayload (by rw [← heq]; rfl)
  · intro hn
    refine ⟨d, hd, if_neg fun hid => hn (mem_of_batch_id hd hid)⟩

/-- The batch of a step of `prune_once`. -/
theorem mem_exec_iff {hits : WebhookDelivery → Bool} (hj : hits ∈ retentionHits site r.now j)
    (hw : r.works = true) {d : WebhookDelivery} (hd : d ∈ s.db.webhookDeliveries.rows) :
    d ∈ ((machine site).exec r j s).2.db.webhookDeliveries.rows ↔
      d ∉ Db.batch (fun d => r.tie d.id) hits s.db.webhookDeliveries.rows := by
  have hexec : (machine site).exec r j s = step site r j s := if_pos hw
  rw [hexec]
  cases j with
  | prune total =>
    cases hj
    exact mem_prune_iff hd
  | compact total =>
    cases hj
    exact mem_compact_iff hd
  | dispatch _ _ _ _ | redriveList | redrive _ | redeliver _ | requeue _ _ | pruneKeys _
  | elsewhere _ | done => cases hj

theorem spares_of_noneAged (h : NoneAged site r j s) : Spares site r j s := by
  intro hsome d hd howed
  obtain ⟨hits, hj⟩ := Option.isSome_iff_exists.mp hsome
  by_cases hw : r.works = true
  · rw [mem_exec_iff hj hw hd]
    intro hb
    have hhit := (mem_batch hb).2
    rw [h hw hits hj d hd howed] at hhit
    cases hhit
  · have hexec : (machine site).exec r j s = (fail r j, s) := if_neg hw
    rw [hexec]
    exact hd

theorem noneAged_of_spares (hfit : Fits site r j s) (h : Spares site r j s) :
    NoneAged site r j s := by
  intro hw hits hj d hd howed
  have hkept := h (Option.isSome_iff_exists.mpr ⟨hits, hj⟩) d hd howed
  rw [mem_exec_iff hj hw hd] at hkept
  exact Bool.eq_false_iff.mpr fun hhit => hkept (mem_batch_of_fits (hfit hits hj) hd hhit)

end

/-- In a run, `prune_once` leaves the deliveries alone that the redrive worker is not done with as
long as none of them meets a `WHERE` clause of it; and while the rows fit in a batch, only then. -/
theorem retention_spares {site : Site} {db : Db} {as : List (Act Request JobReply)} :
    (Along (machine site).step (Machine.OnExec (NoneAged site)) (begin db) as →
      Along (machine site).step (Machine.OnExec (Spares site)) (begin db) as) ∧
    (Along (machine site).step (Machine.OnExec (Fits site)) (begin db) as →
      Along (machine site).step (Machine.OnExec (Spares site)) (begin db) as →
      Along (machine site).step (Machine.OnExec (NoneAged site)) (begin db) as) := by
  constructor
  · exact Along.imp fun w a => Machine.OnExec.imp fun r j s => spares_of_noneAged
  · intro hfit hspares
    refine (hfit.and hspares).imp fun w a hboth => ?_
    cases a with
    | exec i r => exact fun j hj => noneAged_of_spares (hboth.1 j hj) (hboth.2 j hj)
    | spawn q | fail i | cut i => trivial

instance (site : Site) (r : JobReply) (j : Job) (s : Ledger) : Decidable (NoneAged site r j s) :=
  inferInstanceAs (Decidable (r.works = true → ∀ hits ∈ retentionHits site r.now j,
    ∀ d ∈ s.db.webhookDeliveries.rows, Owed site.config d → hits d = false))

namespace Sample

/-- Job 0 has delivered long ago; job 1 is a dispatch whose target is blocked, a day before the
retention cycle of job 2. -/
def youngFailure : List (Act Request JobReply) :=
  accepted ++ [.spawn (.dispatch ⟨payment, .completed, none⟩), .exec 1 (reply 1780000000 true "d3"),
    .exec 1 (reply 1780000000 false "d4"), .exec 1 (reply 1780000000 true "d4")] ++
    retained 2 1780080000

/-- The payloads on record. -/
def payloads (w : Pool Job Ledger) : List (String × String) :=
  w.store.db.webhookDeliveries.rows.map fun d => (d.id, d.payload)

def listedAfter (w : Pool Job Ledger) : List String :=
  (w.store.db.listRedrivableDeliveries site.config 1780080000 (fun _ => 0) fun _ => 0).map
    WebhookDelivery.id

end Sample

theorem retention_spares_young : ∃ w,
    run (machine Sample.site).step (begin Sample.stock) Sample.youngFailure = some w ∧
    Along (machine Sample.site).step (Machine.OnExec (Spares Sample.site)) (begin Sample.stock)
      Sample.youngFailure ∧
    Sample.statuses w = [("d3", .failed)] := by
  obtain ⟨w, hw, hstatus⟩ := exists_of_run (machine Sample.site).step (begin Sample.stock)
    Sample.youngFailure (P := fun w => Sample.statuses w = [("d3", .failed)]) (by decide +kernel)
  exact ⟨w, hw, retention_spares.1 (by decide +kernel), hstatus⟩

/-- A delivery whose target was blocked is failed with no attempt used; the retention cycle clears
the payload that the redrive worker is still going to send. -/
theorem owed_payload_cleared : ∃ w v,
    run (machine Sample.site).step (begin Sample.stock) Sample.blocked = some w ∧
    run (machine Sample.site).step w (Sample.retained 1 1780080000) = some v ∧
    Along (machine Sample.site).step (Machine.OnExec Fresh) (begin Sample.stock) Sample.blocked ∧
    (∃ d ∈ w.store.db.webhookDeliveries.rows, d.id = "d1" ∧ Owed Sample.site.config d ∧
      d.payload ≠ "") ∧
    Sample.payloads v = [("d1", "")] ∧ Sample.listedAfter v = ["d1"] := by
  obtain ⟨w, hw, howed, hv⟩ :=
    exists_of_run (machine Sample.site).step (begin Sample.stock) Sample.blocked
      (P := fun w => (∃ d ∈ w.store.db.webhookDeliveries.rows,
        d.id = "d1" ∧ Owed Sample.site.config d ∧ d.payload ≠ "") ∧
      (run (machine Sample.site).step w (Sample.retained 1 1780080000)).any (fun v => decide
        (Sample.payloads v = [("d1", "")] ∧ Sample.listedAfter v = ["d1"])) = true)
        (by decide +kernel)
  obtain ⟨v, hv, hcleared, hlisted⟩ := exists_of_run _ _ _
    (P := fun v => Sample.payloads v = [("d1", "")] ∧ Sample.listedAfter v = ["d1"]) hv
  exact ⟨w, v, hw, hv, by decide +kernel, howed, hcleared, hlisted⟩

end Jobs
end StellarGate
