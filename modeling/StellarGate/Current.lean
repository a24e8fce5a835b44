import StellarGate.Db.Migrate
import StellarGate.Settlement.Soundness
import StellarGate.Webhook.Jobs

/-! The rows that the current code writes: none that a start of the service would repair. -/
namespace StellarGate
open Base

/-- The deliveries are dated in a form with a `T`. -/
def Db.Dated (db : Db) : Prop := ∀ d ∈ db.webhookDeliveries.rows, lacksT d.createdAt = false

/-- The timestamps of the row have a `T`, its transaction is credited, and its asset is
one of the allow-list. -/
structure Payment.Current (config : Config) (db : Db) (p : Payment) : Prop where
  times : lacksT p.createdAt = false ∧ lacksT p.updatedAt = false ∧ lacksT p.expiresAt = false
  credited : ∀ txHash ∈ p.txHash, ∃ r ∈ db.credits p.id, r.txHash = txHash
  pinned : ∃ one ∈ config.acceptedAssets, p.asset = one.code ∧ p.assetIssuer = one.issuer

def Call.Accepted (env : Env) : Call → Prop
  | .create req pc =>
    (Call.create req pc).returned = true ∨ ∃ one, Create.acceptedAsset env req = .ok one
  | .reconcile _ _ | .sweep _ | .lost => True

structure World.Current (env : Env) (w : World) : Prop where
  sound : w.Sound
  rows : ∀ p ∈ w.db.payments.rows, p.Current env.config w.db
  dated : w.db.Dated
  accepted : ∀ c ∈ w.calls, c.Accepted env

section Deliveries
variable {env : Env} {now : ℤ} {r : Reply} {db db' : Db}

theorem Db.Dated.of_eq (h : db.Dated) (hsame : db'.webhookDeliveries = db.webhookDeliveries) :
    db'.Dated := by
  intro d hd
  rw [hsame] at hd
  exact h d hd

theorem Db.Dated.update {hit : WebhookDelivery → Bool} {f : WebhookDelivery → WebhookDelivery}
    (h : db.Dated) (hf : ∀ k ∈ [WebhookDelivery.id], ∀ d, k (f d) = k d)
    (hdate : ∀ d, (f d).createdAt = d.createdAt) :
    Db.Dated { db with webhookDeliveries := db.webhookDeliveries.update hit f hf } := by
  intro d hd
  obtain ⟨d₀, hd₀, rfl⟩ := (Table.mem_update hf).mp hd
  split_ifs
  · rw [hdate]
    exact h d₀ hd₀
  · exact h d₀ hd₀

theorem Db.Dated.delete {hit : WebhookDelivery → Bool} (h : db.Dated) :
    Db.Dated { db with webhookDeliveries := db.webhookDeliveries.delete hit } :=
  fun d hd => h d (List.mem_of_mem_filter hd)

theorem Db.Dated.save {id paymentId url payload event : String} (h : db.Dated)
    (hsave : db.saveWebhookDelivery now id paymentId url payload event = some db') : db'.Dated := by
  obtain ⟨table, hinsert, rfl⟩ := Option.map_eq_some_iff.mp hsave
  intro d hd
  have hd' : d ∈ table.rows := hd
  rw [(Table.insert_eq_some hinsert).1] at hd'
  rcases List.mem_append.mp hd' with hold | hnew
  · exact h d hold
  · rw [List.mem_singleton.mp hnew]
    exact lacksT_strftime now

theorem Db.Dated.saved {id paymentId url payload event : String} (h : db.Dated) :
    ((db.saveWebhookDelivery now id paymentId url payload event).getD db).Dated := by
  cases hsave : db.saveWebhookDelivery now id paymentId url payload event with
  | none => exact h
  | some db' => exact h.save hsave

theorem Db.Dated.write {id : String} {status : DeliveryStatus} {attempts : ℤ} (h : db.Dated) :
    (db.updateWebhookDelivery now id status attempts).Dated :=
  h.update (Db.deliveryRow_keys now status attempts) fun _ => rfl

theorem Dispatch.step_dated (d : Dispatch) (pc : DispatchPc) (h : db.Dated) :
    (d.step env now r pc db).2.Dated := by
  cases pc with
  | start =>
    simp only [Dispatch.step]
    split
    · exact h
    · exact h.saved
  | connect id | post id k | done => exact h
  | finish id status n => exact h.write

theorem Call.step_dated (c : Call) (h : db.Dated) : (c.step env now r db).db.Dated := by
  rcases c.step_deliveries env now r db with ⟨hsame, -⟩ | ⟨d, pc, hdb, -⟩
  · exact h.of_eq hsame
  · rw [hdb]
    exact d.step_dated pc h

end Deliveries

/-! The calls of the service keep the rows current. -/
section Payments
variable {env : Env} {now : ℤ} {r : Reply} {db db' : Db} {handed : List HorizonPayment} {c : Call}
  {p q : Payment}

theorem Create.acceptedAsset_eq_ok {req : CreateRequest} {one : AcceptedAsset}
    (h : Create.acceptedAsset env req = .ok one) :
    one ∈ env.config.acceptedAssets ∧ one.code = Create.assetCode env req := by
  simp only [Create.acceptedAsset] at h
  split at h
  · cases h
  · next only hfilter =>
    cases h
    have hmem : one ∈ env.config.acceptedAssets.filter (·.code = Create.assetCode env req) := by
      rw [hfilter]
      exact List.mem_singleton_self one
    obtain ⟨hin, hcode⟩ := List.mem_filter.mp hmem
    exact ⟨hin, by simpa using hcode⟩
  · cases h

theorem Payment.Current.inserted {req : CreateRequest} {one : AcceptedAsset}
    {id memo amount : String} {expires : ℤ} (h : Create.acceptedAsset env req = .ok one) :
    ((Create.newPayment env req id memo).row now (strftime expires) amount).Current
      env.config db where
  times := ⟨lacksT_strftime _, lacksT_strftime _, lacksT_strftime _⟩
  credited txHash hhash := nomatch hhash
  pinned := by
    obtain ⟨hin, hcode⟩ := Create.acceptedAsset_eq_ok h
    refine ⟨one, hin, hcode.symm, ?_⟩
    have hissuer : (Create.acceptedAsset env req).toOption.bind (·.issuer) = one.issuer := by
      rw [h]
      rfl
    exact hissuer

theorem RowStep.current (h : RowStep env now r db c p q) (hg : Grows db db')
    (hc : c.Sound db handed) (hp : p.Current env.config db) : q.Current env.config db' := by
  have hkept : ∀ txHash ∈ p.txHash, ∃ r ∈ db'.credits p.id, r.txHash = txHash := by
    intro txHash hhash
    obtain ⟨credit, hcredit, hsame⟩ := hp.credited txHash hhash
    exact ⟨credit, hg.credits hcredit, hsame⟩
  cases h with
  | same => exact ⟨hp.times, hkept, hp.pinned⟩
  | settle call id watchable =>
    subst call
    obtain ⟨-, -, ⟨credit, hcredit, hsame⟩, -⟩ := hc
    refine ⟨⟨hp.times.1, lacksT_strftime _, hp.times.2.2⟩, fun txHash hhash => ?_, hp.pinned⟩
    cases hhash
    rw [← id] at hcredit
    exact ⟨credit, hg.credits hcredit, hsame⟩
  | expire call overdue selected =>
    exact ⟨⟨hp.times.1, lacksT_strftime _, hp.times.2.2⟩, hkept, hp.pinned⟩

theorem Call.accepted_start (req : CreateRequest) :
    (Call.create req (Create.start env req)).Accepted env := by
  cases hasset : Create.acceptedAsset env req with
  | error e =>
    have hdone : Create.start env req = .done (.failed e) := by
      simp only [Create.start, Create.validate, hasset]
    rw [hdone]
    exact .inl rfl
  | ok one => exact .inr ⟨one, hasset⟩

theorem Call.Accepted.step (h : c.Accepted env) : (c.step env now r db).next.Accepted env := by
  cases c with
  | create req pc =>
    rcases h with hreturned | hasset
    · rw [Call.step_returned hreturned]
      exact .inl hreturned
    · exact .inr hasset
  | reconcile hp pc | sweep pc | lost => trivial

theorem Call.Accepted.fail (h : c.Accepted env) : (c.fail r).1.Accepted env := by
  cases c with
  | create req pc =>
    rcases h with hreturned | hasset
    · cases pc with
      | done response => exact .inl rfl
      | _ => cases hreturned
    · exact .inr hasset
  | reconcile hp pc | sweep pc | lost => trivial

theorem Call.Accepted.cut (h : c.Accepted env) : c.cut.Accepted env := by
  unfold Call.cut
  split_ifs
  · exact h
  · trivial

end Payments

namespace World
variable {env : Env} {w t : World} {e : Event} {now : ℤ} {db : Db}

theorem Current.init : (init now).Current env :=
  ⟨Sound.init, (fun _ h => nomatch h), (fun _ h => nomatch h), fun _ h => nomatch h⟩

theorem Current.exec {i : ℕ} {r : Reply} {c : Call} (hw : w.Current env)
    (hc : w.calls[i]? = some c) :
    (w.exec env i r c).Current env := by
  have hcall := List.mem_of_getElem? hc
  have hsound := hw.sound.calls c hcall
  have hwrites : Writes env w.now r w.db c (c.step env w.now r w.db).db := c.step_writes
  refine ⟨hw.sound.exec hc, fun q hq => ?_, Call.step_dated c hw.dated,
    Machine.forall_mem_set hw.accepted (hw.accepted c hcall).step⟩
  rcases hwrites.row_inv hq with ⟨p, hp, hstep⟩ | hnew
  · exact hstep.current (hwrites.grows hsound) hsound (hw.rows p hp)
  · obtain ⟨req, memo, expires, amount, rfl, hrow⟩ := hwrites.new hq hnew
    rcases hw.accepted _ hcall with hreturned | ⟨one, hasset⟩
    · cases hreturned
    · rw [hrow]
      exact Payment.Current.inserted hasset

/-- A request goes on only if it is priced in an accepted asset. -/
theorem accepted_step (h : step env w e = some t) (hw : ∀ c ∈ w.calls, c.Accepted env) :
    ∀ c ∈ t.calls, c.Accepted env :=
  forall_calls_step (fun _ => trivial) trivial Call.accepted_start
    (fun _ _ _ _ => Call.Accepted.step) (fun _ _ => Call.Accepted.fail)
    (fun _ => Call.Accepted.cut) h hw

theorem Current.step (h : step env w e = some t) (hw : w.Current env) : t.Current env := by
  have hsound := hw.sound.step h
  have haccepted := accepted_step h hw.accepted
  cases e with
  | exec i r =>
    obtain ⟨c, hc, -, rfl⟩ := step_exec h
    exact hw.exec hc
  | advance secs | reconcile hp | sweep | create req | crash =>
    cases h
    exact ⟨hsound, hw.rows, hw.dated, haccepted⟩
  | fail i r =>
    obtain ⟨c, -, -, rfl⟩ := step_fail h
    exact ⟨hsound, hw.rows, hw.dated, haccepted⟩
  | kill i =>
    obtain ⟨c, -, rfl⟩ := step_kill h
    exact ⟨hsound, hw.rows, hw.dated, haccepted⟩

end World

/-! The webhooks and the retention worker keep to the deliveries. -/
namespace Jobs

/-- The payments and the ledger are left alone, and the deliveries stay dated. -/
structure Aside (db db' : Db) : Prop where
  payments : db'.payments = db.payments
  ledger : db'.processedTransactions = db.processedTransactions
  dated : db.Dated → db'.Dated

def Job.own : Job → Bool
  | .elsewhere _ => false
  | _ => true

section
variable {site : Site} {r : JobReply} {s : Ledger} {j : Job}

theorem Aside.refl (db : Db) : Aside db db := ⟨rfl, rfl, fun h => h⟩

theorem dispatch_aside (d : Dispatch) (timestamp : ℤ) (saved : Bool) (pc : DispatchPc) :
    Aside s.db (dispatch site r d timestamp saved pc s).2.db := by
  by_cases hpc : pc = .start
  · subst hpc
    simp only [dispatch]
    split
    · exact .refl _
    · next db hsave =>
      obtain ⟨url, -, hsave⟩ := Option.bind_eq_some_iff.mp hsave
      obtain ⟨table, hinsert, rfl⟩ := Option.map_eq_some_iff.mp hsave
      exact ⟨rfl, rfl, fun h => h.save hsave⟩
  · have hstep : Aside s.db (d.step site.env r.now r.toReply pc s.db).2 :=
      ⟨Dispatch.step_frame.1, Dispatch.step_frame.2.1, d.step_dated pc⟩
    cases pc with
    | start => exact absurd rfl hpc
    | connect id | post id k | finish id status n | done => exact hstep

theorem redriveOne_aside (x : Task) : Aside s.db (redriveOne site r x s).2.db := by
  cases x with
  | waiting d | connect d | post d | done => exact .refl _
  | finish d status attempts => exact ⟨rfl, rfl, fun h => h.write⟩

theorem redrive_aside (tasks : List Task) : Aside s.db (redrive site r tasks s).2.db := by
  unfold redrive
  split
  · exact .refl _
  · split_ifs
    · exact .refl _
    · exact redriveOne_aside _

theorem redeliver_aside (pc : RedeliverPc) : Aside s.db (redeliver site r pc s).2.db := by
  cases pc with
  | getPayment merchantId paymentId deliveryId =>
    simp only [redeliver]
    split <;> exact .refl _
  | getDelivery paymentId deliveryId =>
    simp only [redeliver]
    split <;> exact .refl _
  | connect d | post d | done => exact .refl _
  | finish d status => exact ⟨rfl, rfl, fun h => h.write⟩

theorem step_aside (hj : Job.own j = true) : Aside s.db (step site r j s).2.db := by
  cases j with
  | dispatch d timestamp saved pc => exact dispatch_aside d timestamp saved pc
  | redriveList | done => exact .refl _
  | redrive tasks => exact redrive_aside tasks
  | redeliver pc => exact redeliver_aside pc
  | requeue merchantId ids =>
    exact ⟨rfl, rfl, fun h => h.update (Db.requeueRow_keys r.now) fun _ => rfl⟩
  | prune total => exact ⟨rfl, rfl, fun h => h.delete⟩
  | compact total => exact ⟨rfl, rfl, fun h => h.update Db.compactRow_keys fun _ => rfl⟩
  | pruneKeys total => exact ⟨rfl, rfl, fun h => h.of_eq rfl⟩
  | elsewhere other => cases hj

theorem own_step (hj : Job.own j = true) : Job.own (step site r j s).1 = true := by
  cases j with
  | dispatch d timestamp saved pc =>
    simp only [step, dispatch]
    split
    · split <;> rfl
    · rfl
    · rfl
  | redriveList | redeliver pc | requeue merchantId ids | done => rfl
  | redrive tasks =>
    simp only [step, redrive]
    split
    · rfl
    · split_ifs <;> rfl
  | prune total =>
    simp only [step]
    split_ifs <;> rfl
  | compact total =>
    simp only [step, afterDeliveries]
    split_ifs <;> rfl
  | pruneKeys total =>
    simp only [step]
    split_ifs <;> rfl
  | elsewhere other => cases hj

theorem own_start {q : Request} (hq : ∀ other, q ≠ .elsewhere other) :
    Job.own (start site q) = true := by
  cases q with
  | dispatch d | redriveOnce | redeliverWebhook merchantId paymentId deliveryId => rfl
  | redeliverWebhooksBulk merchantId deliveryIds =>
    simp only [start]
    split_ifs <;> rfl
  | pruneOnce =>
    simp only [start, afterDeliveries]
    split_ifs <;> rfl
  | elsewhere other => exact absurd rfl (hq other)

theorem own_fail (hj : Job.own j = true) : Job.own (fail r j) = true := by
  cases j with
  | redrive tasks =>
    simp only [fail]
    split <;> rfl
  | redeliver pc => cases pc <;> rfl
  | elsewhere other => cases hj
  | dispatch _ _ _ _ | redriveList | requeue _ _ | prune _ | compact _ | pruneKeys _ | done => rfl

end
end Jobs

theorem World.Current.aside {env : Env} {w : World} {db : Db} (hw : w.Current env)
    (h : Jobs.Aside w.db db) :
    World.Current env { w with db } := by
  have hg : Grows w.db db :=
    ⟨fun p hp => ⟨p, h.payments ▸ hp, rfl⟩, fun _ hr => h.ledger ▸ hr,
      fun _ => (Db.creditSum_congr h.ledger).ge⟩
  have hsum (id : String) : db.creditSum id = w.db.creditSum id := Db.creditSum_congr h.ledger
  refine ⟨⟨?_, fun p hp => ?_, fun c hc => (hw.sound.calls c hc).mono hg fun _ hh => hh⟩,
    fun p hp => ?_, h.dated hw.dated, hw.accepted⟩
  · intro r hr
    rw [h.payments]
    exact hw.sound.backed r (h.ledger ▸ hr)
  · obtain ⟨hpriced, hcovered, hpaid⟩ := hw.sound.rows p (h.payments ▸ hp)
    exact ⟨hpriced, fun hs => (hsum p.id).symm ▸ hcovered hs, (hsum p.id).symm ▸ hpaid⟩
  · obtain ⟨htimes, hcredited, hpinned⟩ := hw.rows p (h.payments ▸ hp)
    refine ⟨htimes, fun txHash hhash => ?_, hpinned⟩
    obtain ⟨r, hr, hsame⟩ := hcredited txHash hhash
    exact ⟨r, hg.credits hr, hsame⟩

end StellarGate
