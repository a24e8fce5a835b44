import StellarGate.System
import StellarGate.Webhook.Jobs

/-! Redelivery replays what was stored: which POSTs carry the payload of the dispatch that
created the delivery. -/
namespace StellarGate
open Base

namespace Jobs

/-- Every POST for a delivery has the stored body, and the event in that body as its header. -/
def Verbatim (s : Ledger) : Prop :=
  ∀ p ∈ s.sent, ∃ c ∈ s.created, c.id = p.deliveryId ∧ p.post.body = c.payload.toJson ∧
    p.post.event = c.payload.event.name

instance (s : Ledger) : Decidable (Verbatim s) :=
  inferInstanceAs (Decidable (∀ p ∈ s.sent, ∃ c ∈ s.created, c.id = p.deliveryId ∧
    p.post.body = c.payload.toJson ∧ p.post.event = c.payload.event.name))

/-- No delivery whose payload has been cleared is picked up to be sent again. -/
def PicksIntact (site : Site) (r : JobReply) (j : Job) (s : Ledger) : Prop :=
  match j with
  | .redriveList =>
    ∀ d ∈ s.db.listRedrivableDeliveries site.config r.now r.random r.tie, d.payload ≠ ""
  | .redeliver (.getDelivery paymentId deliveryId) =>
    ∀ d ∈ s.db.getWebhookDelivery deliveryId, d.paymentId = paymentId → d.payload ≠ ""
  | _ => True

def Stored (s : Ledger) (d : WebhookDelivery) : Prop :=
  ∃ c ∈ s.created, c.id = d.id ∧ d.eventType = some c.payload.event.name ∧
    (d.payload = c.payload.toJson ∨ d.payload = "")

/-- The delivery is as the dispatch that created it stored it. -/
def Faithful (s : Ledger) (d : WebhookDelivery) : Prop :=
  ∃ c ∈ s.created, c.id = d.id ∧ d.eventType = some c.payload.event.name ∧
    d.payload = c.payload.toJson

structure Sound (s : Ledger) : Prop where
  rows : ∀ d ∈ s.db.webhookDeliveries.rows, Stored s d
  sent : Verbatim s
  ids : (s.created.map Created.id).Nodup

/-- The delivery a dispatch is going to send, where it has stored one. -/
def dispatching : DispatchPc → Option String
  | .connect id | .post id _ => some id
  | .start | .finish _ _ _ | .done => none

def Task.delivery : Task → Option WebhookDelivery
  | .waiting d | .connect d | .post d => some d
  | .finish _ _ _ | .done => none

def redelivering : RedeliverPc → Option WebhookDelivery
  | .connect d | .post d => some d
  | .getPayment _ _ _ | .getDelivery _ _ | .finish _ _ | .done => none

def Held (s : Ledger) : Job → Prop
  | .dispatch d _ saved pc => saved = true → pc ≠ .start ∧ ∀ id ∈ dispatching pc,
      ⟨id, buildPayload d.payment d.event d.delta⟩ ∈ s.created
  | .redrive tasks => ∀ t ∈ tasks, ∀ d ∈ Task.delivery t, Faithful s d
  | .redeliver pc => ∀ d ∈ redelivering pc, Faithful s d
  | _ => True

/-- Every row of `db'` is a row of `db`, its payload kept or cleared. -/
def RowsFrom (db db' : Db) : Prop :=
  ∀ d ∈ db'.webhookDeliveries.rows, ∃ d₀ ∈ db.webhookDeliveries.rows,
    d₀.id = d.id ∧ d₀.eventType = d.eventType ∧ (d.payload = d₀.payload ∨ d.payload = "")

section
variable {site : Site} {r : JobReply} {s t : Ledger} {db db' : Db} {d : WebhookDelivery}

theorem RowsFrom.of_eq (h : db'.webhookDeliveries = db.webhookDeliveries) : RowsFrom db db' := by
  intro d hd
  rw [h] at hd
  exact ⟨d, hd, rfl, rfl, .inl rfl⟩

theorem RowsFrom.update {hit : WebhookDelivery → Bool} {f : WebhookDelivery → WebhookDelivery}
    (hf : ∀ k ∈ [WebhookDelivery.id], ∀ d, k (f d) = k d) (he : ∀ d, (f d).eventType = d.eventType)
    (hp : ∀ d, (f d).payload = d.payload ∨ (f d).payload = "") :
    RowsFrom db { db with webhookDeliveries := db.webhookDeliveries.update hit f hf } := by
  intro d hd
  obtain ⟨d₀, hd₀, rfl⟩ := (Table.mem_update hf).mp hd
  refine ⟨d₀, hd₀, ?_⟩
  split_ifs
  · exact ⟨(hf WebhookDelivery.id (by simp) d₀).symm, (he d₀).symm, hp d₀⟩
  · exact ⟨rfl, rfl, .inl rfl⟩

theorem RowsFrom.delete {hit : WebhookDelivery → Bool} :
    RowsFrom db { db with webhookDeliveries := db.webhookDeliveries.delete hit } := by
  intro d hd
  exact ⟨d, List.mem_of_mem_filter hd, rfl, rfl, .inl rfl⟩

/-! What was stored stays on record. -/

theorem Faithful.mono (h : s.created ⊆ t.created) (hd : Faithful s d) : Faithful t d := by
  obtain ⟨c, hc, hrest⟩ := hd
  exact ⟨c, h hc, hrest⟩

theorem Held.mono (h : s.created ⊆ t.created) {j : Job} (hj : Held s j) : Held t j := by
  cases j with
  | dispatch d timestamp saved pc => exact fun hs => ⟨(hj hs).1, fun id hid => h ((hj hs).2 id hid)⟩
  | redrive tasks => exact fun x hx d hd => (hj x hx d hd).mono h
  | redeliver pc => exact fun d hd => (hj d hd).mono h
  | redriveList | requeue _ _ | prune _ | compact _ | pruneKeys _ | elsewhere _ | done => trivial

/-- A delivery that is read with its payload is as it was stored. -/
theorem Stored.faithful (h : Stored s d) (hp : d.payload ≠ "") : Faithful s d := by
  obtain ⟨c, hc, hid, hevent, hpayload⟩ := h
  exact ⟨c, hc, hid, hevent, hpayload.resolve_right hp⟩

theorem Sound.of_rowsFrom (h : Sound s) (hr : RowsFrom s.db db) : Sound { s with db } := by
  refine ⟨fun d hd => ?_, h.sent, h.ids⟩
  obtain ⟨d₀, hd₀, hid, hevent, hpayload⟩ := hr d hd
  obtain ⟨c, hc, hcid, hcevent, hcpayload⟩ := h.rows d₀ hd₀
  refine ⟨c, hc, hcid.trans hid, hevent ▸ hcevent, ?_⟩
  rcases hpayload with hpayload | hpayload
  · rw [hpayload]
    exact hcpayload
  · exact .inr hpayload

theorem Sound.send (h : Sound s) {p : Sent}
    (hp : ∃ c ∈ s.created, c.id = p.deliveryId ∧ p.post.body = c.payload.toJson ∧
      p.post.event = c.payload.event.name) : Sound { s with sent := s.sent ++ [p] } := by
  refine ⟨h.rows, fun q hq => ?_, h.ids⟩
  rcases List.mem_append.mp hq with hq | hq
  · exact h.sent q hq
  · rw [List.mem_singleton.mp hq]
    exact hp

theorem Sound.resend (h : Sound s) (hd : Faithful s d) (timestamp : ℤ) :
    Sound { s with sent := s.sent ++ [⟨d.id, d.post site.sign site.jsonEvent timestamp⟩] } := by
  obtain ⟨c, hc, hid, hevent, hpayload⟩ := hd
  refine h.send ⟨c, hc, hid, hpayload, ?_⟩
  simp only [WebhookDelivery.post, WebhookDelivery.event, hevent, Option.getD_some]

structure Kept (s : Ledger) (next : Job × Ledger) : Prop where
  sound : Sound next.2
  held : Held next.2 next.1
  created : s.created ⊆ next.2.created

theorem updateWebhookDelivery_rowsFrom (now : ℤ) (id : String) (status : DeliveryStatus)
    (attempts : ℤ) :
    RowsFrom db (db.updateWebhookDelivery now id status attempts) :=
  .update (Db.deliveryRow_keys now status attempts) (fun _ => rfl) fun _ => .inl rfl

theorem dispatchStep_rowsFrom (db : Db) (d : Dispatch) (env : Env) (now : ℤ) (r : Reply)
    {pc : DispatchPc} (hpc : pc ≠ .start) : RowsFrom db (d.step env now r pc db).2 := by
  cases pc with
  | start => exact absurd rfl hpc
  | connect id | post id k | done => exact .of_eq rfl
  | finish id status n => exact updateWebhookDelivery_rowsFrom now id status n

theorem dispatchStep_dispatching {d : Dispatch} {env : Env} {now : ℤ} {pc : DispatchPc} {r : Reply}
    (hpc : pc ≠ .start) {id : String} (h : id ∈ dispatching (d.step env now r pc db).1) :
    id ∈ dispatching pc := by
  cases pc with
  | start => exact absurd rfl hpc
  | connect id' =>
    simp only [Dispatch.step] at h
    split_ifs at h
    · exact h
    · cases h
  | post id' k =>
    simp only [Dispatch.step] at h
    split_ifs at h
    · cases h
    · exact h
    · cases h
  | finish id' status n | done => cases h

theorem dispatchStep_ne_start {d : Dispatch} {env : Env} {now : ℤ} {pc : DispatchPc} {r : Reply}
    (hpc : pc ≠ .start) : (d.step env now r pc db).1 ≠ .start := by
  cases pc with
  | start => exact absurd rfl hpc
  | connect id | post id k =>
    simp only [Dispatch.step]
    split_ifs <;> simp
  | finish id status n | done => simp [Dispatch.step]

theorem Sound.create (h : Sound s) {now : ℤ} {id paymentId url : String} {payload : Payload}
    (hfresh : ∀ c ∈ s.created, c.id ≠ id)
    (hsave : s.db.saveWebhookDelivery now id paymentId url payload.toJson payload.event.name =
      some db) :
    Sound { s with db, created := s.created ++ [⟨id, payload⟩] } := by
  obtain ⟨table, hinsert, rfl⟩ := Option.map_eq_some_iff.mp hsave
  have hrows := (Table.insert_eq_some hinsert).1
  have hsub : s.created ⊆ s.created ++ [⟨id, payload⟩] := List.subset_append_left _ _
  refine ⟨fun d hd => ?_, fun p hp => ?_, ?_⟩
  · have hd' : d ∈ table.rows := hd
    rw [hrows] at hd'
    rcases List.mem_append.mp hd' with hd' | hd'
    · obtain ⟨c, hc, hrest⟩ := h.rows d hd'
      exact ⟨c, hsub hc, hrest⟩
    · rw [List.mem_singleton.mp hd']
      exact ⟨⟨id, payload⟩, by simp, rfl, rfl, .inl rfl⟩
  · obtain ⟨c, hc, hrest⟩ := h.sent p hp
    exact ⟨c, hsub hc, hrest⟩
  · rw [List.map_append, List.nodup_append]
    refine ⟨h.ids, by simp, ?_⟩
    rintro a ha b hb rfl
    obtain ⟨c, hc, rfl⟩ := List.mem_map.mp ha
    simp only [List.map_cons, List.map_nil, List.mem_singleton] at hb
    exact hfresh c hc hb

theorem dispatch_kept {d : Dispatch} {timestamp : ℤ} {saved : Bool} {pc : DispatchPc}
    (hfresh : ∀ c ∈ s.created, c.id ≠ r.uuid) (h : Sound s)
    (hj : Held s (.dispatch d timestamp saved pc)) :
    Kept s (dispatch site r d timestamp saved pc s) := by
  by_cases hpc : pc = .start
  · subst hpc
    simp only [dispatch]
    split
    · exact ⟨h, fun hs => absurd hs (by decide), fun c hc => hc⟩
    · next db hsave =>
      obtain ⟨url, -, hsave⟩ := Option.bind_eq_some_iff.mp hsave
      refine ⟨h.create hfresh hsave, fun _ => ⟨by simp, fun id hid => ?_⟩,
        List.subset_append_left _ _⟩
      cases hid
      simp
  · have hrows := h.of_rowsFrom (dispatchStep_rowsFrom s.db d site.env r.now r.toReply hpc)
    have hheld : Held s (.dispatch d timestamp saved (d.step site.env r.now r.toReply pc s.db).1) :=
      fun hs => ⟨dispatchStep_ne_start hpc, fun id hid => (hj hs).2 id
        (dispatchStep_dispatching hpc hid)⟩
    cases pc with
    | start => exact absurd rfl hpc
    | connect id | finish id status n | done => exact ⟨hrows, hheld, fun c hc => hc⟩
    | post id k =>
      refine ⟨?_, hheld, fun c hc => hc⟩
      cases saved with
      | false => simpa [dispatch] using hrows
      | true =>
        have hc := (hj rfl).2 id rfl
        exact hrows.send ⟨_, hc, rfl, rfl, rfl⟩

theorem redriveOne_kept {x : Task} (h : Sound s) (hx : ∀ d ∈ Task.delivery x, Faithful s d) :
    let next := redriveOne site r x s
    Sound next.2 ∧ next.2.created = s.created ∧ ∀ d ∈ Task.delivery next.1, Faithful s d := by
  cases x with
  | waiting d => exact ⟨h, rfl, hx⟩
  | connect d =>
    refine ⟨h, rfl, ?_⟩
    simp only [redriveOne]
    split_ifs
    · exact hx
    · intro d hd
      cases hd
  | post d => exact ⟨h.resend (hx d rfl) r.now, rfl, fun d hd => nomatch hd⟩
  | finish d status attempts =>
    exact ⟨h.of_rowsFrom (updateWebhookDelivery_rowsFrom r.now d.id status attempts), rfl,
      fun d hd => nomatch hd⟩
  | done => exact ⟨h, rfl, hx⟩

theorem redrive_kept {tasks : List Task} (h : Sound s) (hj : Held s (.redrive tasks)) :
    Kept s (redrive site r tasks s) := by
  unfold redrive
  split
  · exact ⟨h, hj, fun c hc => hc⟩
  · next x hx =>
    split_ifs
    · exact ⟨h, hj, fun c hc => hc⟩
    · obtain ⟨hs, hcreated, hheld⟩ :=
        redriveOne_kept (r := r) h (hj x (List.mem_of_getElem? hx))
      have hsub : s.created ⊆ (redriveOne site r x s).2.created := fun c hc => hcreated ▸ hc
      refine ⟨hs, Machine.forall_mem_set (fun y hy d hd => (hj y hy d hd).mono hsub) ?_, hsub⟩
      exact fun d hd => (hheld d hd).mono hsub

theorem redeliver_kept {pc : RedeliverPc} (hok : PicksIntact site r (.redeliver pc) s) (h : Sound s)
    (hj : Held s (.redeliver pc)) :
    Kept s (.redeliver (redeliver site r pc s).1, (redeliver site r pc s).2) := by
  cases pc with
  | getPayment merchantId paymentId deliveryId =>
    simp only [redeliver]
    split <;> exact ⟨h, (fun d hd => nomatch hd), fun c hc => hc⟩
  | getDelivery paymentId deliveryId =>
    simp only [redeliver]
    split
    · exact ⟨h, (fun d hd => nomatch hd), fun c hc => hc⟩
    · next d hd =>
      refine ⟨h, ?_, fun c hc => hc⟩
      split_ifs with hp
      · intro d' hd'
        cases hd'
        obtain ⟨row, hrow, rfl⟩ := Option.map_eq_some_iff.mp hd
        have hstored : Stored s (rowToWebhookDelivery row) :=
            h.rows row (List.mem_of_find?_eq_some hrow)
        exact hstored.faithful (hok _ hd hp)
      · exact fun d hd => nomatch hd
  | connect d =>
    refine ⟨h, ?_, fun c hc => hc⟩
    simp only [redeliver]
    split_ifs
    · exact hj
    · exact fun d hd => nomatch hd
  | post d => exact ⟨h.resend (hj d rfl) r.now, (fun d hd => nomatch hd), fun c hc => hc⟩
  | finish d status =>
    exact ⟨h.of_rowsFrom (updateWebhookDelivery_rowsFrom r.now d.id status (d.attempts + 1)),
      (fun d hd => nomatch hd), fun c hc => hc⟩
  | done => exact ⟨h, hj, fun c hc => hc⟩

theorem Kept.of_rowsFrom {j : Job} (h : Sound s) (hr : RowsFrom s.db db) (hj : ∀ s, Held s j) :
    Kept s (j, { s with db }) :=
  ⟨h.of_rowsFrom hr, hj _, fun _ hc => hc⟩

theorem step_kept {j : Job} (hfresh : Fresh r j s) (hok : PicksIntact site r j s) (h : Sound s)
    (hj : Held s j) : Kept s (step site r j s) := by
  cases j with
  | dispatch d timestamp saved pc => exact dispatch_kept hfresh h hj
  | redriveList =>
    refine ⟨h, ?_, fun c hc => hc⟩
    intro x hx d hd
    obtain ⟨d', hd', rfl⟩ := List.mem_map.mp hx
    cases hd
    obtain ⟨row, hrow, rfl⟩ := List.mem_map.mp hd'
    have hmem := List.mem_of_mem_filter ((List.mem_insertionSort _).mp hrow)
    have hstored : Stored s (rowToWebhookDelivery row) := h.rows row hmem
    exact hstored.faithful (hok _ hd')
  | redrive tasks => exact redrive_kept h hj
  | redeliver pc => exact redeliver_kept hok h hj
  | requeue merchantId ids =>
    exact .of_rowsFrom h (.update (Db.requeueRow_keys r.now) (fun _ => rfl) fun _ => .inl rfl)
      fun _ => trivial
  | prune total =>
    refine .of_rowsFrom h .delete fun _ => ?_
    generalize drained _ total = last
    cases last <;> trivial
  | compact total =>
    refine .of_rowsFrom h (.update Db.compactRow_keys (fun _ => rfl) fun _ => .inr rfl) fun _ => ?_
    generalize drained _ total = last
    unfold afterDeliveries
    cases last
    · trivial
    · split_ifs <;> trivial
  | pruneKeys total =>
    refine .of_rowsFrom h (.of_eq rfl) fun _ => ?_
    generalize drained _ total = last
    cases last <;> trivial
  | elsewhere other => exact .of_rowsFrom h (.of_eq rfl) fun _ => trivial
  | done => exact ⟨h, trivial, fun c hc => hc⟩

theorem fail_held {j : Job} (hj : Held s j) : Held s (fail r j) := by
  cases j with
  | dispatch d timestamp saved pc =>
    intro hs
    obtain ⟨hpc, hid⟩ := hj hs
    cases pc with
    | start => exact absurd rfl hpc
    | connect id' | post id' k | done => exact ⟨hpc, hid⟩
    | finish id' status n => exact ⟨by simp [Dispatch.fail], fun id hid => nomatch hid⟩
  | redrive tasks =>
    simp only [fail]
    split
    · exact Machine.forall_mem_set hj fun d hd => nomatch hd
    · exact hj
  | redeliver pc =>
    cases pc with
    | getPayment m p d | getDelivery p d | finish d status => exact fun d hd => nomatch hd
    | connect d | post d | done => exact hj
  | redriveList => exact fun x hx => nomatch hx
  | requeue _ _ | prune _ | compact _ | pruneKeys _ | elsewhere _ | done => trivial

def begin (db : Db) : Pool Job Ledger := ⟨⟨{ db with webhookDeliveries := .empty }, [], []⟩, []⟩

/-- The ids drawn are new, and no delivery whose payload has been cleared is picked up. -/
def Replays (site : Site) (r : JobReply) (j : Job) (s : Ledger) : Prop :=
  Fresh r j s ∧ (r.works = true → PicksIntact site r j s)

def Replaying (w : Pool Job Ledger) : Prop := Sound w.store ∧ ∀ j ∈ w.procs, Held w.store j

theorem replaying_begin (db : Db) : Replaying (begin db) := by
  refine ⟨⟨?_, ?_, List.nodup_nil⟩, ?_⟩
  · exact fun d hd => nomatch hd
  · exact fun p hp => nomatch hp
  · exact fun j hj => nomatch hj

theorem held_start (q : Request) : Held s (start site q) := by
  cases q with
  | dispatch d => exact fun hs => absurd hs (by decide)
  | redriveOnce | elsewhere other => trivial
  | redeliverWebhook m p d => exact fun d hd => nomatch hd
  | redeliverWebhooksBulk m ids =>
    simp only [start]
    split_ifs <;> trivial
  | pruneOnce =>
    simp only [start, afterDeliveries]
    split_ifs <;> trivial

theorem Replaying.step {w t : Pool Job Ledger} {a : Act Request JobReply} (hw : Replaying w)
    (hok : Machine.OnExec (Replays site) w a) (h : (machine site).step w a = some t) :
    Replaying t := by
  have hcut : ∀ s j, Held s j → Held s ((machine site).cut j) := fun s j _ => trivial
  refine Machine.invariant_step (fun s q _ => held_start q) ?_ (fun s j hj => hj) hcut hok h hw
  intro r j s hp hs hj
  simp only [machine]
  split_ifs with hworks
  · obtain ⟨hsound, hheld, hsub⟩ := step_kept hp.1 (hp.2 hworks) hs hj
    exact ⟨hsound, hheld, fun j' hj' => hj'.mono hsub⟩
  · exact ⟨hs, fail_held hj, fun j' hj' => hj'⟩

end

/-- As long as no cleared delivery is picked up, every POST is a replay of what was stored. -/
theorem verbatim_of_run {site : Site} {db : Db} {as : List (Act Request JobReply)}
    {w : Pool Job Ledger} (hr : run (machine site).step (begin db) as = some w)
    (hok : Along (machine site).step (Machine.OnExec (Replays site)) (begin db) as) :
    Verbatim w.store ∧ (w.store.created.map Created.id).Nodup := by
  have hinv : Replaying w :=
    hok.invariant (fun w a t hok h hw => hw.step hok h) hr (replaying_begin db)
  exact ⟨hinv.1.sent, hinv.1.ids⟩

instance (r : JobReply) (j : Job) (s : Ledger) : Decidable (Fresh r j s) :=
  inferInstanceAs (Decidable (∀ c ∈ s.created, c.id ≠ r.uuid))

instance (site : Site) (r : JobReply) (s : Ledger) : ∀ j, Decidable (PicksIntact site r j s)
  | .redriveList => inferInstanceAs (Decidable
      (∀ d ∈ s.db.listRedrivableDeliveries site.config r.now r.random r.tie, d.payload ≠ ""))
  | .redeliver (.getDelivery paymentId deliveryId) => inferInstanceAs (Decidable
      (∀ d ∈ s.db.getWebhookDelivery deliveryId, d.paymentId = paymentId → d.payload ≠ ""))
  | .redeliver (.getPayment _ _ _) | .redeliver (.connect _) | .redeliver (.post _)
  | .redeliver (.finish _ _) | .redeliver .done | .dispatch _ _ _ _ | .redrive _ | .requeue _ _
  | .prune _ | .compact _ | .pruneKeys _ | .elsewhere _ | .done => .isTrue trivial

instance (site : Site) (r : JobReply) (j : Job) (s : Ledger) : Decidable (Replays site r j s) :=
  inferInstanceAs (Decidable (_ ∧ _))

namespace Sample

def site : Site where
  env := StellarGate.Sample.env
  config := ⟨8, 60, 30, 900, 30, 4, 30, 7⟩
  sign _ body := body
  jsonEvent _ := none

def payment : Payment :=
  ⟨"p1", "m", "GDEST", "memo", "1", "XLM", none, .completed, some "https://shop.example/hook",
    some "tx", some "1", "2026-04-29T15:00:00Z", "2026-04-29T15:10:00Z", "2026-04-29T16:00:00Z"⟩

def reply (now : ℤ) (ok : Bool) (uuid : String) : JobReply :=
  ⟨⟨uuid, ok, fun _ => 0⟩, true, now, 0, fun _ => 0⟩

/-- Job 0 is a dispatch whose target is blocked. -/
def blocked : List (Act Request JobReply) :=
  [.spawn (.dispatch ⟨payment, .completed, none⟩), .exec 0 (reply 1777475400 true "d1"),
    .exec 0 (reply 1777475400 false "d2"), .exec 0 (reply 1777475400 true "d2")]

/-- Job `i` is a pass of the redrive worker that sends one delivery. -/
def redriven (i : ℕ) (now : ℤ) : List (Act Request JobReply) :=
  .spawn .redriveOnce :: List.replicate 4 (.exec i (reply now true "d2"))

/-- Job `i` is a retention cycle. -/
def retained (i : ℕ) (now : ℤ) : List (Act Request JobReply) :=
  .spawn .pruneOnce :: List.replicate 3 (.exec i (reply now true "d2"))

end Sample

theorem verbatim_of_run_redriven : ∃ w,
    run (machine Sample.site).step (begin .empty) (Sample.blocked ++ Sample.redriven 1 1777480000) =
        some w ∧
      w.store.sent.length = 1 ∧ Verbatim w.store ∧ (w.store.created.map Created.id).Nodup := by
  obtain ⟨w, hw, hone⟩ := exists_of_run (machine Sample.site).step (begin .empty)
    (Sample.blocked ++ Sample.redriven 1 1777480000) (P := fun w => w.store.sent.length = 1)
    (by decide +kernel)
  exact ⟨w, hw, hone, verbatim_of_run hw (by decide +kernel)⟩

/-- The target stays blocked for longer than the retention, and then the redrive
worker sends an empty body. -/
theorem cleared_payload_redriven : ∃ w,
    run (machine Sample.site).step (begin .empty)
        (Sample.blocked ++ Sample.retained 1 1780080000 ++ Sample.redriven 2 1780080060) = some w ∧
      Along (machine Sample.site).step (Machine.OnExec Fresh) (begin .empty)
        (Sample.blocked ++ Sample.retained 1 1780080000 ++ Sample.redriven 2 1780080060) ∧
      w.store.sent.map (·.post.body) = [""] ∧ ¬ Verbatim w.store := by
  obtain ⟨w, hw, hsent, hnot⟩ := exists_of_run (machine Sample.site).step (begin .empty)
    (Sample.blocked ++ Sample.retained 1 1780080000 ++ Sample.redriven 2 1780080060)
    (P := fun w => w.store.sent.map (·.post.body) = [""] ∧ ¬ Verbatim w.store) (by decide +kernel)
  exact ⟨w, hw, by decide +kernel, hsent, hnot⟩

end Jobs
end StellarGate
