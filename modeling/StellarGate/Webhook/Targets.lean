import StellarGate.Ownership
import StellarGate.Webhook.Durability
import StellarGate.Webhook.Ssrf
import StellarGate.Webhook.Verbatim

/-! Where the webhooks go: a POST that tells something about a payment is sent to the URL that its
merchant gave for it, and to no other. -/
namespace StellarGate
open Base

/-- The body tells of the payment, at some moment of its life, or of nothing at all. -/
inductive Payment.Tells (p : Payment) : String → Prop
  | event (q : Payment) (event : WebhookEvent) (delta : Option String) (h : q.terms = p.terms) :
    Payment.Tells p (buildPayload q event delta).toJson
  | cleared : Payment.Tells p ""

/-- There is a payment with this URL that the body tells of. -/
def Db.Target (db : Db) (url body : String) (p : Payment) : Prop :=
  p ∈ db.payments.rows ∧ p.webhookUrl = some url ∧ p.Tells body

/-- The delivery is about a payment on file, and goes to the URL of that one. -/
def WebhookDelivery.Homebound (db : Db) (d : WebhookDelivery) : Prop :=
  ∃ p, p.id = d.paymentId ∧ db.Target d.url d.payload p

/-- The request has passed the checks of `create` with this URL. -/
structure CreateRequest.Registers (env : Env) (Q : CreateRequest → Prop) (merchantId url : String)
    (req : CreateRequest) : Prop where
  asked : Q req
  merchant : req.merchantId = merchantId
  given : req.webhookUrl = some url
  checked : Create.checkWebhookUrl env req url = .ok ()

def Payment.Registered (env : Env) (Q : CreateRequest → Prop) (p : Payment) : Prop :=
  ∀ url ∈ p.webhookUrl, ∃ req, CreateRequest.Registers env Q p.merchantId url req

/-- A request that goes on was made and has passed the checks. -/
def Call.Checked (env : Env) (Q : CreateRequest → Prop) : Call → Prop
  | .create req pc =>
    (Call.create req pc).returned = true ∨ Q req ∧ ∃ one, Create.validate env req = .ok one
  | .reconcile _ _ | .sweep _ | .lost => True

structure World.Directed (env : Env) (Q : CreateRequest → Prop) (w : World) : Prop where
  sound : w.Sound
  known : ∀ c ∈ w.calls, ∀ d ∈ c.undispatched, Known w.db d.payment
  dispatched : ∀ d ∈ w.dispatched, Known w.db d.payment
  deliveries : ∀ d ∈ w.db.webhookDeliveries.rows, d.Homebound w.db
  checked : ∀ c ∈ w.calls, c.Checked env Q
  registered : ∀ p ∈ w.db.payments.rows, p.Registered env Q

section
variable {env : Env} {Q : CreateRequest → Prop} {db db' : Db} {now : ℤ} {r : Reply} {c : Call}
  {req : CreateRequest} {pc : CreatePc} {p q : Payment} {d d' : WebhookDelivery} {url body : String}

theorem Payment.Tells.of_terms (ht : q.terms = p.terms) (h : p.Tells body) : q.Tells body := by
  cases h with
  | event q' event delta hq' => exact .event q' event delta (hq'.trans ht.symm)
  | cleared => exact .cleared

theorem Db.Target.mono (hterms : ∀ p ∈ db.payments.rows, ∃ q ∈ db'.payments.rows, q.terms = p.terms)
    (h : db.Target url body p) : ∃ q, q.terms = p.terms ∧ db'.Target url body q := by
  obtain ⟨hp, hurl, htells⟩ := h
  obtain ⟨q, hq, ht⟩ := hterms p hp
  exact ⟨q, ht, hq, (Payment.webhookUrl_eq_of_terms ht).trans hurl, htells.of_terms ht⟩

theorem WebhookDelivery.Homebound.mono
    (hterms : ∀ p ∈ db.payments.rows, ∃ q ∈ db'.payments.rows, q.terms = p.terms)
    (h : d.Homebound db) :
    d.Homebound db' := by
  obtain ⟨p, hid, htarget⟩ := h
  obtain ⟨q, ht, htarget'⟩ := htarget.mono hterms
  exact ⟨q, (Payment.id_eq_of_terms ht).trans hid, htarget'⟩

structure WebhookDelivery.Copies (d d' : WebhookDelivery) : Prop where
  payment : d'.paymentId = d.paymentId
  url : d'.url = d.url
  payload : d'.payload = d.payload ∨ d'.payload = ""

theorem WebhookDelivery.Homebound.copies (h : d.Homebound db) (hcopy : d.Copies d') :
    d'.Homebound db := by
  obtain ⟨p, hid, hp, hurl, htells⟩ := h
  refine ⟨p, hid.trans hcopy.payment.symm, hp, hurl.trans (congrArg some hcopy.url.symm), ?_⟩
  rcases hcopy.payload with hsame | hcleared
  · rw [hsame]
    exact htells
  · rw [hcleared]
    exact .cleared

theorem Known.target (hk : Known db p) (hurl : p.webhookUrl = some url) (event : WebhookEvent)
    (delta : Option String) :
    ∃ q, q.id = p.id ∧ db.Target url (buildPayload p event delta).toJson q := by
  obtain ⟨q, hq, ht⟩ := hk
  exact ⟨q, Payment.id_eq_of_terms ht, hq, (Payment.webhookUrl_eq_of_terms ht).trans hurl,
    .event p event delta ht.symm⟩

theorem homebound_of_update {hit : WebhookDelivery → Bool} {f : WebhookDelivery → WebhookDelivery}
    (hf : ∀ k ∈ [WebhookDelivery.id], ∀ d, k (f d) = k d)
    (hcopy : ∀ d : WebhookDelivery, d.Copies (f d))
    (h : ∀ d ∈ db.webhookDeliveries.rows, d.Homebound db) :
    ∀ d ∈ (db.webhookDeliveries.update hit f hf).rows, d.Homebound db := by
  intro d hd
  obtain ⟨d₀, hd₀, rfl⟩ := (Table.mem_update hf).mp hd
  split_ifs
  · exact (h d₀ hd₀).copies (hcopy d₀)
  · exact h d₀ hd₀

theorem homebound_of_save {id : String} (hk : Known db p) (hurl : p.webhookUrl = some url)
    {event : WebhookEvent} {delta : Option String}
    (hsave : db.saveWebhookDelivery now id p.id url
      (buildPayload p event delta).toJson event.name = some db')
    (h : ∀ d ∈ db.webhookDeliveries.rows, d.Homebound db) :
    ∀ d ∈ db'.webhookDeliveries.rows, d.Homebound db := by
  obtain ⟨table, hinsert, rfl⟩ := Option.map_eq_some_iff.mp hsave
  intro d hd
  have hd' : d ∈ table.rows := hd
  rw [(Table.insert_eq_some hinsert).1] at hd'
  rcases List.mem_append.mp hd' with hold | hnew
  · exact h d hold
  · rw [List.mem_singleton.mp hnew]
    exact hk.target hurl event delta

theorem homebound_of_write {id : String} {status : DeliveryStatus} {attempts : ℤ}
    (h : ∀ d ∈ db.webhookDeliveries.rows, d.Homebound db) :
    ∀ d ∈ (db.updateWebhookDelivery now id status attempts).webhookDeliveries.rows,
      d.Homebound db :=
  homebound_of_update (Db.deliveryRow_keys now status attempts) (fun _ => ⟨rfl, rfl, .inl rfl⟩) h

theorem Dispatch.step_homebound {x : Dispatch} {pc : DispatchPc}
    (hk : pc = .start → Known db x.payment) (h : ∀ d ∈ db.webhookDeliveries.rows, d.Homebound db) :
    ∀ d ∈ (x.step env now r pc db).2.webhookDeliveries.rows, d.Homebound db := by
  cases pc with
  | start =>
    simp only [Dispatch.step]
    split
    · exact h
    · next url hurl =>
      cases hsave : db.saveWebhookDelivery now r.uuid x.payment.id url
          (buildPayload x.payment x.event x.delta).toJson x.event.name with
      | none => exact h
      | some db' => exact homebound_of_save (hk rfl) hurl hsave h
  | connect id | post id k | done => exact h
  | finish id status n => exact homebound_of_write h

theorem Create.validate_ok {one : AcceptedAsset} (h : Create.validate env req = .ok one) :
    ∀ url ∈ req.webhookUrl, Create.checkWebhookUrl env req url = .ok () := by
  intro url hurl
  unfold Create.validate at h
  split at h
  · cases h
  · split_ifs at h
    rw [Option.mem_def.mp hurl] at h
    simp only at h
    split at h
    · cases h
    · assumption

theorem Call.checked_start (hreq : Q req) :
    (Call.create req (Create.start env req)).Checked env Q := by
  cases hvalid : Create.validate env req with
  | error e =>
    have hdone : Create.start env req = .done (.failed e) := by
      simp only [Create.start, hvalid]
    rw [hdone]
    exact .inl rfl
  | ok one => exact .inr ⟨hreq, one, hvalid⟩

theorem Call.Checked.step (h : c.Checked env Q) : (c.step env now r db).next.Checked env Q := by
  cases c with
  | create req pc =>
    rcases h with hreturned | hchecked
    · rw [Call.step_returned hreturned]
      exact .inl hreturned
    · exact .inr hchecked
  | reconcile hp pc | sweep pc | lost => trivial

theorem Call.Checked.fail (h : c.Checked env Q) : (c.fail r).1.Checked env Q := by
  cases c with
  | create req pc =>
    rcases h with hreturned | hchecked
    · cases pc with
      | done response => exact .inl rfl
      | _ => cases hreturned
    · exact .inr hchecked
  | reconcile hp pc | sweep pc | lost => trivial

theorem Call.Checked.cut (h : c.Checked env Q) : c.cut.Checked env Q := by
  unfold Call.cut
  split_ifs
  · exact h
  · trivial

end

namespace World
variable {env : Env} {Q : CreateRequest → Prop} {w t : World} {e : Event} {i : ℕ}
  {r : Reply} {c : Call}

theorem Directed.init (now : ℤ) : (init now).Directed env Q :=
  ⟨Sound.init, (fun _ h => nomatch h), (fun _ h => nomatch h), (fun _ h => nomatch h),
    (fun _ h => nomatch h), fun _ h => nomatch h⟩

theorem Directed.registered_exec (hw : w.Directed env Q) (hc : w.calls[i]? = some c) {q : Payment}
    (hq : q ∈ (w.exec env i r c).db.payments.rows) : q.Registered env Q := by
  have hwrites : Writes env w.now r w.db c (c.step env w.now r w.db).db := c.step_writes
  intro url hurl
  rcases hwrites.row_inv hq with ⟨p, hp, hstep⟩ | hnew
  · rw [Payment.webhookUrl_eq_of_terms hstep.terms] at hurl
    rw [Payment.merchantId_eq_of_terms hstep.terms]
    exact hw.registered p hp url hurl
  · obtain ⟨req, memo, expires, amount, rfl, hrow⟩ := hwrites.new hq hnew
    rcases hw.checked _ (List.mem_of_getElem? hc) with hreturned | ⟨hasked, one, hvalid⟩
    · cases hreturned
    · have hgiven : req.webhookUrl = some url := by
        rw [hrow] at hurl
        exact hurl
      refine ⟨req, hasked, ?_, hgiven, Create.validate_ok hvalid url hgiven⟩
      rw [hrow]
      rfl

theorem Directed.exec (hw : w.Directed env Q) (hc : w.calls[i]? = some c) :
    (w.exec env i r c).Directed env Q := by
  have hmem := List.mem_of_getElem? hc
  have hcs := hw.sound.calls c hmem
  have hwrites : Writes env w.now r w.db c (c.step env w.now r w.db).db := c.step_writes
  have hg := hwrites.grows hcs
  obtain ⟨new, heq, -, hnew⟩ := Call.step_undispatched env w.now r hcs
  -- what the step sends, and what the call goes on to owe, it owed before or has just learnt
  have hknown : ∀ d ∈ (c.step env w.now r w.db).dispatched ++
      (c.step env w.now r w.db).next.undispatched, Known (w.exec env i r c).db d.payment := by
    intro d hd
    rw [heq] at hd
    rcases List.mem_append.mp hd with hd | hd
    · exact (hw.known c hmem d hd).mono hg
    · exact hnew d hd
  constructor
  · exact hw.sound.exec hc
  · refine Machine.forall_mem_set (fun c hc d hd => (hw.known c hc d hd).mono hg) ?_
    exact fun d hd => hknown d (List.mem_append_right _ hd)
  · intro d hd
    rcases List.mem_append.mp hd with hd | hd
    · exact (hw.dispatched d hd).mono hg
    · exact hknown d (List.mem_append_left _ hd)
  · rcases c.step_deliveries env w.now r w.db with ⟨hsame, -⟩ | ⟨x, pc, hdb, hsent⟩
    · intro d hd
      have hold : d ∈ w.db.webhookDeliveries.rows := hsame ▸ hd
      exact (hw.deliveries d hold).mono hg.terms
    · have hpayments : (x.step env w.now r pc w.db).2.payments = w.db.payments :=
          Dispatch.step_frame.1
      have hstart : pc = .start → Known w.db x.payment := by
        intro hpc
        have hx :=
            hknown x (List.mem_append_left _ (by
              rw [hsent, if_pos hpc]; exact List.mem_singleton_self x))
        obtain ⟨q, hq, ht⟩ := hx
        have hq' : q ∈ (c.step env w.now r w.db).db.payments.rows := hq
        rw [hdb, hpayments] at hq'
        exact ⟨q, hq', ht⟩
      intro d hd
      have hd' : d ∈ (c.step env w.now r w.db).db.webhookDeliveries.rows := hd
      rw [hdb] at hd'
      exact (Dispatch.step_homebound hstart hw.deliveries d hd').mono hg.terms
  · exact Machine.forall_mem_set hw.checked (hw.checked c hmem).step
  · exact fun q hq => hw.registered_exec hc hq

theorem Directed.of_calls (hw : w.Directed env Q) (hsound : t.Sound) (hdb : t.db = w.db)
    (hcalls : ∀ c ∈ t.calls, ∀ d ∈ c.undispatched, ∃ c' ∈ w.calls, d ∈ c'.undispatched)
    (hsent : ∀ d ∈ t.dispatched, d ∈ w.dispatched ∨ ∃ c' ∈ w.calls, d ∈ c'.undispatched)
    (hchecked : ∀ c ∈ t.calls, c.Checked env Q) : t.Directed env Q := by
  have hknown : ∀ c ∈ w.calls, ∀ d ∈ c.undispatched, Known t.db d.payment := by
    rw [hdb]
    exact hw.known
  constructor
  · exact hsound
  · intro c hc d hd
    obtain ⟨c', hc', hd'⟩ := hcalls c hc d hd
    exact hknown c' hc' d hd'
  · intro d hd
    rcases hsent d hd with hd | ⟨c', hc', hd'⟩
    · rw [hdb]
      exact hw.dispatched d hd
    · exact hknown c' hc' d hd'
  · rw [hdb]
    exact hw.deliveries
  · exact hchecked
  · rw [hdb]
    exact hw.registered

theorem Directed.step (hreq : ∀ req, e = .create req → Q req) (h : step env w e = some t)
    (hw : w.Directed env Q) :
    t.Directed env Q := by
  have hsound := hw.sound.step h
  have hsame : ∀ c ∈ w.calls, ∀ d ∈ c.undispatched, ∃ c' ∈ w.calls, d ∈ c'.undispatched :=
    fun c hc d hd => ⟨c, hc, hd⟩
  have hstart : ∀ x : Call, x.undispatched = [] →
      ∀ c ∈ w.calls ++ [x], ∀ d ∈ c.undispatched, ∃ c' ∈ w.calls, d ∈ c'.undispatched := by
    intro x hx c hc d hd
    rcases List.mem_append.mp hc with hc | hc
    · exact ⟨c, hc, hd⟩
    · rw [List.mem_singleton.mp hc, hx] at hd
      cases hd
  have hadd : ∀ x : Call, x.Checked env Q → ∀ c ∈ w.calls ++ [x], c.Checked env Q := by
    intro x hx c hc
    rcases List.mem_append.mp hc with hc | hc
    · exact hw.checked c hc
    · rw [List.mem_singleton.mp hc]
      exact hx
  have hcut : ∀ c ∈ w.calls, ∀ d ∈ c.cut.undispatched, ∃ c' ∈ w.calls, d ∈ c'.undispatched := by
    intro c hc d hd
    rcases c.cut_undispatched with heq | heq
    · exact ⟨c, hc, heq ▸ hd⟩
    · rw [heq] at hd
      cases hd
  cases e with
  | advance secs =>
    cases h
    exact hw.of_calls hsound rfl hsame (fun _ hd => .inl hd) hw.checked
  | reconcile hp =>
    cases h
    exact hw.of_calls hsound rfl (hstart _ (Reconcile.start_undispatched hp)) (fun _ hd => .inl hd)
      (hadd _ trivial)
  | sweep =>
    cases h
    exact hw.of_calls hsound rfl (hstart _ rfl) (fun _ hd => .inl hd) (hadd _ trivial)
  | create req =>
    cases h
    exact hw.of_calls hsound rfl (hstart _ rfl) (fun _ hd => .inl hd)
      (hadd _ (Call.checked_start (hreq req rfl)))
  | exec i r =>
    obtain ⟨c, hc, -, rfl⟩ := step_exec h
    exact hw.exec hc
  | fail i r =>
    obtain ⟨c, hc, -, rfl⟩ := step_fail h
    have hmem := List.mem_of_getElem? hc
    have hrest : ∀ d ∈ (c.fail r).2 ++ (c.fail r).1.undispatched, ∃ c' ∈ w.calls,
        d ∈ c'.undispatched := by
      rw [Call.fail_undispatched]
      exact fun d hd => ⟨c, hmem, hd⟩
    refine hw.of_calls hsound rfl (Machine.forall_mem_set hsame fun d hd => ?_) (fun d hd => ?_)
      (Machine.forall_mem_set hw.checked (hw.checked c hmem).fail)
    · exact hrest d (List.mem_append_right _ hd)
    · exact (List.mem_append.mp hd).imp_right fun hd => hrest d (List.mem_append_left _ hd)
  | kill i =>
    obtain ⟨c, hc, rfl⟩ := step_kill h
    have hmem := List.mem_of_getElem? hc
    exact hw.of_calls hsound rfl (Machine.forall_mem_set hsame (hcut c hmem)) (fun _ hd => .inl hd)
      (Machine.forall_mem_set hw.checked (hw.checked c hmem).cut)
  | crash =>
    cases h
    refine hw.of_calls hsound rfl (fun c hc => ?_) (fun _ hd => .inl hd) fun c hc => ?_
    · obtain ⟨c, hin, rfl⟩ := List.mem_map.mp hc
      exact hcut c hin
    · obtain ⟨c, hin, rfl⟩ := List.mem_map.mp hc
      exact (hw.checked c hin).cut

end World

namespace Jobs
variable {site : Site} {r : JobReply} {s : Ledger} {db : Db} {j : Job}

/-- The POST goes to the URL of a payment that its body tells of. -/
def Sent.Homebound (db : Db) (x : Sent) : Prop := ∃ p, db.Target x.post.url x.post.body p

structure Homebound (s : Ledger) : Prop where
  deliveries : ∀ d ∈ s.db.webhookDeliveries.rows, d.Homebound s.db
  sent : ∀ x ∈ s.sent, Sent.Homebound s.db x

/-- What a job works with is about payments on file. -/
def Job.Informed (db : Db) : Job → Prop
  | .dispatch d _ saved _ => Known db d.payment ∧ (saved = true → d.payment.webhookUrl.isSome)
  | .redrive tasks => ∀ t ∈ tasks, ∀ d ∈ Task.delivery t, d.Homebound db
  | .redeliver pc => ∀ d ∈ redelivering pc, d.Homebound db
  | _ => True

/-- A request of the jobs is about a payment on file. -/
def Request.Informed (db : Db) : Request → Prop
  | .dispatch d => Known db d.payment
  | _ => True

theorem informed_start {q : Request} (hq : q.Informed db) : Job.Informed db (start site q) := by
  cases q with
  | dispatch d => exact ⟨hq, fun h => absurd h (by decide)⟩
  | redriveOnce | elsewhere other => trivial
  | redeliverWebhook m p d => exact fun d hd => absurd hd (Option.not_mem_none d)
  | redeliverWebhooksBulk m ids =>
    simp only [start]
    split_ifs <;> trivial
  | pruneOnce =>
    simp only [start, afterDeliveries]
    split_ifs <;> trivial

theorem informed_fail (hj : Job.Informed db j) : Job.Informed db (fail r j) := by
  cases j with
  | dispatch d timestamp saved pc => exact hj
  | redrive tasks =>
    simp only [fail]
    split
    · exact Machine.forall_mem_set hj fun d hd => absurd hd (Option.not_mem_none d)
    · exact hj
  | redeliver pc =>
    cases pc with
    | getPayment m p d | getDelivery p d | finish d status =>
      exact fun d hd => absurd hd (Option.not_mem_none d)
    | connect d | post d | done => exact hj
  | redriveList => exact fun x hx => absurd hx List.not_mem_nil
  | requeue _ _ | prune _ | compact _ | pruneKeys _ | elsewhere _ | done => trivial

theorem Homebound.send (h : Homebound s) {x : Sent} (hx : Sent.Homebound s.db x) :
    Homebound { s with sent := s.sent ++ [x] } := by
  refine ⟨h.deliveries, fun y hy => ?_⟩
  rcases List.mem_append.mp hy with hy | hy
  · exact h.sent y hy
  · rw [List.mem_singleton.mp hy]
    exact hx

theorem Homebound.resend (h : Homebound s) {d : WebhookDelivery} (hd : d.Homebound s.db)
    (timestamp : ℤ) :
    Homebound { s with sent := s.sent ++ [⟨d.id, d.post site.sign site.jsonEvent timestamp⟩] } := by
  obtain ⟨p, -, htarget⟩ := hd
  exact h.send ⟨p, htarget⟩

theorem Homebound.of_deliveries (h : Homebound s) (hpayments : db.payments = s.db.payments)
    (hrows : ∀ d ∈ db.webhookDeliveries.rows, d.Homebound s.db) : Homebound { s with db } := by
  have hterms : ∀ p ∈ s.db.payments.rows, ∃ q ∈ db.payments.rows, q.terms = p.terms := fun p hp =>
    ⟨p, hpayments ▸ hp, rfl⟩
  refine ⟨fun d hd => (hrows d hd).mono hterms, fun x hx => ?_⟩
  obtain ⟨p, htarget⟩ := h.sent x hx
  obtain ⟨q, -, hq⟩ := htarget.mono hterms
  exact ⟨q, hq⟩

/-- What a step leaves: every webhook goes home, and the job goes on with payments on file. -/
structure Leads (s : Ledger) (next : Job × Ledger) : Prop where
  homebound : Homebound next.2
  informed : Job.Informed s.db next.1

theorem dispatch_leads {d : Dispatch} {timestamp : ℤ} {saved : Bool} {pc : DispatchPc}
    (h : Homebound s) (hj : Job.Informed s.db (.dispatch d timestamp saved pc)) :
    Leads s (dispatch site r d timestamp saved pc s) := by
  obtain ⟨hk, hurl⟩ := hj
  by_cases hpc : pc = .start
  · subst hpc
    simp only [dispatch]
    split
    · exact ⟨h, hk, fun hs => absurd hs (by decide)⟩
    · next db hsave =>
      obtain ⟨url, hsome, hsave⟩ := Option.bind_eq_some_iff.mp hsave
      have hpayments : db.payments = s.db.payments := by
        obtain ⟨table, -, rfl⟩ := Option.map_eq_some_iff.mp hsave
        rfl
      have hrows := homebound_of_save hk hsome hsave h.deliveries
      have hkept : Homebound { s with db } := h.of_deliveries hpayments hrows
      exact ⟨⟨hkept.deliveries, hkept.sent⟩, hk, fun _ => Option.isSome_iff_exists.mpr ⟨url, hsome⟩⟩
  · have hrows : Homebound { s with db := (d.step site.env r.now r.toReply pc s.db).2 } :=
      h.of_deliveries Dispatch.step_frame.1
        (Dispatch.step_homebound (fun hs => absurd hs hpc) h.deliveries)
    cases pc with
    | start => exact absurd rfl hpc
    | connect id | finish id status n | done => exact ⟨hrows, hk, hurl⟩
    | post id k =>
      refine ⟨?_, hk, hurl⟩
      cases saved with
      | false => simpa only [dispatch, Bool.false_eq_true, if_false, List.append_nil] using hrows
      | true =>
        obtain ⟨url, hsome⟩ := Option.isSome_iff_exists.mp (hurl rfl)
        obtain ⟨q, -, htarget⟩ := hk.target hsome d.event d.delta
        refine hrows.send ⟨q, ?_⟩
        show s.db.Target (d.payment.webhookUrl.getD "") _ q
        rw [hsome]
        exact htarget

theorem redriveOne_leads {x : Task} (h : Homebound s)
    (hx : ∀ d ∈ Task.delivery x, d.Homebound s.db) :
    Homebound (redriveOne site r x s).2 ∧ ∀ d ∈ Task.delivery (redriveOne site r x s).1,
      d.Homebound s.db := by
  cases x with
  | waiting d | done => exact ⟨h, hx⟩
  | connect d =>
    refine ⟨h, ?_⟩
    simp only [redriveOne]
    split_ifs
    · exact hx
    · exact fun d hd => absurd hd (Option.not_mem_none d)
  | post d => exact ⟨h.resend (hx d rfl) r.now, fun d hd => absurd hd (Option.not_mem_none d)⟩
  | finish d status attempts =>
    exact ⟨h.of_deliveries rfl (homebound_of_write h.deliveries), fun d hd => absurd hd
      (Option.not_mem_none d)⟩

theorem redrive_leads {tasks : List Task} (h : Homebound s)
    (hj : Job.Informed s.db (.redrive tasks)) :
    Leads s (redrive site r tasks s) := by
  unfold redrive
  split
  · exact ⟨h, hj⟩
  · next x hx =>
    split_ifs
    · exact ⟨h, hj⟩
    · obtain ⟨hhome, hinformed⟩ := redriveOne_leads (r := r) h (hj x (List.mem_of_getElem? hx))
      exact ⟨hhome, Machine.forall_mem_set hj hinformed⟩

theorem redeliver_leads {pc : RedeliverPc} (h : Homebound s)
    (hj : Job.Informed s.db (.redeliver pc)) :
    Leads s (.redeliver (redeliver site r pc s).1, (redeliver site r pc s).2) := by
  cases pc with
  | getPayment merchantId paymentId deliveryId =>
    simp only [redeliver]
    split <;> exact ⟨h, fun d hd => absurd hd (Option.not_mem_none d)⟩
  | getDelivery paymentId deliveryId =>
    simp only [redeliver]
    split
    · exact ⟨h, fun d hd => absurd hd (Option.not_mem_none d)⟩
    · next d hd =>
      refine ⟨h, ?_⟩
      split_ifs
      · intro d' hd'
        cases hd'
        obtain ⟨row, hrow, rfl⟩ := Option.map_eq_some_iff.mp hd
        exact (h.deliveries row (List.mem_of_find?_eq_some hrow)).copies ⟨rfl, rfl, .inl rfl⟩
      · exact fun d hd => absurd hd (Option.not_mem_none d)
  | connect d =>
    refine ⟨h, ?_⟩
    simp only [redeliver]
    split_ifs
    · exact hj
    · exact fun d hd => absurd hd (Option.not_mem_none d)
  | post d => exact ⟨h.resend (hj d rfl) r.now, fun d hd => absurd hd (Option.not_mem_none d)⟩
  | finish d status =>
    exact ⟨h.of_deliveries rfl (homebound_of_write h.deliveries), fun d hd => absurd hd
      (Option.not_mem_none d)⟩
  | done => exact ⟨h, hj⟩

theorem step_leads (hown : Job.own j = true) (h : Homebound s) (hj : Job.Informed s.db j) :
    Leads s (step site r j s) := by
  cases j with
  | dispatch d timestamp saved pc => exact dispatch_leads h hj
  | redriveList =>
    refine ⟨h, fun x hx d hd => ?_⟩
    obtain ⟨d', hd', rfl⟩ := List.mem_map.mp hx
    cases hd
    obtain ⟨row, hrow, rfl⟩ := List.mem_map.mp hd'
    have hmem := List.mem_of_mem_filter ((List.mem_insertionSort _).mp hrow)
    exact (h.deliveries row hmem).copies ⟨rfl, rfl, .inl rfl⟩
  | redrive tasks => exact redrive_leads h hj
  | redeliver pc => exact redeliver_leads h hj
  | requeue merchantId ids =>
    refine ⟨h.of_deliveries rfl ?_, trivial⟩
    exact homebound_of_update (Db.requeueRow_keys r.now) (fun _ => ⟨rfl, rfl, .inl rfl⟩)
      h.deliveries
  | prune total =>
    refine ⟨h.of_deliveries rfl fun d hd => h.deliveries d (List.mem_of_mem_filter hd), ?_⟩
    simp only [step]
    generalize drained _ total = last
    cases last <;> exact trivial
  | compact total =>
    refine ⟨h.of_deliveries rfl ?_, ?_⟩
    · exact homebound_of_update Db.compactRow_keys (fun _ => ⟨rfl, rfl, .inr rfl⟩) h.deliveries
    · simp only [step, afterDeliveries]
      generalize drained _ total = last
      cases last
      · exact trivial
      · split_ifs <;> exact trivial
  | pruneKeys total =>
    refine ⟨h.of_deliveries rfl h.deliveries, ?_⟩
    simp only [step]
    generalize drained _ total = last
    cases last <;> exact trivial
  | elsewhere other => cases hown
  | done => exact ⟨h, trivial⟩

theorem Job.Informed.mono {db' : Db}
    (hterms : ∀ p ∈ db.payments.rows, ∃ q ∈ db'.payments.rows, q.terms = p.terms)
    (hj : Job.Informed db j) : Job.Informed db' j := by
  cases j with
  | dispatch d timestamp saved pc =>
    obtain ⟨⟨q, hq, ht⟩, hurl⟩ := hj
    obtain ⟨q', hq', ht'⟩ := hterms q hq
    exact ⟨⟨q', hq', ht'.trans ht⟩, hurl⟩
  | redrive tasks => exact fun t ht d hd => (hj t ht d hd).mono hterms
  | redeliver pc => exact fun d hd => (hj d hd).mono hterms
  | redriveList | requeue _ _ | prune _ | compact _ | pruneKeys _ | elsewhere _ | done => trivial

end Jobs

namespace Service
variable {site : Jobs.Site} {hash : String → String} {Q : CreateRequest → Prop} {s t : Service}
  {e : ServiceEvent}

structure Directed (site : Jobs.Site) (hash : String → String) (Q : CreateRequest → Prop)
    (s : Service) : Prop where
  current : s.Current site.env hash
  world : s.world.Directed site.env Q
  sent : ∀ x ∈ s.sent, Jobs.Sent.Homebound s.world.db x
  jobs : ∀ j ∈ s.jobs, Jobs.Job.Informed s.world.db j

/-- Only `settle` and the sweeps call `dispatch`. -/
def Announces (s : Service) : ServiceEvent → Prop
  | .job (.spawn (.dispatch d)) => d ∈ s.world.dispatched
  | _ => True

instance (s : Service) : ∀ e, Decidable (s.Announces e)
  | .job (.spawn (.dispatch d)) => inferInstanceAs (Decidable (d ∈ s.world.dispatched))
  | .job (.spawn .redriveOnce) | .job (.spawn (.redeliverWebhook _ _ _))
  | .job (.spawn (.redeliverWebhooksBulk _ _)) | .job (.spawn .pruneOnce)
  | .job (.spawn (.elsewhere _)) | .job (.exec _ _) | .job (.fail _) | .job (.cut _) | .world _
  | .key _ | .setState _ _ | .restart _ _ => .isTrue trivial

theorem Directed.informed {q : Jobs.Request} (h : s.Directed site hash Q)
    (hannounces : s.Announces (.job (.spawn q))) : q.Informed s.world.db := by
  cases q with
  | dispatch d => exact h.world.dispatched d hannounces
  | redriveOnce | redeliverWebhook m p d | redeliverWebhooksBulk m ids | pruneOnce
  | elsewhere other => exact trivial

def Asks (Q : CreateRequest → Prop) : ServiceEvent → Prop
  | .world (.create req) => Q req
  | _ => True

theorem terms_step {env : Env} {w v : World} {e : Event} (h : World.step env w e = some v) :
    ∀ p ∈ w.db.payments.rows, ∃ q ∈ v.db.payments.rows, q.terms = p.terms := by
  intro p hp
  rcases World.step_db h with hdb | ⟨i, r, c, -, -, rfl⟩
  · exact ⟨p, hdb ▸ hp, rfl⟩
  · have hw : Writes env w.now r w.db c (c.step env w.now r w.db).db := c.step_writes
    obtain ⟨q, hq, hstep⟩ := hw.row hp
    exact ⟨q, hq, hstep.terms⟩

theorem directed_world {e : Event} {v : World} (hasks : ∀ req, e = .create req → Q req)
    (hv : World.step site.env s.world e = some v) (h : s.Directed site hash Q) :
    Directed site hash Q { s with world := v } := by
  have hterms := terms_step hv
  constructor
  · exact ⟨h.current.world.step hv, h.current.jobs, h.current.keys⟩
  · exact h.world.step hasks hv
  · intro x hx
    obtain ⟨p, htarget⟩ := h.sent x hx
    obtain ⟨q, -, hq⟩ := htarget.mono hterms
    exact ⟨q, hq⟩
  · exact fun j hj => (h.jobs j hj).mono hterms

theorem directed_world_aside {db : Db} (hpayments : db.payments = s.world.db.payments)
    (hrows : ∀ d ∈ db.webhookDeliveries.rows, d.Homebound db)
    (hsound : World.Sound { s.world with db }) (h : s.Directed site hash Q) :
    World.Directed site.env Q { s.world with db } := by
  have hknown : ∀ {p : Payment}, Known s.world.db p → Known db p := by
    rintro p ⟨q, hq, ht⟩
    exact ⟨q, hpayments ▸ hq, ht⟩
  constructor
  · exact hsound
  · exact fun c hc d hd => hknown (h.world.known c hc d hd)
  · exact fun d hd => hknown (h.world.dispatched d hd)
  · exact hrows
  · exact h.world.checked
  · exact fun p hp => h.world.registered p (hpayments ▸ hp)

theorem directed_job {a : Act Jobs.Request JobReply}
    (hinformed : ∀ q, a = .spawn q → q.Informed s.world.db)
    (hstep : step site hash s (.job a) = some t) (h : s.Directed site hash Q) :
    t.Directed site hash Q := by
  have hcurrent : t.Current site.env hash := h.current.job hstep
  obtain ⟨-, haside, hworld, -⟩ := step_job h.current.jobs hstep
  have hhome : Jobs.Homebound s.pool.store := ⟨h.world.deliveries, h.sent⟩
  have hterms : ∀ p ∈ s.world.db.payments.rows, ∃ q ∈ t.world.db.payments.rows, q.terms = p.terms :=
      fun p hp =>
    ⟨p, haside.payments ▸ hp, rfl⟩
  -- what the step makes of the ledger and of the jobs
  have hleads : Jobs.Homebound ⟨t.world.db, t.created, t.sent⟩ ∧
      ∀ j ∈ t.jobs, Jobs.Job.Informed s.world.db j := by
    simp only [step] at hstep
    split_ifs at hstep
    obtain ⟨w, hw, rfl⟩ := Option.map_eq_some_iff.mp hstep
    cases a with
    | spawn q =>
      cases hw
      refine ⟨hhome, fun j hj => ?_⟩
      rcases List.mem_append.mp hj with hj | hj
      · exact h.jobs j hj
      · rw [List.mem_singleton.mp hj]
        exact Jobs.informed_start (hinformed q rfl)
    | exec i r =>
      obtain ⟨j, hj, rfl⟩ := Machine.step_exec hw
      have hmem := List.mem_of_getElem? hj
      simp only [Jobs.machine]
      split_ifs
      · have hnext : Jobs.Leads s.pool.store (Jobs.step site r j s.pool.store) :=
          Jobs.step_leads (h.current.jobs j hmem) hhome (h.jobs j hmem)
        exact ⟨hnext.homebound, Machine.forall_mem_set h.jobs hnext.informed⟩
      · exact ⟨hhome, Machine.forall_mem_set h.jobs (Jobs.informed_fail (h.jobs j hmem))⟩
    | fail i =>
      obtain ⟨j, hj, rfl⟩ := Machine.step_fail hw
      exact ⟨hhome, Machine.forall_mem_set h.jobs (h.jobs j (List.mem_of_getElem? hj))⟩
    | cut i =>
      obtain ⟨j, hj, rfl⟩ := Machine.step_cut hw
      exact ⟨hhome, Machine.forall_mem_set h.jobs trivial⟩
  constructor
  · exact hcurrent
  · rw [hworld]
    refine directed_world_aside haside.payments hleads.1.deliveries ?_ h
    rw [← hworld]
    exact hcurrent.world.sound
  · exact hleads.1.sent
  · exact fun j hj => (hleads.2 j hj).mono hterms

theorem Directed.step (hconfig : Addressed site.env.config) (hasks : Asks Q e)
    (hannounces : s.Announces e) (hstep : step site hash s e = some t)
    (h : s.Directed site hash Q) : t.Directed site hash Q := by
  cases e with
  | world e =>
    obtain ⟨v, hv, rfl⟩ := Option.map_eq_some_iff.mp hstep
    refine directed_world (fun req he => ?_) hv h
    subst he
    exact hasks
  | job a =>
    refine directed_job (fun q ha => ?_) hstep h
    subst ha
    exact h.informed hannounces
  | key a =>
    obtain ⟨keys, hkeys, rfl⟩ := Option.map_eq_some_iff.mp hstep
    exact ⟨⟨h.current.world, h.current.jobs, h.current.keys.step hkeys⟩, h.world, h.sent, h.jobs⟩
  | setState key value =>
    cases hstep
    exact ⟨⟨h.current.world, h.current.jobs, h.current.keys⟩, h.world, h.sent, h.jobs⟩
  | restart draw n =>
    cases hstep
    have hfile : (s.crash site hash).file = s.file := rfl
    rw [h.current.begun_eq_self hconfig, ← hfile, load_file]
    refine ⟨h.current.crash, h.world.step (e := .crash) (fun _ he => nomatch he) rfl, h.sent,
      fun j hj => ?_⟩
    obtain ⟨j, -, rfl⟩ := List.mem_map.mp hj
    exact trivial

/-- The URL was given for a payment that the body tells of, in a request of the run
that passed the checks. -/
def Home (site : Jobs.Site) (es : List ServiceEvent) (s : Service) (url body : String) : Prop :=
  ∃ p, s.world.db.Target url body p ∧
    ∃ req, CreateRequest.Registers site.env (fun req => .world (.create req) ∈ es)
      p.merchantId url req

/-- The request is addressed home. The client repeats its POST there only, exactly as long as no
answer has it repeated elsewhere. -/
structure Homeward (site : Jobs.Site) (es : List ServiceEvent) (s : Service) (x : Sent) : Prop where
  home : s.Home site es x.post.url x.post.body
  stays : ∀ (urls : UrlParser) (u : Url) (target : SafeTarget) (hops : ℕ → Ssrf.Hop)
    (allowPrivate : Bool) (lookup : Option (List IpAddr)), urls.parse x.post.url = some u →
    Ssrf.validate urls x.post.url allowPrivate lookup = .ok target →
    ((∀ v ∈ Ssrf.posted urls target hops Ssrf.maxRedirects 0 u, v = u) ↔
      Ssrf.Unrepeated urls hops Ssrf.maxRedirects 0 u)

/-- Whatever the dispatches, the redrives and the redeliveries send, and whatever waits to be
sent, is addressed to a URL that was given for the payment it tells of, by its merchant, in a
request that passed the checks: through crashes, restarts and clean-ups no webhook goes astray,
unless a receiver sends it on. -/
theorem webhooks_home {start : ℤ} {es : List ServiceEvent}
    (hconfig : validateAddresses site.env.config = .ok ())
    (hr : run (step site hash) (init start) es = some s)
    (hok : Along (step site hash) Announces (init start) es) :
    (∀ x ∈ s.sent, s.Homeward site es x) ∧
    (∀ d ∈ s.world.dispatched, ∀ url ∈ d.payment.webhookUrl,
      s.Home site es url (buildPayload d.payment d.event d.delta).toJson) ∧
    ∀ d ∈ s.world.db.webhookDeliveries.rows, s.Home site es d.url d.payload := by
  have haddressed := validateAddresses_eq_ok.mp hconfig
  have hasks : Along (step site hash) (fun _ => Asks fun req => .world (.create req) ∈ es)
      (init start) es := by
    refine along_of_forall fun e he _ => ?_
    cases e with
    | world e =>
      cases e with
      | create req => exact he
      | _ => exact trivial
    | _ => exact trivial
  have hdirected : s.Directed site hash fun req => .world (.create req) ∈ es :=
    (hasks.and hok).invariant (fun _ _ _ hok hstep h => h.step haddressed hok.1 hok.2 hstep) hr
      ⟨.init start, .init start, (fun _ h => nomatch h), fun _ h => nomatch h⟩
  have hhome : ∀ {url body : String} {p : Payment}, s.world.db.Target url body p →
    s.Home site es url body :=
    fun {url body p} htarget => ⟨p, htarget, hdirected.world.registered p htarget.1 url htarget.2.1⟩
  refine ⟨fun x hx => ?_, fun d hd url hurl => ?_, fun d hd => ?_⟩
  · obtain ⟨p, htarget⟩ := hdirected.sent x hx
    constructor
    · exact hhome htarget
    · exact fun _ _ _ _ _ _ hparse hvalid =>
        Ssrf.posted_eq_self_iff (Ssrf.host_of_validate hvalid hparse)
  · obtain ⟨p, -, htarget⟩ := (hdirected.world.dispatched d hd).target hurl d.event d.delta
    exact hhome htarget
  · obtain ⟨p, -, htarget⟩ := hdirected.world.deliveries d hd
    exact hhome htarget

namespace Sample

def completed : List ServiceEvent :=
  let paid := StellarGate.Sample.record "11" "10.0000000" "TXA" "1"
  StellarGate.Sample.createWithUrl.map .world ++
    [.world (.reconcile { paid with toAddress := some address })] ++
    (StellarGate.Sample.turns 20 [1, 1, 1, 1, 1, 1]).map .world

def announced : List Dispatch :=
  ((run (step Sample.site id) (init 0) completed).map fun s => s.world.dispatched).getD []

/-- The dispatch sends its POST and the process dies; the redrive worker sends another. -/
def redriven : List ServiceEvent :=
  completed ++ (announced.map fun d => .job (.spawn (.dispatch d))) ++
    (["30", "31", "32"].map fun uuid => .job (.exec 0 (Jobs.Sample.reply 10 true uuid))) ++
    [.restart id 6, .job (.spawn .redriveOnce)] ++
    ["40", "41", "42", "43"].map fun uuid => .job (.exec 1 (Jobs.Sample.reply 1000 true uuid))

end Sample

theorem webhooks_home_redriven :
    ∃ s, run (step Sample.site id) (init 0) Sample.redriven = some s ∧
      s.sent.map (fun x => x.post.url) =
        ["https://shop.example/hook", "https://shop.example/hook"] ∧
      (∀ x ∈ s.sent, s.Homeward Sample.site Sample.redriven x) ∧
      (∀ d ∈ s.world.dispatched, ∀ url ∈ d.payment.webhookUrl,
        s.Home Sample.site Sample.redriven url (buildPayload d.payment d.event d.delta).toJson) ∧
      ∀ d ∈ s.world.db.webhookDeliveries.rows,
        s.Home Sample.site Sample.redriven d.url d.payload := by
  obtain ⟨s, hs, hsent, -⟩ := exists_of_run (step Sample.site id) (init 0) Sample.redriven
    (P := fun s => s.sent.map (fun x => x.post.url) =
      ["https://shop.example/hook", "https://shop.example/hook"] ∧ s.jobs.length = 2)
    (by decide +kernel)
  have hconfig : validateAddresses Sample.site.env.config = .ok () := by decide +kernel
  have hok : Along (step Sample.site id) Announces (init 0) Sample.redriven := by decide +kernel
  exact ⟨s, hs, hsent, webhooks_home hconfig hs hok⟩

end Service
end StellarGate
