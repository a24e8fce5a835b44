import StellarGate.Api.Idempotency
import StellarGate.Restart

/-! Whose payment an answer may show. The schema has no foreign keys: that a payment, a mapping of
an idempotency key and an answer stay with one merchant is up to the code. -/
namespace StellarGate
open Base

/-- The payment is what the request asked for. -/
structure Payment.AskedBy (env : Env) (req : CreateRequest) (p : Payment) : Prop where
  merchant : p.merchantId = req.merchantId
  destination : p.destinationAddress = env.config.gatewayPublic
  amount : ∃ n, parseStroops req.amount = some n ∧ p.amount = stroopsToString n
  asset : ∃ one ∈ env.config.acceptedAssets, one.code = Create.assetCode env req ∧
    p.asset = one.code ∧
    p.assetIssuer = one.issuer
  webhookUrl : p.webhookUrl = req.webhookUrl

/-- The payment a request is about: one that it has found under its key, or
the one that it makes. -/
def CreatePc.about : CreatePc → Option String
  | getExisting _ id | saveKey _ id | rereadKey _ id | waitWinner id _ | memo id _ | insert
    id _ | reread id =>
    some id
  | done (.shown _ p) => some p.id
  | lookup _ | deleteStale _ | mint _ | done (.failed _) => none

def Call.about : Call → Option String
  | .create _ pc => pc.about
  | .reconcile _ _ | .sweep _ | .lost => none

/-- What a request that has inserted its payment, or has been answered, may rely on. -/
def CreatePc.Rests (env : Env) (db : Db) (req : CreateRequest) : CreatePc → Prop
  | reread id => ∃ q ∈ db.payments.rows, q.id = id ∧ q.AskedBy env req
  | done (.shown status p) =>
    Known db p ∧ p.merchantId = req.merchantId ∧ (status = 201 → p.AskedBy env req)
  | _ => True

def Call.Rests (env : Env) (db : Db) : Call → Prop
  | .create req pc => pc.Rests env db req
  | .reconcile _ _ | .sweep _ | .lost => True

/-- The merchant `m` has a claim to the id: a payment, a key that is mapped to it,
or a request about it. -/
inductive World.Claims (w : World) (m : String) : String → Prop
  | row {p : Payment} (h : p ∈ w.db.payments.rows) (merchant : p.merchantId = m) :
    World.Claims w m p.id
  | key {k : IdempotencyKey} (h : k ∈ w.db.idempotencyKeys.rows) (merchant : k.merchantId = m) :
    World.Claims w m k.paymentId
  | request {req : CreateRequest} {pc : CreatePc} {id : String} (h : .create req pc ∈ w.calls)
    (merchant : req.merchantId = m) (about : pc.about = some id) : World.Claims w m id

structure World.Separate (env : Env) (w : World) : Prop where
  minted : ∀ {m id : String}, w.Claims m id → id ∈ w.minted
  single : ∀ {m n id : String}, w.Claims m id → w.Claims n id → m = n
  rests : ∀ c ∈ w.calls, c.Rests env w.db

theorem Payment.merchantId_eq_of_terms {p q : Payment} (h : p.terms = q.terms) :
    p.merchantId = q.merchantId := by
  simpa [terms] using congrArg Payment.merchantId h

theorem Payment.AskedBy.of_terms {env : Env} {req : CreateRequest} {p q : Payment}
    (ht : q.terms = p.terms) (h : p.AskedBy env req) : q.AskedBy env req := by
  constructor
  · rw [Payment.merchantId_eq_of_terms ht, h.merchant]
  · rw [Payment.destinationAddress_eq_of_terms ht, h.destination]
  · rw [Payment.amount_eq_of_terms ht]
    exact h.amount
  · rw [Payment.asset_eq_of_terms ht, Payment.assetIssuer_eq_of_terms ht]
    exact h.asset
  · rw [Payment.webhookUrl_eq_of_terms ht, h.webhookUrl]

section Statements
variable {env : Env} {now : ℤ} {r : Reply} {db db' : Db} {req : CreateRequest}
  {pc : CreatePc} {c : Call} {k m id : String}

theorem Call.Rests.mono {d : Call}
    (hterms : ∀ p ∈ db.payments.rows, ∃ q ∈ db'.payments.rows, q.terms = p.terms)
    (hd : d.Rests env db) :
    d.Rests env db' := by
  cases d with
  | create req pc =>
    cases pc with
    | reread id =>
      obtain ⟨q, hq, rfl, hasked⟩ := hd
      obtain ⟨q', hq', ht⟩ := hterms q hq
      exact ⟨q', hq', Payment.id_eq_of_terms ht, hasked.of_terms ht⟩
    | done response =>
      cases response with
      | shown status p =>
        obtain ⟨⟨q, hq, ht⟩, hshown⟩ := hd
        obtain ⟨q', hq', ht'⟩ := hterms q hq
        exact ⟨⟨q', hq', ht'.trans ht⟩, hshown⟩
      | failed error => trivial
    | _ => trivial
  | reconcile hp pc | sweep pc | lost => trivial

theorem Call.rests_of_about (h : c.about = none) : c.Rests env db := by
  cases c with
  | create req pc =>
    cases pc with
    | reread id => cases h
    | done response =>
      cases response with
      | shown status p => cases h
      | failed error => trivial
    | _ => trivial
  | reconcile hp pc | sweep pc | lost => trivial

theorem Call.fail_about (r : Reply) (c : Call) : (c.fail r).1 = c ∨ (c.fail r).1.about = none := by
  cases c with
  | create req pc =>
    cases pc with
    | done response => exact .inl rfl
    | _ => exact .inr rfl
  | reconcile hp pc | sweep pc | lost => exact .inr rfl

theorem Call.cut_about (c : Call) : c.cut = c ∨ c.cut.about = none := by
  unfold Call.cut
  split_ifs
  · exact .inl rfl
  · exact .inr rfl

theorem Db.mem_insertIdempotencyKey {x : IdempotencyKey}
    (h : x ∈ (db.insertIdempotencyKey now m k id).idempotencyKeys.rows) :
    x ∈ db.idempotencyKeys.rows ∨ x = ⟨m, k, id, strftime now⟩ := by
  unfold Db.insertIdempotencyKey at h
  cases hnew : (db.idempotencyKeys.insertOrIgnore ⟨m, k, id, strftime now⟩).1 with
  | true =>
    rw [(Table.insertOrIgnore_true hnew).1] at h
    rcases List.mem_append.mp h with h | h
    · exact .inl h
    · exact .inr (List.mem_singleton.mp h)
  | false =>
    rw [(Table.insertOrIgnore_false hnew).1] at h
    exact .inl h

theorem Db.find_eq_some (h : db.findPaymentIdByIdempotencyKey m k = some id) :
    ∃ x ∈ db.idempotencyKeys.rows, x.merchantId = m ∧ x.paymentId = id := by
  obtain ⟨x, hx, rfl⟩ := Option.map_eq_some_iff.mp h
  have hkey : x.key = (m, k) := by simpa using List.find?_some hx
  exact ⟨x, List.mem_of_find?_eq_some hx, congrArg Prod.fst hkey, rfl⟩

theorem Create.start_about : (Create.start env req).about = none := by
  unfold Create.start
  split
  · rfl
  · split <;> rfl

/-- A request comes to be about an id that its merchant had a claim to before, or mints it. -/
theorem Create.step_about (h : (Create.step env now r req pc db).1.about = some id) :
    pc.about = some id ∨ id = r.uuid ∨
      ∃ x ∈ db.idempotencyKeys.rows, x.merchantId = req.merchantId ∧ x.paymentId = id := by
  have hfound : ∀ {existing : String} {p : Payment}, db.getPayment existing = some p →
      some p.id = some id →
      some existing = some id := by
    intro existing p hp hid
    rw [← Db.getPayment_id hp]
    exact hid
  cases pc with
  | lookup key =>
    simp only [Create.step] at h
    split at h
    · cases h
    · next existing hexisting =>
      cases h
      exact .inr (.inr (Db.find_eq_some hexisting))
  | getExisting key existing =>
    simp only [Create.step] at h
    split at h
    · next p hp => exact .inl (hfound hp h)
    · cases h
  | deleteStale key => cases h
  | mint key =>
    cases key with
    | none =>
      cases h
      exact .inr (.inl rfl)
    | some key =>
      cases h
      exact .inr (.inl rfl)
  | saveKey key own => exact .inl h
  | rereadKey key own =>
    simp only [Create.step] at h
    cases hfind : db.findPaymentIdByIdempotencyKey req.merchantId key with
    | none =>
      rw [hfind, Option.getD_none, if_neg (not_not.mpr rfl)] at h
      exact .inl h
    | some winner =>
      rw [hfind, Option.getD_some] at h
      split_ifs at h
      · cases h
        exact .inr (.inr (Db.find_eq_some hfind))
      · exact .inl h
  | waitWinner winner tries =>
    simp only [Create.step] at h
    split at h
    · next p hp => exact .inl (hfound hp h)
    · split_ifs at h
      · cases h
      · exact .inl h
  | memo own tries =>
    simp only [Create.step] at h
    split_ifs at h
    · exact .inl h
    · cases h
    · exact .inl h
  | insert own memo =>
    simp only [Create.step] at h
    split at h
    · cases h
    · exact .inl h
  | reread own =>
    simp only [Create.step] at h
    split at h
    · next p hp => exact .inl (hfound hp h)
    · cases h
  | done response => exact .inl h

theorem Call.step_keys {x : IdempotencyKey}
    (h : x ∈ (c.step env now r db).db.idempotencyKeys.rows) :
    x ∈ db.idempotencyKeys.rows ∨
      ∃ req key, c = .create req (.saveKey key x.paymentId) ∧ x.merchantId = req.merchantId := by
  cases c with
  | reconcile hp pc => exact .inl ((Reconcile.step_idempotencyKeys hp pc) ▸ h)
  | sweep pc => exact .inl ((Sweep.step_idempotencyKeys pc) ▸ h)
  | create req pc =>
    simp only [Call.step] at h
    cases pc with
    | saveKey key own =>
      rcases Db.mem_insertIdempotencyKey h with h | rfl
      · exact .inl h
      · exact .inr ⟨req, key, rfl, rfl⟩
    | deleteStale key => exact .inl (List.mem_of_mem_filter h)
    | lookup key | getExisting key existing | waitWinner winner tries =>
      simp only [Create.step] at h
      split at h <;> exact .inl h
    | mint key =>
      cases key <;> exact .inl h
    | insert own memo =>
      simp only [Create.step] at h
      split at h
      · exact .inl h
      · next db' hdb =>
        obtain ⟨n, expiresAt, t, -, rfl, -, -⟩ := Db.insertPayment_eq_some hdb
        exact .inl h
    | reread own =>
      simp only [Create.step] at h
      split at h <;> exact .inl h
    | rereadKey key own | memo own tries | done response => exact .inl h
  | lost => exact .inl h

theorem Create.step_rests (hc : (Call.create req pc).Accepted env) (hrests : pc.Rests env db req)
    (hmerchant : ∀ id ∈ pc.about, ∀ q ∈ db.payments.rows, q.id = id →
      q.merchantId = req.merchantId) :
    (Create.step env now r req pc db).1.Rests env (Create.step env now r req pc db).2 req := by
  have hfound : ∀ {existing : String} {p : Payment}, pc.about = some existing →
      db.getPayment existing = some p →
      Known db p ∧ p.merchantId = req.merchantId := by
    intro existing p habout hp
    obtain ⟨q, hq, rfl, hid⟩ := Db.getPayment_eq_some hp
    exact ⟨⟨q, hq, rfl⟩, hmerchant existing habout q hq hid⟩
  cases pc with
  | lookup key =>
    simp only [Create.step]
    split <;> trivial
  | getExisting key existing =>
    simp only [Create.step]
    split
    · next p hp => exact ⟨(hfound rfl hp).1, (hfound rfl hp).2, fun h => absurd h (by decide)⟩
    · trivial
  | deleteStale key | saveKey key own => trivial
  | mint key => cases key <;> trivial
  | rereadKey key own =>
    simp only [Create.step]
    split_ifs <;> trivial
  | waitWinner winner tries =>
    simp only [Create.step]
    split
    · next p hp => exact ⟨(hfound rfl hp).1, (hfound rfl hp).2, fun h => absurd h (by decide)⟩
    · split_ifs <;> trivial
  | memo own tries =>
    simp only [Create.step]
    split_ifs <;> trivial
  | insert own memo =>
    simp only [Create.step]
    split
    · trivial
    · next db' hdb =>
      obtain ⟨n, expiresAt, t, hn, rfl, hrows, -, -⟩ := Db.insertPayment_eq_some hdb
      rcases hc with hreturned | ⟨one, hone⟩
      · cases hreturned
      · refine ⟨_, hrows ▸ List.mem_append_right _ (List.mem_singleton_self _), rfl, ?_⟩
        obtain ⟨hin, hcode⟩ := Create.acceptedAsset_eq_ok hone
        constructor
        · rfl
        · rfl
        · exact ⟨n, hn, rfl⟩
        · refine ⟨one, hin, hcode, hcode.symm, ?_⟩
          show (Create.acceptedAsset env req).toOption.bind (·.issuer) = one.issuer
          rw [hone]
          rfl
        · rfl
  | reread own =>
    simp only [Create.step]
    split
    · next p hp =>
      obtain ⟨q, hq, hid, hasked⟩ := hrests
      obtain ⟨q', hq', rfl, hid'⟩ := Db.getPayment_eq_some hp
      cases Db.eq_of_id hq hq' (hid.trans hid'.symm)
      exact ⟨⟨q, hq, rfl⟩, hasked.merchant, fun _ => hasked.of_terms (rowToPayment_terms q)⟩
    · trivial
  | done response => exact hrests

end Statements

namespace World
variable {env : Env} {w t : World} {e : Event} {i : ℕ} {r : Reply} {c : Call} {m n id : String}

theorem Separate.init (env : Env) (now : ℤ) : (init now).Separate env := by
  have hnone : ∀ {m id : String}, ¬ (World.init now).Claims m id := by
    intro m id h
    cases h with
    | row h => cases h
    | key h => cases h
    | request h => cases h
  exact ⟨fun h => absurd h hnone, fun h => absurd h hnone, fun _ h => nomatch h⟩

/-- The only new claim is that of a request to the id that it mints. -/
theorem Claims.exec (hc : w.calls[i]? = some c) (h : (w.exec env i r c).Claims m id) :
    w.Claims m id ∨ id = r.uuid ∧ ∃ req pc, c = .create req pc ∧ req.merchantId = m := by
  have hmem := List.mem_of_getElem? hc
  have hw : Writes env w.now r w.db c (c.step env w.now r w.db).db := c.step_writes
  cases h with
  | @row p hp merchant =>
    rcases hw.row_inv hp with ⟨q, hq, hs⟩ | hnew
    · rw [hs.id]
      exact .inl (.row hq ((Payment.merchantId_eq_of_terms hs.terms).symm.trans merchant))
    · obtain ⟨req, memo, expires, amount, rfl, hrow⟩ := hw.new hp hnew
      refine .inl (.request hmem ?_ rfl)
      rw [← merchant, hrow]
      rfl
  | @key x hx merchant =>
    rcases Call.step_keys hx with hx | ⟨req, key, rfl, hreq⟩
    · exact .inl (.key hx merchant)
    · exact .inl (.request hmem (hreq.symm.trans merchant) rfl)
  | @request req pc _ hin merchant about =>
    rcases List.mem_or_eq_of_mem_set hin with hin | heq
    · exact .inl (.request hin merchant about)
    · cases c with
      | create req' pc' =>
        obtain ⟨rfl, rfl⟩ := Call.create.inj heq
        rcases Create.step_about about with hold | rfl | ⟨x, hx, hown, rfl⟩
        · exact .inl (.request hmem merchant hold)
        · exact .inr ⟨rfl, req, pc', rfl, merchant⟩
        · exact .inl (.key hx (hown.trans merchant))
      | reconcile hp pc' | sweep pc' | lost => cases heq

theorem Separate.exec (hs : w.Separate env) (haccepted : ∀ c ∈ w.calls, c.Accepted env)
    (hc : w.calls[i]? = some c) (hu : r.uuid ∉ w.minted) : (w.exec env i r c).Separate env := by
  have hmem := List.mem_of_getElem? hc
  have hw : Writes env w.now r w.db c (c.step env w.now r w.db).db := c.step_writes
  constructor
  · intro m id h
    rcases h.exec hc with hold | ⟨rfl, -⟩
    · exact List.mem_cons_of_mem _ (hs.minted hold)
    · exact List.mem_cons_self
  · intro m n id hm hn
    rcases hm.exec hc with hm | ⟨rfl, req, pc, rfl, rfl⟩
    · rcases hn.exec hc with hn | ⟨rfl, -⟩
      · exact hs.single hm hn
      · exact absurd (hs.minted hm) hu
    · rcases hn.exec hc with hn | ⟨-, req', pc', heq, rfl⟩
      · exact absurd (hs.minted hn) hu
      · rw [(Call.create.inj heq).1]
  · have hterms : ∀ p ∈ w.db.payments.rows, ∃ q ∈ (w.exec env i r c).db.payments.rows,
        q.terms = p.terms := by
      intro p hp
      obtain ⟨q, hq, hstep⟩ := hw.row hp
      exact ⟨q, hq, hstep.terms⟩
    refine Machine.forall_mem_set (fun d hd => (hs.rests d hd).mono hterms) ?_
    cases c with
    | create req pc =>
      refine Create.step_rests (haccepted _ hmem) (hs.rests _ hmem) fun id hid q hq hqid => ?_
      rw [← hqid] at hid
      exact hs.single (.row hq rfl) (.request hmem rfl hid)
    | reconcile hp pc | sweep pc | lost => trivial

theorem Separate.mono (hs : w.Separate env) (hpayments : t.db.payments = w.db.payments)
    (hkeys : ∀ x ∈ t.db.idempotencyKeys.rows, x ∈ w.db.idempotencyKeys.rows)
    (hcalls : ∀ c ∈ t.calls, c ∈ w.calls ∨ c.about = none)
    (hminted : ∀ id ∈ w.minted, id ∈ t.minted) :
    t.Separate env := by
  have hold : ∀ {m id : String}, t.Claims m id → w.Claims m id := by
    intro m id h
    cases h with
    | row h merchant => exact .row (hpayments ▸ h) merchant
    | key h merchant => exact .key (hkeys _ h) merchant
    | request h merchant about =>
      rcases hcalls _ h with h | hnone
      · exact .request h merchant about
      · cases hnone.symm.trans about
  constructor
  · exact fun h => hminted _ (hs.minted (hold h))
  · exact fun hm hn => hs.single (hold hm) (hold hn)
  · intro c hc
    rcases hcalls c hc with hc | hnone
    · exact (hs.rests c hc).mono fun p hp => ⟨p, hpayments ▸ hp, rfl⟩
    · exact Call.rests_of_about hnone

theorem Separate.step (hs : w.Separate env) (haccepted : ∀ c ∈ w.calls, c.Accepted env)
    (h : step env w e = some t) : t.Separate env := by
  have hstart : ∀ d : Call, d.about = none → ∀ c ∈ w.calls ++ [d], c ∈ w.calls ∨
      c.about = none := by
    intro d hd c hc
    rcases List.mem_append.mp hc with hc | hc
    · exact .inl hc
    · rw [List.mem_singleton.mp hc]
      exact .inr hd
  have hchange : ∀ c ∈ w.calls, ∀ d : Call, d = c ∨ d.about = none → d ∈ w.calls ∨
      d.about = none := by
    rintro c hc d (rfl | hd)
    · exact .inl hc
    · exact .inr hd
  cases e with
  | advance secs =>
    cases h
    exact hs.mono rfl (fun _ hx => hx) (fun _ hc => .inl hc) fun _ hm => hm
  | reconcile hp | sweep =>
    cases h
    exact hs.mono rfl (fun _ hx => hx) (hstart _ rfl) fun _ hm => hm
  | create req =>
    cases h
    exact hs.mono rfl (fun _ hx => hx) (hstart _ Create.start_about) fun _ hm => hm
  | exec i r =>
    obtain ⟨c, hc, hu, rfl⟩ := step_exec h
    exact hs.exec haccepted hc hu
  | fail i r =>
    obtain ⟨c, hc, -, rfl⟩ := step_fail h
    refine hs.mono rfl (fun _ hx => hx) ?_ fun _ hm => List.mem_cons_of_mem _ hm
    exact Machine.forall_mem_set (fun _ hd => .inl hd)
      (hchange c (List.mem_of_getElem? hc) _ (c.fail_about r))
  | kill i =>
    obtain ⟨c, hc, rfl⟩ := step_kill h
    refine hs.mono rfl (fun _ hx => hx) ?_ fun _ hm => hm
    exact Machine.forall_mem_set (fun _ hd => .inl hd)
      (hchange c (List.mem_of_getElem? hc) _ c.cut_about)
  | crash =>
    cases h
    refine hs.mono rfl (fun _ hx => hx) (fun d hd => ?_) fun _ hm => hm
    obtain ⟨c, hc, rfl⟩ := List.mem_map.mp hd
    exact hchange c hc _ c.cut_about

end World

namespace Service
variable {site : Jobs.Site} {hash : String → String} {s t : Service} {e : ServiceEvent}

theorem job_keys {r : JobReply} {j : Job} {l : Ledger} (hj : Jobs.Job.own j = true)
    {x : IdempotencyKey} (h : x ∈ (Jobs.step site r j l).2.db.idempotencyKeys.rows) :
    x ∈ l.db.idempotencyKeys.rows := by
  cases j with
  | dispatch d timestamp saved pc =>
    simp only [Jobs.step] at h
    cases pc with
    | start =>
      simp only [Jobs.dispatch] at h
      split at h
      · exact h
      · next db hsave =>
        obtain ⟨url, -, hsave⟩ := Option.bind_eq_some_iff.mp hsave
        obtain ⟨table, -, rfl⟩ := Option.map_eq_some_iff.mp hsave
        exact h
    | connect id | post id k | finish id status n | done => exact h
  | redrive tasks =>
    simp only [Jobs.step, Jobs.redrive] at h
    split at h
    · exact h
    · next task htask =>
      split_ifs at h
      · exact h
      · cases task <;> exact h
  | redeliver pc =>
    simp only [Jobs.step] at h
    cases pc with
    | getPayment merchantId paymentId deliveryId =>
      simp only [Jobs.redeliver] at h
      split at h <;> exact h
    | getDelivery paymentId deliveryId =>
      simp only [Jobs.redeliver] at h
      split at h <;> exact h
    | connect d | post d | finish d status | done => exact h
  | pruneKeys total => exact List.mem_of_mem_filter h
  | elsewhere other => cases hj
  | redriveList | requeue merchantId ids | prune total | compact total | done => exact h

theorem step_job_keys {a : Act Jobs.Request JobReply} (hjobs : ∀ j ∈ s.jobs, Jobs.Job.own j = true)
    (hstep : step site hash s (.job a) = some t) {x : IdempotencyKey}
    (h : x ∈ t.world.db.idempotencyKeys.rows) :
    x ∈ s.world.db.idempotencyKeys.rows := by
  simp only [step] at hstep
  split_ifs at hstep
  obtain ⟨w, hw, rfl⟩ := Option.map_eq_some_iff.mp hstep
  have hx : x ∈ w.store.db.idempotencyKeys.rows := h
  rcases Machine.step_store hw with hsame | ⟨i, r, j, -, hj, hexec⟩
  · rw [hsame] at hx
    exact hx
  · rw [hexec] at hx
    simp only [Jobs.machine] at hx
    split_ifs at hx
    · exact job_keys (hjobs j (List.mem_of_getElem? hj)) hx
    · exact hx

structure Kept (site : Jobs.Site) (hash : String → String) (s : Service) : Prop where
  current : s.Current site.env hash
  separate : s.world.Separate site.env

theorem Kept.step (hconfig : Addressed site.env.config) (hstep : step site hash s e = some t)
    (h : s.Kept site hash) : t.Kept site hash := by
  refine ⟨h.current.step hconfig hstep, ?_⟩
  cases e with
  | world e =>
    obtain ⟨world, hw, rfl⟩ := Option.map_eq_some_iff.mp hstep
    exact h.separate.step h.current.world.accepted hw
  | job a =>
    obtain ⟨-, haside, hworld, -⟩ := step_job h.current.jobs hstep
    have hcalls : t.world.calls = s.world.calls := by rw [hworld]
    have hminted : t.world.minted = s.world.minted := by rw [hworld]
    exact h.separate.mono haside.payments (fun _ hx => step_job_keys h.current.jobs hstep hx)
      (fun _ hc => .inl (hcalls ▸ hc)) fun _ hm => hminted ▸ hm
  | key a =>
    obtain ⟨keys, -, rfl⟩ := Option.map_eq_some_iff.mp hstep
    exact h.separate
  | setState key value =>
    cases hstep
    exact h.separate
  | restart draw n =>
    cases hstep
    have hfile : (s.crash site hash).file = s.file := rfl
    rw [h.current.begun_eq_self hconfig, ← hfile, load_file]
    exact h.separate.step (e := .crash) h.current.world.accepted rfl

/-- Whatever the merchants ask for and whichever keys they send, through failing statements,
pruned keys, crashes and restarts: an answer shows a payment on file of the merchant who asked,
and where it says that the payment was created, one as the request wants it. No key is mapped to
a payment of another merchant. -/
theorem answers_own {start : ℤ} {es : List ServiceEvent}
    (hconfig : validateAddresses site.env.config = .ok ())
    (hr : run (step site hash) (init start) es = some s) :
    (∀ req status p, .create req (.done (.shown status p)) ∈ s.world.calls →
      Known s.world.db p ∧ p.merchantId = req.merchantId ∧
      (status = 201 → p.AskedBy site.env req)) ∧
    ∀ k ∈ s.world.db.idempotencyKeys.rows, ∀ p ∈ s.world.db.payments.rows, p.id = k.paymentId →
      p.merchantId = k.merchantId := by
  have haddressed := validateAddresses_eq_ok.mp hconfig
  have hkept : s.Kept site hash :=
    run_invariant (fun _ _ _ hstep h => h.step haddressed hstep) hr
      ⟨.init start, .init site.env start⟩
  constructor
  · exact fun req status p hc => hkept.separate.rests _ hc
  · intro k hk p hp hid
    have hrow : s.world.Claims p.merchantId p.id := .row hp rfl
    exact hkept.separate.single (hid ▸ hrow) (.key hk rfl)

def Sample.twoMerchants : List ServiceEvent :=
  let keyed := { StellarGate.Sample.request with idempotencyKey := some "k1" }
  ([Event.create keyed, Event.create { keyed with merchantId := "n", amount := "20" }] ++
    StellarGate.Sample.turns 10 [0, 1, 0, 1, 0, 1, 0, 1, 0, 1, 0, 1, 0, 1]).map .world

theorem answers_own_twoMerchants :
    ∃ s, run (step Sample.site id) (init 0) Sample.twoMerchants = some s ∧
      s.world.db.idempotencyKeys.rows.map IdempotencyKey.idempotencyKey = ["k1", "k1"] ∧
      (∀ req status p, .create req (.done (.shown status p)) ∈ s.world.calls →
        Known s.world.db p ∧ p.merchantId = req.merchantId ∧
        (status = 201 → p.AskedBy Sample.site.env req)) ∧
      ∀ k ∈ s.world.db.idempotencyKeys.rows, ∀ p ∈ s.world.db.payments.rows, p.id = k.paymentId →
        p.merchantId = k.merchantId := by
  obtain ⟨s, hs, hkeys, -⟩ := exists_of_run (step Sample.site id) (init 0) Sample.twoMerchants
    (P := fun s => s.world.db.idempotencyKeys.rows.map IdempotencyKey.idempotencyKey =
      ["k1", "k1"] ∧
      s.world.db.payments.rows.map Payment.merchantId = ["m", "n"]) (by decide +kernel)
  have hconfig : validateAddresses Sample.site.env.config = .ok () := by decide +kernel
  exact ⟨s, hs, hkeys, answers_own hconfig hs⟩

end Service
end StellarGate
