import StellarGate.Webhook.Jobs

/-! The senders of a delivery: `dispatch`, `redrive_one` and `redeliver_webhook`, each from the row
it stored or read to its last statement, and what one step of the program does to them. -/
namespace StellarGate
open Base

namespace Jobs

/-- A sender at work. `base` is the `attempts` of the row it started from, `sent` how often it has
sent since, and `due` the outcome it is about to write. -/
structure Sender where
  id : String
  base : ℤ
  sent : ℕ
  running : Bool
  stored : Bool
  due : Option (DeliveryStatus × ℤ)
  deriving DecidableEq, Repr

def Sender.of (d : WebhookDelivery) (running : Bool) : Sender :=
  ⟨d.id, d.attempts, 0, running, true, none⟩

def dispatchSenders (saved : Bool) : DispatchPc → List Sender
  | .start | .done => []
  | .connect id => [⟨id, 0, 0, true, saved, none⟩]
  | .post id k => [⟨id, 0, k - 1, true, saved, none⟩]
  | .finish id status n => [⟨id, 0, n, true, saved, some (status, n)⟩]

/-- A `redrive_one` that waits for its permit is not running yet. -/
def taskSenders : Task → List Sender
  | .waiting d => [.of d false]
  | .connect d | .post d => [.of d true]
  | .finish d status n => [⟨d.id, d.attempts, (n - d.attempts).toNat, true, true, some (status, n)⟩]
  | .done => []

def redeliverSenders : RedeliverPc → List Sender
  | .connect d | .post d => [.of d true]
  | .finish d status => [⟨d.id, d.attempts, 1, true, true, some (status, d.attempts + 1)⟩]
  | .getPayment _ _ _ | .getDelivery _ _ | .done => []

def jobSenders : Job → List Sender
  | .dispatch _ _ saved pc => dispatchSenders saved pc
  | .redrive tasks => tasks.flatMap taskSenders
  | .redeliver pc => redeliverSenders pc
  | .redriveList | .requeue _ _ | .prune _ | .compact _ | .pruneKeys _ | .elsewhere _ | .done => []

def senders (w : Pool Job Ledger) : List Sender := w.procs.flatMap jobSenders

/-- What a step means to the deliveries. -/
inductive Deed where
  | idle
  /-- `save_webhook_delivery` stored a row, or failed. -/
  | store (id : String)
  | unsaved (id : String)
  /-- Rows are read in order to send them again, by a redelivery or by the redrive worker. -/
  | pick (manual : Bool) (ids : List String)
  /-- A `redrive_one` gets its permit. -/
  | start (id : String)
  /-- `safe_client` refuses the target: of a redelivery, which ends, or of another sender. -/
  | quit (id : String)
  | block (id : String)
  /-- A POST: one that is going to be tried again, or the last of its sender. -/
  | retry (id : String)
  | answer (id : String) (ok : Bool)
  | write (id : String)
  | requeue (ids : List String)
  | retain
  /-- A statement of a sender fails, or the process dies. -/
  | lost
  deriving DecidableEq, Repr

section
variable (site : Site) (r : JobReply) (s : Ledger)

def dispatchDeed (d : Dispatch) : DispatchPc → Deed
  | .start =>
    match d.payment.webhookUrl with
    | none => .idle
    | some url =>
      match s.db.saveWebhookDelivery r.now r.uuid d.payment.id url
          (buildPayload d.payment d.event d.delta).toJson d.event.name with
      | none => .unsaved r.uuid
      | some _ => .store r.uuid
  | .connect id => if r.ok then .idle else .block id
  | .post id k =>
    if r.ok then .answer id true
    else if k < Dispatch.attempts site.env then .retry id else .answer id false
  | .finish id _ _ => .write id
  | .done => .idle

def taskDeed : Task → Deed
  | .waiting d => .start d.id
  | .connect d => if r.ok then .idle else .block d.id
  | .post d => .answer d.id r.ok
  | .finish d _ _ => .write d.id
  | .done => .idle

def redriveDeed (tasks : List Task) : Deed :=
  match tasks[r.task]? with
  | none => .idle
  | some t =>
    if Task.isWaiting t && max site.config.redriveConcurrency 1 ≤ inFlight tasks then .idle
    else taskDeed r t

def redeliverDeed : RedeliverPc → Deed
  | .getPayment _ _ _ => .idle
  | .getDelivery paymentId deliveryId =>
    match s.db.getWebhookDelivery deliveryId with
    | none => .idle
    | some d => if d.paymentId = paymentId then .pick true [d.id] else .idle
  | .connect d => if r.ok then .idle else .quit d.id
  | .post d => .answer d.id r.ok
  | .finish d _ => .write d.id
  | .done => .idle

def jobDeed : Job → Deed
  | .dispatch d _ _ pc => dispatchDeed site r s d pc
  | .redriveList =>
    .pick false ((s.db.listRedrivableDeliveries site.config r.now r.random r.tie).map
      WebhookDelivery.id)
  | .redrive tasks => redriveDeed site r tasks
  | .redeliver pc => redeliverDeed r s pc
  | .requeue merchantId ids =>
    .requeue ((s.db.webhookDeliveries.rows.filter (Db.requeueable merchantId ids s.db)).map
      WebhookDelivery.id)
  | .prune _ | .compact _ => .retain
  | .pruneKeys _ | .elsewhere _ | .done => .idle

/-- A dispatch goes on without a row where its first statement fails. -/
def failDeed : Job → Deed
  | .dispatch d _ _ .start => if d.payment.webhookUrl.isSome then .unsaved r.uuid else .idle
  | _ => .lost

end

def deed (site : Site) (w : Pool Job Ledger) : Act Request JobReply → Deed
  | .spawn _ | .fail _ => .idle
  | .exec i r =>
    match w.procs[i]? with
    | none => .idle
    | some j => if r.works then jobDeed site r w.store j else failDeed r j
  | .cut _ => .lost

/-- What each deed does to the senders at work and to what is stored. -/
inductive Move (site : Site) : Deed → List Sender → Ledger → List Sender → Ledger → Prop
  | idle (l : List Sender) {s t : Ledger} (hrows : t.db.webhookDeliveries = s.db.webhookDeliveries)
      (hcreated : t.created = s.created) (hsent : t.sent = s.sent) : Move site .idle l s l t
  | store (l m : List Sender) {s t : Ledger} {d : WebhookDelivery} {c : Created}
      (hrows : t.db.webhookDeliveries.rows = s.db.webhookDeliveries.rows ++ [d])
      (hnew : d.status = .pending ∧ d.attempts = 0) (hcreated : t.created = s.created ++ [c])
      (hid : c.id = d.id) (hsent : t.sent = s.sent) :
      Move site (.store d.id) (l ++ m) s (l ++ ⟨d.id, 0, 0, true, true, none⟩ :: m) t
  | unsaved (l m : List Sender) (s : Ledger) (id : String) :
      Move site (.unsaved id) (l ++ m) s (l ++ ⟨id, 0, 0, true, false, none⟩ :: m) s
  | pick (l m : List Sender) {s : Ledger} {ds : List WebhookDelivery} {manual : Bool}
      (hrows : ∀ d ∈ ds, ∃ row ∈ s.db.webhookDeliveries.rows, rowToWebhookDelivery row = d)
      (hids : (ds.map WebhookDelivery.id).Nodup)
      (hcap : manual = false → ∀ d ∈ ds, d.attempts < site.config.redriveMaxAttempts) :
      Move site (.pick manual (ds.map WebhookDelivery.id)) (l ++ m) s
        (l ++ (ds.map (Sender.of · manual) ++ m)) s
  | start (l m : List Sender) (s : Ledger) (d : WebhookDelivery) :
      Move site (.start d.id) (l ++ .of d false :: m) s (l ++ .of d true :: m) s
  | quit (l m : List Sender) (s : Ledger) (d : WebhookDelivery) :
      Move site (.quit d.id) (l ++ .of d true :: m) s (l ++ m) s
  | block (l m : List Sender) (s : Ledger) {id : String} {base : ℤ} {stored : Bool} :
      Move site (.block id) (l ++ ⟨id, base, 0, true, stored, none⟩ :: m) s
        (l ++ ⟨id, base, 0, true, stored, some (.failed, base)⟩ :: m) s
  | retry (l m : List Sender) {s t : Ledger} {id : String} {base : ℤ} {n : ℕ}
      {stored : Bool} {p : Post} (hdb : t.db = s.db) (hcreated : t.created = s.created)
      (hsent : t.sent = s.sent ++ if stored then [⟨id, p⟩] else []) :
      Move site (.retry id) (l ++ ⟨id, base, n, true, stored, none⟩ :: m) s
        (l ++ ⟨id, base, n + 1, true, stored, none⟩ :: m) t
  | answer (l m : List Sender) {s t : Ledger} {id : String} {base : ℤ} {n : ℕ}
      {stored ok : Bool} {p : Post} {status : DeliveryStatus}
      (hstatus : ok = true ↔ status = .delivered) (hdb : t.db = s.db)
      (hcreated : t.created = s.created)
      (hsent : t.sent = s.sent ++ if stored then [⟨id, p⟩] else []) :
      Move site (.answer id ok) (l ++ ⟨id, base, n, true, stored, none⟩ :: m) s
        (l ++ ⟨id, base, n + 1, true, stored, some (status, base + (n + 1))⟩ :: m) t
  | write (l m : List Sender) {s : Ledger} {id : String} {base now : ℤ} {n : ℕ} {stored : Bool}
      {status : DeliveryStatus} {attempts : ℤ} :
      Move site (.write id) (l ++ ⟨id, base, n, true, stored, some (status, attempts)⟩ :: m) s
        (l ++ m) { s with db := s.db.updateWebhookDelivery now id status attempts }
  | requeue (l : List Sender) {s : Ledger} {now : ℤ} {merchantId : String} {ids : List String} :
      Move site
        (.requeue ((s.db.webhookDeliveries.rows.filter (Db.requeueable merchantId ids s.db)).map
          WebhookDelivery.id)) l s l
            { s with db := (s.db.requeueFailedDeliveries now merchantId ids).2 }
  | retain (l : List Sender) {s : Ledger} {db : Db}
      (hrows : ∀ d ∈ db.webhookDeliveries.rows, ∃ d₀ ∈ s.db.webhookDeliveries.rows,
        d.id = d₀.id ∧ d.status = d₀.status ∧ d.attempts = d₀.attempts) :
      Move site .retain l s l { s with db }
  | lost (l k m : List Sender) (s : Ledger) : Move site .lost (l ++ (k ++ m)) s (l ++ m) s

section
variable {site : Site} {r : JobReply} {s t : Ledger} {e : Deed} {k k' : List Sender}

theorem Move.frame (h : Move site e k s k' t) (l m : List Sender) :
    Move site e (l ++ (k ++ m)) s (l ++ (k' ++ m)) t := by
  cases h with
  | idle _ hrows hcreated hsent => exact .idle _ hrows hcreated hsent
  | store a b hrows hnew hcreated hid hsent =>
    simpa [List.append_assoc] using (.store (l ++ a) (b ++ m) hrows hnew hcreated hid hsent : Move
      site _ _ _ _ _)
  | unsaved a b s id =>
    simpa [List.append_assoc] using (.unsaved (l ++ a) (b ++ m) s id : Move site _ _ _ _ _)
  | pick a b hrows hids hcap =>
    simpa [List.append_assoc] using Move.pick (l ++ a) (b ++ m) hrows hids hcap
  | start a b s d =>
    simpa [List.append_assoc] using (.start (l ++ a) (b ++ m) s d : Move site _ _ _ _ _)
  | quit a b s d =>
    simpa [List.append_assoc] using (.quit (l ++ a) (b ++ m) s d : Move site _ _ _ _ _)
  | block a b s =>
    simpa [List.append_assoc] using (.block (l ++ a) (b ++ m) s : Move site _ _ _ _ _)
  | retry a b hdb hcreated hsent =>
    simpa [List.append_assoc] using (.retry (l ++ a) (b ++ m) hdb hcreated hsent : Move
      site _ _ _ _ _)
  | answer a b hstatus hdb hcreated hsent =>
    simpa [List.append_assoc] using (.answer (l ++ a) (b ++ m) hstatus hdb hcreated hsent : Move
      site _ _ _ _ _)
  | write a b => simpa [List.append_assoc] using (.write (l ++ a) (b ++ m) : Move site _ _ _ _ _)
  | requeue _ => exact .requeue _
  | retain _ hrows => exact .retain _ hrows
  | lost a c b s =>
    simpa [List.append_assoc] using (.lost (l ++ a) c (b ++ m) s : Move site _ _ _ _ _)

/-- A dispatch has no row before it starts, and counts its POSTs from one up to
the configured number. -/
def Ready (site : Site) : Job → Prop
  | .dispatch _ _ saved .start => saved = false
  | .dispatch _ _ _ (.post _ k) => 1 ≤ k ∧ k ≤ Dispatch.attempts site.env
  | _ => True

theorem dispatch_move {d : Dispatch} {timestamp : ℤ} {saved : Bool} {pc : DispatchPc}
    (hj : Ready site (.dispatch d timestamp saved pc)) :
    let next := dispatch site r d timestamp saved pc s
    Move site (dispatchDeed site r s d pc) (dispatchSenders saved pc) s (jobSenders next.1)
      next.2 := by
  cases pc with
  | start =>
    simp only [dispatch, dispatchDeed]
    cases hurl : d.payment.webhookUrl with
    | none =>
      simp only [Option.bind_none, Dispatch.fail, hurl, Option.isSome_none]
      exact .idle _ rfl rfl rfl
    | some url =>
      simp only [Option.bind_some]
      cases hsave : s.db.saveWebhookDelivery r.now r.uuid d.payment.id url
          (buildPayload d.payment d.event d.delta).toJson d.event.name with
      | none =>
        simp only [Dispatch.fail, hurl, Option.isSome_some]
        exact .unsaved [] [] s r.uuid
      | some db =>
        obtain ⟨table, hinsert, rfl⟩ := Option.map_eq_some_iff.mp hsave
        have hrows := (Table.insert_eq_some hinsert).1
        exact Move.store [] [] (d := ⟨r.uuid, _, _, _, _, _, _, _, _, _⟩) hrows ⟨rfl, rfl⟩
          rfl rfl rfl
  | connect id =>
    simp only [dispatch, dispatchDeed, Dispatch.step]
    split_ifs
    · exact .idle _ rfl rfl rfl
    · exact .block [] [] s
  | post id k =>
    obtain ⟨hk, hk'⟩ := hj
    obtain ⟨n, rfl⟩ : ∃ n, k = n + 1 := ⟨k - 1, by omega⟩
    have hcount : (0 : ℤ) + (n + 1) = ((n + 1 : ℕ) : ℤ) := by push_cast; omega
    simp only [dispatch, dispatchDeed, Dispatch.step]
    by_cases hok : r.ok = true
    · rw [if_pos hok, if_pos hok]
      simp only [jobSenders, dispatchSenders, ← hcount]
      exact .answer [] [] (iff_of_true rfl rfl) rfl rfl rfl
    · rw [if_neg hok, if_neg hok]
      by_cases hlt : n + 1 < Dispatch.attempts site.env
      · rw [if_pos hlt, if_pos hlt]
        exact .retry [] [] rfl rfl rfl
      · rw [if_neg hlt, if_neg hlt, show Dispatch.attempts site.env = n + 1 by omega]
        simp only [jobSenders, dispatchSenders, ← hcount]
        exact .answer [] [] (by simp) rfl rfl rfl
  | finish id status n => exact .write [] []
  | done => exact .idle _ rfl rfl rfl

theorem task_move (x : Task) :
    let next := redriveOne site r x s
    Move site (taskDeed r x) (taskSenders x) s (taskSenders next.1) next.2 := by
  cases x with
  | waiting d => exact .start [] [] s d
  | connect d =>
    simp only [redriveOne, taskDeed]
    split_ifs
    · exact .idle _ rfl rfl rfl
    · simp only [taskSenders, Int.sub_self, Int.toNat_zero]
      exact .block [] [] s
  | post d =>
    have hone : (d.attempts + 1 - d.attempts).toNat = 0 + 1 := by omega
    simp only [redriveOne, taskDeed, taskSenders, hone]
    refine .answer [] [] ?_ rfl rfl rfl
    cases r.ok
    · simp only [Bool.false_eq_true, if_false, false_iff]
      split_ifs <;> simp
    · simp
  | finish d status n => exact .write [] []
  | done => exact .idle _ rfl rfl rfl

theorem flatMap_set {α β : Type} {f : α → List β} {l : List α} {i : ℕ} {a : α}
    (h : l[i]? = some a) :
    ∃ p q, l.flatMap f = p ++ (f a ++ q) ∧ ∀ b, (l.set i b).flatMap f = p ++ (f b ++ q) := by
  induction l generalizing i with
  | nil => cases h
  | cons x l ih =>
    cases i with
    | zero =>
      cases h
      exact ⟨[], l.flatMap f, rfl, fun b => rfl⟩
    | succ i =>
      obtain ⟨p, q, hl, hset⟩ := ih (by simpa using h)
      refine ⟨f x ++ p, q, ?_, fun b => ?_⟩
      · rw [List.flatMap_cons, hl, List.append_assoc]
      · rw [List.set_cons_succ, List.flatMap_cons, hset, List.append_assoc]

theorem redrive_move (tasks : List Task) :
    let next := redrive site r tasks s
    Move site (redriveDeed site r tasks) (tasks.flatMap taskSenders) s (jobSenders next.1)
      next.2 := by
  unfold redrive redriveDeed
  cases hx : tasks[r.task]? with
  | none => exact .idle _ rfl rfl rfl
  | some x =>
    by_cases hfull : (Task.isWaiting x && max site.config.redriveConcurrency 1 ≤ inFlight tasks) =
      true
    · simp only [if_pos hfull]
      exact .idle _ rfl rfl rfl
    · obtain ⟨p, q, htasks, hset⟩ := flatMap_set (f := taskSenders) hx
      simp only [if_neg hfull, jobSenders]
      rw [htasks, hset]
      exact (task_move x).frame p q

theorem redeliver_move (pc : RedeliverPc) :
    let next := redeliver site r pc s
    Move site (redeliverDeed r s pc) (redeliverSenders pc) s (redeliverSenders next.1) next.2 := by
  cases pc with
  | getPayment merchantId paymentId deliveryId =>
    simp only [redeliver, redeliverDeed]
    split <;> exact .idle _ rfl rfl rfl
  | getDelivery paymentId deliveryId =>
    simp only [redeliver, redeliverDeed]
    cases hd : s.db.getWebhookDelivery deliveryId with
    | none => exact .idle _ rfl rfl rfl
    | some d =>
      by_cases hp : d.paymentId = paymentId
      · simp only [if_pos hp]
        obtain ⟨row, hrow, hd⟩ := Option.map_eq_some_iff.mp hd
        refine @Move.pick site [] [] s [d] true ?_ (by simp) (by simp)
        simp only [List.mem_singleton, forall_eq]
        exact ⟨row, List.mem_of_find?_eq_some hrow, hd⟩
      · simp only [if_neg hp]
        exact .idle _ rfl rfl rfl
  | connect d =>
    simp only [redeliver, redeliverDeed]
    split_ifs
    · exact .idle _ rfl rfl rfl
    · exact .quit [] [] s d
  | post d =>
    simp only [redeliver, redeliverDeed, redeliverSenders]
    refine .answer [] [] ?_ rfl rfl rfl
    cases r.ok <;> simp
  | finish d status => exact .write [] []
  | done => exact .idle _ rfl rfl rfl

theorem listRedrivable_ids (c : DeliveryConfig) (now : ℤ) (random tie : String → ℕ) (db : Db) :
    ((db.listRedrivableDeliveries c now random tie).map WebhookDelivery.id).Nodup := by
  unfold Db.listRedrivableDeliveries
  rw [List.map_map]
  have hperm := (List.perm_insertionSort (Db.redriveOrder tie)
    (db.webhookDeliveries.rows.filter (Db.redrivable c now random))).map WebhookDelivery.id
  have hids := db.webhookDeliveries.unique WebhookDelivery.id List.mem_cons_self
  exact hperm.nodup_iff.mpr (hids.sublist (List.filter_sublist.map _))

theorem mem_listRedrivable {c : DeliveryConfig} {now : ℤ} {random tie : String → ℕ} {db : Db}
    {d : WebhookDelivery} : d ∈ db.listRedrivableDeliveries c now random tie ↔
      ∃ row ∈ db.webhookDeliveries.rows, Db.redrivable c now random row = true ∧
        rowToWebhookDelivery row = d := by
  simp [Db.listRedrivableDeliveries, and_assoc]

theorem attempts_of_redrivable {c : DeliveryConfig} {now : ℤ} {random : String → ℕ}
    {d : WebhookDelivery} (h : Db.redrivable c now random d = true) :
    d.attempts < c.redriveMaxAttempts := by
  simp only [Db.redrivable, Bool.and_eq_true, decide_eq_true_eq] at h
  exact h.1.2

theorem retain_delete {p : WebhookDelivery → Bool} {l : List Sender} {db : Db} (s : Ledger)
    (hdb : db.webhookDeliveries = s.db.webhookDeliveries.delete p) :
    Move site .retain l s l { s with db } := by
  refine .retain l fun d hd => ?_
  rw [hdb] at hd
  exact ⟨d, List.mem_of_mem_filter hd, rfl, rfl, rfl⟩

theorem job_move {j : Job} (hj : Ready site j) :
    Move site (jobDeed site r s j) (jobSenders j) s (jobSenders (step site r j s).1)
      (step site r j s).2 := by
  cases j with
  | dispatch d timestamp saved pc => exact dispatch_move hj
  | redriveList =>
    have hsenders : jobSenders (step site r .redriveList s).1 =
        (s.db.listRedrivableDeliveries site.config r.now r.random r.tie).map
        (Sender.of · false) := by
      simp only [step, jobSenders, List.flatMap_map]
      exact List.flatMap_pure_eq_map _ _
    rw [hsenders]
    have hrows : ∀ d ∈ s.db.listRedrivableDeliveries site.config r.now r.random r.tie,
        ∃ row ∈ s.db.webhookDeliveries.rows, rowToWebhookDelivery row = d := fun d hd =>
      have ⟨row, hrow, _, heq⟩ := mem_listRedrivable.mp hd
      ⟨row, hrow, heq⟩
    have hcap : ∀ d ∈ s.db.listRedrivableDeliveries site.config r.now r.random r.tie,
        d.attempts < site.config.redriveMaxAttempts := by
      intro d hd
      obtain ⟨row, -, hred, rfl⟩ := mem_listRedrivable.mp hd
      have hlt : row.attempts < site.config.redriveMaxAttempts := attempts_of_redrivable hred
      exact hlt
    have h := @Move.pick site [] [] s _ false hrows (listRedrivable_ids _ _ _ _ _) fun _ => hcap
    rw [List.nil_append, List.nil_append, List.append_nil] at h
    exact h
  | redrive tasks => exact redrive_move tasks
  | redeliver pc => exact redeliver_move pc
  | requeue merchantId ids => exact .requeue _
  | prune total =>
    simp only [step, jobDeed]
    split_ifs <;> exact retain_delete s rfl
  | compact total =>
    have hrows : ∀ d ∈ (step site r (.compact total) s).2.db.webhookDeliveries.rows,
        ∃ d₀ ∈ s.db.webhookDeliveries.rows, d.id = d₀.id ∧ d.status = d₀.status ∧
          d.attempts = d₀.attempts := by
      intro d hd
      obtain ⟨d₀, hd₀, rfl⟩ := (Table.mem_update Db.compactRow_keys).mp hd
      refine ⟨d₀, hd₀, ?_⟩
      split_ifs <;> exact ⟨rfl, rfl, rfl⟩
    have hsenders : jobSenders (step site r (.compact total) s).1 = [] := by
      simp only [step, afterDeliveries]
      split_ifs <;> rfl
    rw [hsenders]
    exact .retain [] hrows
  | pruneKeys total =>
    simp only [step, jobDeed]
    split_ifs <;> exact .idle _ rfl rfl rfl
  | elsewhere other => exact .idle _ rfl rfl rfl
  | done => exact .idle _ rfl rfl rfl

/-- A failing statement ends the sender it belongs to, apart from the first one of a dispatch. -/
theorem fail_move {j : Job} (hj : Ready site j) :
    Move site (failDeed r j) (jobSenders j) s (jobSenders (fail r j)) s := by
  have hkeep (l : List Sender) : Move site .lost l s l s := .lost [] [] l s
  have hdrop (l : List Sender) : Move site .lost l s [] s := by
    have h : Move site .lost ([] ++ (l ++ [])) s ([] ++ []) s := .lost [] l [] s
    rw [List.nil_append, List.append_nil] at h
    exact h
  cases j with
  | dispatch d timestamp saved pc =>
    cases pc with
    | start =>
      simp only [failDeed, fail, jobSenders, Dispatch.fail]
      split_ifs
      · cases (hj : saved = false)
        exact .unsaved [] [] s r.uuid
      · exact .idle _ rfl rfl rfl
    | connect id | post id k | done => exact hkeep _
    | finish id status n => exact hdrop _
  | redrive tasks =>
    simp only [failDeed, fail]
    split
    · next d status n hx =>
      obtain ⟨p, q, htasks, hset⟩ := flatMap_set (f := taskSenders) hx
      simp only [jobSenders]
      rw [htasks, hset]
      exact .lost p _ q s
    · exact hkeep _
  | redeliver pc =>
    cases pc with
    | getPayment _ _ _ | getDelivery _ _ | finish _ _ => exact hdrop _
    | connect _ | post _ | done => exact hkeep _
  | redriveList | requeue _ _ | prune _ | compact _ | pruneKeys _ | elsewhere _ | done =>
    exact hkeep _

theorem ready_dispatch {d : Dispatch} {timestamp : ℤ} {saved : Bool} {pc : DispatchPc}
    (hj : Ready site (.dispatch d timestamp saved pc)) :
    Ready site (dispatch site r d timestamp saved pc s).1 := by
  have hpos : 1 ≤ Dispatch.attempts site.env := le_max_right _ _
  cases pc with
  | start =>
    simp only [dispatch]
    split
    · simp only [Dispatch.fail]
      split_ifs <;> trivial
    · trivial
  | connect id =>
    simp only [dispatch, Dispatch.step]
    split_ifs
    · exact ⟨le_rfl, hpos⟩
    · trivial
  | post id k =>
    simp only [dispatch, Dispatch.step]
    split_ifs with hok hlt
    · trivial
    · exact ⟨by omega, hlt⟩
    · trivial
  | finish id status n | done => trivial

theorem ready_step {j : Job} (hj : Ready site j) : Ready site (step site r j s).1 := by
  cases j with
  | dispatch d timestamp saved pc => exact ready_dispatch hj
  | redrive tasks =>
    simp only [step, redrive]
    split
    · trivial
    · split_ifs <;> trivial
  | prune total | pruneKeys total =>
    simp only [step]
    generalize drained _ total = last
    cases last <;> trivial
  | compact total =>
    simp only [step, afterDeliveries]
    generalize drained _ total = last
    cases last
    · trivial
    · split_ifs <;> trivial
  | redriveList | redeliver _ | requeue _ _ | elsewhere _ | done => trivial

theorem ready_fail {j : Job} (hj : Ready site j) : Ready site (fail r j) := by
  cases j with
  | dispatch d timestamp saved pc =>
    cases pc with
    | start =>
      simp only [fail, Dispatch.fail]
      split_ifs <;> trivial
    | connect id | post id k | done => exact hj
    | finish id status n => trivial
  | redrive tasks =>
    simp only [fail]
    split <;> trivial
  | redeliver pc => cases pc <;> trivial
  | redriveList | requeue _ _ | prune _ | compact _ | pruneKeys _ | elsewhere _ | done => trivial

theorem ready_start (q : Request) : Ready site (start site q) := by
  cases q with
  | dispatch d => rfl
  | redeliverWebhooksBulk m ids =>
    simp only [start]
    split_ifs <;> trivial
  | pruneOnce =>
    simp only [start, afterDeliveries]
    split_ifs <;> trivial
  | redriveOnce | elsewhere other | redeliverWebhook m p d => trivial

theorem senders_start (q : Request) : jobSenders (start site q) = [] := by
  cases q with
  | redeliverWebhooksBulk m ids =>
    simp only [start]
    split_ifs <;> rfl
  | pruneOnce =>
    simp only [start, afterDeliveries]
    split_ifs <;> rfl
  | dispatch d | redriveOnce | elsewhere other | redeliverWebhook m p d => rfl

variable {w u : Pool Job Ledger} {a : Act Request JobReply}

theorem readyStep (h : (machine site).step w a = some u) (hw : ∀ j ∈ w.procs, Ready site j) :
    ∀ j ∈ u.procs, Ready site j := by
  have hcut : ∀ (s : Ledger) j, Ready site j → Ready site ((machine site).cut j) :=
      fun _ _ _ => trivial
  have hinv := Machine.invariant_step (I := fun _ => True) (J := fun _ => Ready site)
    (P := fun _ _ _ => True) (fun _ q _ => ready_start q) ?_
    (fun _ _ hj => hj) hcut ?_ h ⟨trivial, hw⟩
  · exact hinv.2
  · intro r j s _ _ hj
    refine ⟨trivial, ?_, fun _ hj' => hj'⟩
    simp only [machine]
    split_ifs
    · exact ready_step hj
    · exact ready_fail hj
  · cases a <;> simp [Machine.OnExec]

/-- What a step of the program does to the senders at work and to what is stored. -/
theorem step_move (hw : ∀ j ∈ w.procs, Ready site j) (h : (machine site).step w a = some u) :
    Move site (deed site w a) (senders w) w.store (senders u) u.store := by
  cases a with
  | spawn q =>
    cases h
    have hsenders : senders ⟨w.store, w.procs ++ [start site q]⟩ = senders w := by
      simp only [senders, List.flatMap_append, List.flatMap_cons, List.flatMap_nil, senders_start,
        List.append_nil]
    simp only [machine]
    rw [hsenders]
    exact .idle _ rfl rfl rfl
  | exec i r =>
    obtain ⟨j, hj, rfl⟩ := Machine.step_exec h
    have hready := hw j (List.mem_of_getElem? hj)
    obtain ⟨p, q, hprocs, hset⟩ := flatMap_set (f := jobSenders) hj
    simp only [senders, deed, hj, machine]
    rw [hprocs, hset]
    split_ifs
    · exact (job_move hready).frame p q
    · exact (fail_move hready).frame p q
  | fail i =>
    obtain ⟨j, hj, rfl⟩ := Machine.step_fail h
    have hset : w.procs.set i j = w.procs := by
      apply List.ext_getElem?
      intro k
      by_cases hik : i = k
      · subst hik
        rw [hj, List.getElem?_set_self' , hj]
        rfl
      · rw [List.getElem?_set_ne hik]
    simp only [machine, id_eq, hset]
    exact .idle _ rfl rfl rfl
  | cut i =>
    obtain ⟨j, hj, rfl⟩ := Machine.step_cut h
    obtain ⟨p, q, hprocs, hset⟩ := flatMap_set (f := jobSenders) hj
    simp only [senders, deed, machine]
    rw [hprocs, hset]
    exact .lost p (jobSenders j) q _

end
end Jobs
end StellarGate
