import StellarGate.Api.Merchant
import StellarGate.Base.Pool
import StellarGate.Db.Deliveries
import StellarGate.Webhook.Dispatch

/-! Everything that reads or writes `webhook_deliveries`, any number of each at once, a
statement or an exchange a step: `dispatch`, `redrive_once` with its `redrive_one` tasks,
`redeliver_webhook`, `redeliver_webhooks_bulk` and `prune_once`. What the dispatches stored and
every POST sent are kept on record. -/
namespace StellarGate
open Base

/-- What the outside world answers to one step: besides the answers to a call,
whether the statement of the step works, the clock, the task that takes the step, and
the draws of `RANDOM()`. -/
structure JobReply extends Reply where
  works : Bool
  now : ℤ
  task : ℕ
  random : String → ℕ

/-- A delivery as the dispatch that created it stored it. -/
structure Created where
  id : String
  payload : Payload
  deriving DecidableEq, Repr

/-- A POST that is handed to the client, and the stored delivery it is sent for. -/
structure Sent where
  deliveryId : String
  post : Post
  deriving DecidableEq, Repr

structure Ledger where
  db : Db
  created : List Created
  sent : List Sent

/-- A call of `redrive_one`. -/
inductive Task where
  | waiting (d : WebhookDelivery)
  | connect (d : WebhookDelivery)
  | post (d : WebhookDelivery)
  | finish (d : WebhookDelivery) (status : DeliveryStatus) (attempts : ℤ)
  | done
  deriving DecidableEq, Repr

/-- A call of `redeliver_webhook`. -/
inductive RedeliverPc where
  | getPayment (merchantId paymentId deliveryId : String)
  | getDelivery (paymentId deliveryId : String)
  | connect (d : WebhookDelivery)
  | post (d : WebhookDelivery)
  | finish (d : WebhookDelivery) (status : DeliveryStatus)
  | done
  deriving DecidableEq, Repr

inductive Job where
  | dispatch (d : Dispatch) (timestamp : ℤ) (saved : Bool) (pc : DispatchPc)
  | redriveList
  | redrive (tasks : List Task)
  | redeliver (pc : RedeliverPc)
  | requeue (merchantId : String) (ids : List String)
  | prune (total : ℕ)
  | compact (total : ℕ)
  | pruneKeys (total : ℕ)
  /-- A statement of the rest of the program, which leaves the deliveries alone. -/
  | elsewhere (other : Db)
  | done

namespace Jobs

/-- What the jobs have in common: the settings, the HMAC and the JSON reader. -/
structure Site where
  env : Env
  config : DeliveryConfig
  sign : ℤ → String → String
  jsonEvent : String → Option String

section
variable (site : Site) (r : JobReply)

/-- The POST of a dispatch, signed with the timestamp of its start. -/
def dispatchPost (site : Site) (d : Dispatch) (timestamp : ℤ) : Post :=
  let body := (buildPayload d.payment d.event d.delta).toJson
  { url := d.payment.webhookUrl.getD "", signature := site.sign timestamp body, timestamp,
    event := d.event.name, body }

/-- `dispatch`. A row that could not be saved is no delivery: its POSTs go unrecorded. -/
def dispatch (d : Dispatch) (timestamp : ℤ) (saved : Bool) (pc : DispatchPc) (s : Ledger) :
    Job × Ledger :=
  match pc with
  | .start =>
    let payload := buildPayload d.payment d.event d.delta
    match d.payment.webhookUrl.bind fun url =>
        s.db.saveWebhookDelivery r.now r.uuid d.payment.id url payload.toJson d.event.name with
    | none => (.dispatch d r.now false (d.fail r.toReply .start), s)
    | some db =>
      (.dispatch d r.now true (.connect r.uuid),
        { s with db, created := s.created ++ [⟨r.uuid, payload⟩] })
  | .post id k =>
    let next := d.step site.env r.now r.toReply (.post id k) s.db
    let sent := if saved then [⟨id, dispatchPost site d timestamp⟩] else []
    (.dispatch d timestamp saved next.1, { s with db := next.2, sent := s.sent ++ sent })
  | pc =>
    let next := d.step site.env r.now r.toReply pc s.db
    (.dispatch d timestamp saved next.1, { s with db := next.2 })

def redriveOne (t : Task) (s : Ledger) : Task × Ledger :=
  match t with
  | .waiting d => (.connect d, s)
  | .connect d => (if r.ok then .post d else .finish d .failed d.attempts, s)
  | .post d =>
    let attempt := d.attempts + 1
    let outcome := if r.ok then .delivered
      else if site.config.redriveMaxAttempts ≤ attempt then .failed else .pending
    (.finish d outcome attempt,
      { s with sent := s.sent ++ [⟨d.id, d.post site.sign site.jsonEvent r.now⟩] })
  | .finish d status attempts =>
    (.done, { s with db := s.db.updateWebhookDelivery r.now d.id status attempts })
  | .done => (.done, s)

def inFlight (tasks : List Task) : ℕ :=
  tasks.countP fun
    | .waiting _ | .done => false
    | .connect _ | .post _ | .finish _ _ _ => true

def Task.isWaiting : Task → Bool
  | .waiting _ => true
  | .connect _ | .post _ | .finish _ _ _ | .done => false

/-- The tasks of `redrive_once`: one of them takes a step, or waits for a permit. -/
def redrive (tasks : List Task) (s : Ledger) : Job × Ledger :=
  match tasks[r.task]? with
  | none => (.redrive tasks, s)
  | some t =>
    if Task.isWaiting t && max site.config.redriveConcurrency 1 ≤ inFlight tasks then
      (.redrive tasks, s)
    else
      let next := redriveOne site r t s
      (.redrive (tasks.set r.task next.1), next.2)

/-- `redeliver_webhook`; its responses are those of `Merchant.redeliverWebhook`. -/
def redeliver (pc : RedeliverPc) (s : Ledger) : RedeliverPc × Ledger :=
  match pc with
  | .getPayment merchantId paymentId deliveryId =>
    match Listing.ownPayment merchantId paymentId s.db with
    | .error _ => (.done, s)
    | .ok _ => (.getDelivery paymentId deliveryId, s)
  | .getDelivery paymentId deliveryId =>
    match s.db.getWebhookDelivery deliveryId with
    | none => (.done, s)
    | some d => (if d.paymentId = paymentId then .connect d else .done, s)
  | .connect d => (if r.ok then .post d else .done, s)
  | .post d =>
    (.finish d (if r.ok then .delivered else .failed),
      { s with sent := s.sent ++ [⟨d.id, d.post site.sign site.jsonEvent r.now⟩] })
  | .finish d status =>
    (.done, { s with db := s.db.updateWebhookDelivery r.now d.id status (d.attempts + 1) })
  | .done => (.done, s)

def maxPerCycle : ℕ := 50000

/-- `drain`: the loop goes on after a full batch, up to a number of rows. -/
def drained (n total : ℕ) : Bool := (n : ℤ) < Db.pruneBatch || maxPerCycle ≤ total + n

/-- The step after the deliveries, in `prune_once`. -/
def afterDeliveries : Job :=
  if 0 < site.config.idempotencyRetentionDays then .pruneKeys 0 else .done

def step (j : Job) (s : Ledger) : Job × Ledger :=
  match j with
  | .dispatch d timestamp saved pc => dispatch site r d timestamp saved pc s
  | .redriveList =>
    (.redrive ((s.db.listRedrivableDeliveries site.config r.now r.random r.tie).map .waiting), s)
  | .redrive tasks => redrive site r tasks s
  | .redeliver pc =>
    let next := redeliver site r pc s
    (.redeliver next.1, next.2)
  | .requeue merchantId ids =>
    (.done, { s with db := (s.db.requeueFailedDeliveries r.now merchantId ids).2 })
  | .prune total =>
    let b := s.db.pruneWebhookDeliveries r.now site.config.webhookDeliveryRetentionDays r.tie
    (if drained b.1 total then .compact 0 else .prune (total + b.1), { s with db := b.2 })
  | .compact total =>
    let b := s.db.compactStaleFailedDeliveries r.now site.config.webhookDeliveryRetentionDays r.tie
    (if drained b.1 total then afterDeliveries site else .compact (total + b.1),
      { s with db := b.2 })
  | .pruneKeys total =>
    let b := s.db.pruneIdempotencyKeys r.now site.config.idempotencyRetentionDays r.tie
    (if drained b.1 total then .done else .pruneKeys (total + b.1), { s with db := b.2 })
  | .elsewhere other =>
    (.done, { s with db := { other with webhookDeliveries := s.db.webhookDeliveries } })
  | .done => (.done, s)

end

def fail (r : JobReply) (j : Job) : Job :=
  match j with
  | .dispatch d timestamp saved pc => .dispatch d timestamp saved (d.fail r.toReply pc)
  | .redriveList => .redrive []
  | .redrive tasks =>
    match tasks[r.task]? with
    | some (.finish _ _ _) => .redrive (tasks.set r.task .done)
    | _ => .redrive tasks
  | .redeliver (.getPayment _ _ _) | .redeliver (.getDelivery _ _) | .redeliver (.finish _ _) =>
    .redeliver .done
  | .redeliver pc => .redeliver pc
  | .requeue _ _ | .prune _ | .compact _ | .pruneKeys _ | .elsewhere _ | .done => .done

inductive Request where
  | dispatch (d : Dispatch)
  | redriveOnce
  | redeliverWebhook (merchantId paymentId deliveryId : String)
  | redeliverWebhooksBulk (merchantId : String) (deliveryIds : Option (List String))
  | pruneOnce
  | elsewhere (other : Db)

def start (site : Site) : Request → Job
  | .dispatch d => .dispatch d 0 false .start
  | .redriveOnce => .redriveList
  | .redeliverWebhook merchantId paymentId deliveryId =>
    .redeliver (.getPayment merchantId paymentId deliveryId)
  | .redeliverWebhooksBulk merchantId deliveryIds =>
    let ids := deliveryIds.getD []
    if Merchant.maxBulkDeliveryIds < ids.length then .done else .requeue merchantId ids
  | .pruneOnce =>
    if 0 < site.config.webhookDeliveryRetentionDays then .prune 0 else afterDeliveries site
  | .elsewhere other => .elsewhere other

def machine (site : Site) : Machine Request Job JobReply Ledger where
  start := start site
  exec := fun r j s => if r.works then step site r j s else (fail r j, s)
  fail := id
  cut := fun _ => .done

/-- `Uuid::new_v4` draws an id that no delivery was stored under. -/
def Fresh (r : JobReply) (_ : Job) (s : Ledger) : Prop := ∀ c ∈ s.created, c.id ≠ r.uuid

end Jobs
end StellarGate
