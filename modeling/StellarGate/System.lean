import StellarGate.Base.Run
import StellarGate.Expiry
import StellarGate.Api.Create

/-! The service as a transition system: any number of calls in flight over one
database, one SQL statement or exchange at a time, with failing statements and crashes. -/
namespace StellarGate
open Base

inductive Call where
  | reconcile (hp : HorizonPayment) (pc : ReconcilePc)
  | sweep (pc : SweepPc)
  | create (req : CreateRequest) (pc : CreatePc)
  | lost
  deriving DecidableEq

namespace Call

def returned : Call → Bool
  | reconcile _ (.done _) => true
  | sweep (.done _) => true
  | create _ (.done _) => true
  | lost => true
  | _ => false

def step (env : Env) (now : ℤ) (r : Reply) (db : Db) : Call → StepResult Call
  | reconcile hp pc =>
    let s := Reconcile.step env now r hp pc db
    ⟨.reconcile hp s.next, s.db, s.dispatched, s.committed⟩
  | sweep pc =>
    let s := Sweep.step env now r pc db
    ⟨.sweep s.next, s.db, s.dispatched, s.committed⟩
  | create req pc =>
    let s := Create.step env now r req pc db
    ⟨.create req s.1, s.2, [], []⟩
  | lost => ⟨.lost, db, [], []⟩

def fail (r : Reply) : Call → Call × List Dispatch
  | reconcile hp pc => ((Reconcile.fail r pc).1 |> .reconcile hp, (Reconcile.fail r pc).2)
  | sweep pc => (.sweep (Sweep.fail r pc).1, (Sweep.fail r pc).2)
  | create req pc => (.create req (Create.fail pc), [])
  | lost => (.lost, [])

def cut (c : Call) : Call := if c.returned then c else .lost

end Call

/-- A committed status transition: the call that made it and the event that announces it. -/
structure Commit where
  call : ℕ
  paymentId : String
  event : WebhookEvent
  deriving DecidableEq, Repr

/-- The database and the calls, with the history of the run: the records
handed to `reconcile_payment`, the calls of `dispatch`, the committed
transitions and the UUIDs given out. -/
structure World where
  now : ℤ
  db : Db
  calls : List Call
  handed : List HorizonPayment
  dispatched : List Dispatch
  committed : List Commit
  minted : List String

inductive Event where
  | advance (secs : ℕ)
  | reconcile (hp : HorizonPayment)
  | sweep
  | create (req : CreateRequest)
  | exec (i : ℕ) (r : Reply)
  | fail (i : ℕ) (r : Reply)
  | kill (i : ℕ)
  | crash

/-- `P` holds of the call and the reply where the event is a call's next statement. -/
def Event.onExec (P : ℕ → Reply → Prop) : Event → Prop
  | .exec i r => P i r
  | _ => True

instance (P : ℕ → Reply → Prop) [∀ i r, Decidable (P i r)] : ∀ e, Decidable (Event.onExec P e)
  | .exec i r => inferInstanceAs (Decidable (P i r))
  | .advance _ | .reconcile _ | .sweep | .create _ | .fail _ _ | .kill _ | .crash => .isTrue trivial

namespace World

def init (now : ℤ) : World := ⟨now, .empty, [], [], [], [], []⟩

def start (w : World) (c : Call) : World := { w with calls := w.calls ++ [c] }

/-- Call `i` runs its next statement. A UUID is never given out twice. -/
def exec (env : Env) (i : ℕ) (r : Reply) (c : Call) (w : World) : World :=
  let s := c.step env w.now r w.db
  { w with
    db := s.db
    calls := w.calls.set i s.next
    dispatched := w.dispatched ++ s.dispatched
    committed := w.committed ++ s.committed.map fun (id, event) => ⟨i, id, event⟩
    minted := r.uuid :: w.minted }

/-- The next statement of call `i` returns an error and changes nothing. -/
def failCall (i : ℕ) (r : Reply) (c : Call) (w : World) : World :=
  { w with
    calls := w.calls.set i (c.fail r).1
    dispatched := w.dispatched ++ (c.fail r).2
    minted := r.uuid :: w.minted }

def step (env : Env) (w : World) : Event → Option World
  | .advance secs => some { w with now := w.now + secs }
  | .reconcile hp =>
    some { w.start (.reconcile hp (Reconcile.start hp)) with handed := hp :: w.handed }
  | .sweep => some (w.start (.sweep .expire))
  | .create req => some (w.start (.create req (Create.start env req)))
  | .exec i r =>
    match w.calls[i]? with
    | none => none
    | some c => if r.uuid ∈ w.minted then none else some (w.exec env i r c)
  | .fail i r =>
    match w.calls[i]? with
    | none => none
    | some c => if r.uuid ∈ w.minted then none else some (w.failCall i r c)
  | .kill i =>
    match w.calls[i]? with
    | none => none
    | some c => some { w with calls := w.calls.set i c.cut }
  | .crash => some { w with calls := w.calls.map Call.cut }

/-- The state `t` is reached from `w` by the events `es`. -/
abbrev Reaches (env : Env) (w : World) (es : List Event) (t : World) : Prop :=
  run (step env) w es = some t

def quiet (w : World) : Prop := ∀ c ∈ w.calls, c.returned = true

instance (w : World) : Decidable w.quiet := by unfold quiet; infer_instance

end World

/-! A small deployment for the concrete runs of this development. -/
namespace Sample

def env : Env where
  config :=
    { network := "testnet", gatewayPublic := "GATE", acceptedAssets := [⟨"XLM", none⟩],
      webhookRetryAttempts := 1, allowedWebhookSchemes := ["https"], paymentTtlSecs := 3600,
      expiryBatchSize := 500 }
  toUppercase s := s
  urlScheme _ := some "https"

def request : CreateRequest :=
  { merchantId := "m", idempotencyKey := none, amount := "10", asset := none, webhookUrl := none,
    targetSafe := true }

/-- A native payment to the intent with memo `memo`. -/
def record (memo amount hash token : String) : HorizonPayment :=
  { kind := "payment", amount := some amount, assetType := some "native", assetCode := none,
    assetIssuer := none, toAddress := some "GATE", transactionHash := some hash,
    transaction := some ⟨some memo, some "text", some true⟩, pagingToken := some token,
    createdAt := none }

def reply (k : ℕ) : Reply := ⟨k.repr, true, fun _ => 0⟩

/-- The calls named by `is` run a statement each, in this order. -/
def turns (k : ℕ) : List ℕ → List Event
  | [] => []
  | i :: is => .exec i (reply k) :: turns (k + 1) is

/-- Call 0 creates an intent with id `"10"` and memo `"11"`. -/
def create : List Event := .create request :: turns 10 [0, 0, 0, 0]

end Sample
end StellarGate
