import StellarGate.Horizon.Record
import StellarGate.Webhook.Dispatch

/-! One call of `reconcile_payment` and its `settle` (`src/horizon.rs`), a SQL statement
or an exchange a step. -/
namespace StellarGate

/-- What a step of a call leaves: where the call stands, the database, the calls of
`dispatch` it made and the status transitions it committed. -/
structure StepResult (κ : Type) where
  next : κ
  db : Db
  dispatched : List Dispatch
  committed : List (String × WebhookEvent)

/-- What `reconcile_payment` writes and announces for a total. -/
structure Settlement where
  status : PaymentStatus
  paidAmount : String
  event : WebhookEvent
  delta : Option String
  deriving DecidableEq, Repr

/-- `parse_stroops(&payment.amount).unwrap_or(0)`. -/
def expectedStroops (payment : Payment) : ℤ := (parseStroops payment.amount).getD 0

def settlementOf (payment : Payment) (total : ℤ) : Settlement :=
  let expected := expectedStroops payment
  let paidAmount := stroopsToString total
  if total = expected then ⟨.completed, paidAmount, .completed, none⟩
  else if expected < total then
    ⟨.completed, paidAmount, .overpaid, some (stroopsToString (total - expected))⟩
  else ⟨.underpaid, paidAmount, .underpaid, some (stroopsToString (expected - total))⟩

/-- `Ok` with whether an intent was settled, or `Err`. -/
inductive ReconcileResult where
  | ok (settled : Bool)
  | err
  deriving DecidableEq, Repr

/-- The statement a call of `reconcile_payment` runs next, with the locals it still uses. -/
inductive ReconcilePc where
  | find (memo : String)
  | sumBefore (payment : Payment)
  | record (payment : Payment) (newStroops : ℤ)
  | sumAfter (payment : Payment)
  | update (payment : Payment) (total : ℤ)
  | notify (d : Dispatch) (pc : DispatchPc)
  | done (result : ReconcileResult)
  deriving DecidableEq, Repr

namespace Reconcile

def start (hp : HorizonPayment) : ReconcilePc :=
  match hp.memo with
  | none => .done (.ok false)
  | some memo => .find memo

/-- The copy of the payment `settle` hands to the webhook. -/
def settled (payment : Payment) (s : Settlement) (txHash : String) : Payment :=
  { payment with status := s.status, txHash := some txHash, paidAmount := some s.paidAmount }

/-- The call of `dispatch` for a settled intent. -/
def dispatchOf (payment : Payment) (total : ℤ) (txHash : String) : Dispatch :=
  let s := settlementOf payment total
  ⟨settled payment s txHash, s.event, s.delta⟩

def notifyNext (d : Dispatch) (pc : DispatchPc) : ReconcilePc :=
  if pc = .done then .done (.ok true) else .notify d pc

def step (env : Env) (now : ℤ) (r : Reply) (hp : HorizonPayment) :
    ReconcilePc → Db → StepResult ReconcilePc
  | .find memo, db =>
    match db.findPendingByMemo now memo with
    | none => ⟨.done (.ok false), db, [], []⟩
    | some payment => ⟨.sumBefore payment, db, [], []⟩
  | .sumBefore payment, db =>
    match db.sumProcessedStroops payment.id with
    | none => ⟨.done .err, db, [], []⟩
    | some already =>
      if (verify payment hp already).isNone then ⟨.done (.ok false), db, [], []⟩
      else ⟨.record payment (hp.stroops.getD 0), db, [], []⟩
  | .record payment newStroops, db =>
    match db.recordProcessedTx now payment.id hp.hash newStroops with
    | (false, db') => ⟨.done (.ok false), db', [], []⟩
    | (true, db') => ⟨.sumAfter payment, db', [], []⟩
  | .sumAfter payment, db =>
    match db.sumProcessedStroops payment.id with
    | none => ⟨.done .err, db, [], []⟩
    | some total => ⟨.update payment total, db, [], []⟩
  | .update payment total, db =>
    let s := settlementOf payment total
    match db.updatePaymentStatus now payment.id s.status hp.hash s.paidAmount with
    | (false, db') => ⟨.done (.ok false), db', [], []⟩
    | (true, db') =>
      ⟨.notify (dispatchOf payment total hp.hash) .start, db', [], [(payment.id, s.event)]⟩
  | .notify d pc, db =>
    let (pc', db') := d.step env now r pc db
    ⟨notifyNext d pc', db', if pc = .start then [d] else [], []⟩
  | .done result, db => ⟨.done result, db, [], []⟩

/-- The next step when its statement fails: `?` returns the error, `settle` logs it. -/
def fail (r : Reply) : ReconcilePc → ReconcilePc × List Dispatch
  | .find _ => (.done .err, [])
  | .sumBefore _ => (.done .err, [])
  | .record _ _ => (.done .err, [])
  | .sumAfter _ => (.done .err, [])
  | .update _ _ => (.done (.ok false), [])
  | .notify d pc => (notifyNext d (d.fail r pc), if pc = .start then [d] else [])
  | .done result => (.done result, [])

end Reconcile
end StellarGate
