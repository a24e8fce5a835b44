import StellarGate.Config
import StellarGate.Db.Statements
import StellarGate.Webhook.Payload

/-! One call of `dispatch` (`src/webhook.rs`), a statement or an exchange a step. -/
namespace StellarGate

/-- The arguments of a call of `dispatch`. -/
structure Dispatch where
  payment : Payment
  event : WebhookEvent
  delta : Option String
  deriving DecidableEq, Repr

/-- Where a call of `dispatch` stands: before `save_webhook_delivery`, before the
SSRF-checked lookup, before a POST, before `update_webhook_delivery`. -/
inductive DispatchPc where
  | start
  | connect (deliveryId : String)
  | post (deliveryId : String) (attempt : ℕ)
  | finish (deliveryId : String) (status : DeliveryStatus) (attempts : ℕ)
  | done
  deriving DecidableEq, Repr

namespace Dispatch

/-- `webhook_retry_attempts.max(1)`. -/
def attempts (env : Env) : ℕ := max env.config.webhookRetryAttempts 1

/-- An error of `save_webhook_delivery` is logged and the delivery goes on without a row. -/
def step (env : Env) (now : ℤ) (r : Reply) (d : Dispatch) : DispatchPc → Db → DispatchPc × Db
  | .start, db =>
    match d.payment.webhookUrl with
    | none => (.done, db)
    | some url =>
      (.connect r.uuid,
        (db.saveWebhookDelivery now r.uuid d.payment.id url
          (buildPayload d.payment d.event d.delta).toJson d.event.name).getD db)
  | .connect id, db => (if r.ok then .post id 1 else .finish id .failed 0, db)
  | .post id k, db =>
    (if r.ok then .finish id .delivered k
      else if k < attempts env then .post id (k + 1)
      else .finish id .failed (attempts env), db)
  | .finish id status n, db => (.done, db.updateWebhookDelivery now id status n)
  | .done, db => (.done, db)

def fail (r : Reply) (d : Dispatch) : DispatchPc → DispatchPc
  | .start => if d.payment.webhookUrl.isSome then .connect r.uuid else .done
  | .finish _ _ _ => .done
  | pc => pc

def stepsLeft (env : Env) : DispatchPc → ℕ
  | .start => attempts env + 4
  | .connect _ => attempts env + 3
  | .post _ k => attempts env - k + 2
  | .finish _ _ _ => 1
  | .done => 0

end Dispatch
end StellarGate
