import StellarGate.Horizon.Reconcile

/-! One call of `sweep_once` (`src/expiry.rs`). -/
namespace StellarGate

/-- `Ok` with the number of expired intents, or `Err`. -/
inductive SweepResult where
  | ok (expired : ℕ)
  | err
  deriving DecidableEq, Repr

/-- Where a sweep stands: before `expire_overdue`, or inside the webhook of `current`
with the rows of `later` still to announce. -/
inductive SweepPc where
  | expire
  | notify (current : Payment) (pc : DispatchPc) (later : List Payment) (count : ℕ)
  | done (result : SweepResult)
  deriving DecidableEq, Repr

namespace Sweep

/-- The call of `dispatch` for one expired intent. -/
def dispatchOf (payment : Payment) : Dispatch := ⟨payment, .expired, none⟩

/-- The loop over the expired rows. -/
def announce (count : ℕ) : List Payment → SweepPc
  | [] => .done (.ok count)
  | p :: ps => .notify p .start ps count

def notifyNext (current : Payment) (pc : DispatchPc) (later : List Payment) (count : ℕ) :
    SweepPc :=
  if pc = .done then announce count later else .notify current pc later count

def step (env : Env) (now : ℤ) (r : Reply) : SweepPc → Db → StepResult SweepPc
  | .expire, db =>
    let (rows, db') := db.expireOverdue now env.config.expiryBatchSize r.tie
    ⟨announce rows.length rows, db', [], rows.map fun p => (p.id, .expired)⟩
  | .notify current pc later count, db =>
    let (pc', db') := (dispatchOf current).step env now r pc db
    ⟨notifyNext current pc' later count, db', if pc = .start then [dispatchOf current] else [], []⟩
  | .done result, db => ⟨.done result, db, [], []⟩

def fail (r : Reply) : SweepPc → SweepPc × List Dispatch
  | .expire => (.done .err, [])
  | .notify current pc later count =>
    (notifyNext current ((dispatchOf current).fail r pc) later count,
      if pc = .start then [dispatchOf current] else [])
  | .done result => (.done result, [])

end Sweep
end StellarGate
