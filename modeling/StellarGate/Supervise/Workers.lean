import StellarGate.Addresses
import StellarGate.Db.Deliveries
import StellarGate.Supervise.Machine

/-! The bodies of the background tasks as loops of cycles and pauses: `run_poller` and
`run_stream_listener` of `src/horizon.rs`, `run_sweeper` of `src/expiry.rs`,
`run_retention_worker` of `src/retention.rs` and `run_redrive_worker` of `src/webhook.rs`. What a
cycle does is left out. -/
namespace StellarGate

/-- `ListenerMode` of `src/config.rs`. -/
inductive ListenerMode where
  | stream
  | poll
  deriving DecidableEq, Repr

namespace Supervise

/-- What sets one loop apart from another. -/
structure Loop where
  /-- Why the configuration gives the task nothing to do. -/
  disabled : Option String
  /-- Whether it first builds an HTTP client, which may fail. -/
  buildsClient : Bool
  /-- Whether it runs a cycle before its first pause. -/
  cycleFirst : Bool
  /-- Whether a cycle is given up at a shutdown. -/
  selects : Bool
  /-- Whether a pause may be of no length, as after a `Retry-After` of zero. -/
  mayHurry : Bool
  deriving DecidableEq, Repr

def runPoller (config : Config) : Loop where
  disabled := if config.gatewayConfigured then none
    else some "STELLAR_GATEWAY_PUBLIC is unconfigured"
  buildsClient := false
  cycleFirst := false
  selects := false
  mayHurry := true

/-- `run_stream_listener`. A cycle is one connection. -/
def runStreamListener (config : Config) : Loop where
  disabled := if config.gatewayConfigured then none
    else some "STELLAR_GATEWAY_PUBLIC is unconfigured"
  buildsClient := true
  cycleFirst := true
  selects := true
  mayHurry := false

def runSweeper : Loop where
  disabled := none
  buildsClient := false
  cycleFirst := false
  selects := false
  mayHurry := false

def runRetentionWorker (config : DeliveryConfig) : Loop where
  disabled :=
    if config.webhookDeliveryRetentionDays ≤ 0 ∧ config.idempotencyRetentionDays ≤ 0 then
      some "both WEBHOOK_DELIVERY_RETENTION_DAYS and IDEMPOTENCY_RETENTION_DAYS are 0"
    else none
  buildsClient := false
  cycleFirst := false
  selects := false
  mayHurry := false

def runRedriveWorker : Loop where
  disabled := none
  buildsClient := false
  cycleFirst := true
  selects := false
  mayHurry := false

/-- Where a task stands: spawned, in a cycle, in the select beside its pause (whether
it is over), or ended. -/
inductive WorkerPc where
  | start
  | cycle
  | pause (elapsed : Bool)
  | ended (o : Outcome)
  deriving DecidableEq, Repr

/-- A task with its receiver and the number of cycles it has begun. -/
structure Worker where
  pc : WorkerPc
  shutdown : Watch
  cycles : ℕ
  deriving DecidableEq, Repr

/-- What happens to a task: it is polled for the first time, perhaps with an error of the client
it builds, a cycle is over, or given up, a pause is over, one of the branches of the select is
taken, or the task panics. -/
inductive WorkerEvent where
  | begins (error : Option String)
  | finishes (hurry : Bool)
  | interrupts
  | elapses
  | wakes
  | observes
  | panics
  deriving DecidableEq, Repr

namespace Worker

def spawn (shutdown : Watch) : Worker := ⟨.start, shutdown, 0⟩

def cycling (w : Worker) : Worker := { w with pc := .cycle, cycles := w.cycles + 1 }

/-- The select beside a pause is entered: a shutdown not seen yet wins over a
sleep that has only begun. -/
def pausing (w : Worker) : Worker :=
  { w with pc := if w.shutdown.ready then .ended .shutdownRequested else .pause false }

def child (w : Worker) : Child :=
  match w.pc with
  | .ended o => .ended o
  | _ => .running

def step (l : Loop) (w : Worker) : WorkerEvent → Option Worker
  | .begins error =>
    match w.pc, l.disabled, error with
    | .start, some reason, none => some { w with pc := .ended (.disabledByConfig reason) }
    | .start, none, none => some (if l.cycleFirst then w.cycling else w.pausing)
    | .start, none, some e =>
      if l.buildsClient then
        some { w with pc := .ended (.fatal ("failed to build stream HTTP client: " ++ e)) }
      else none
    | _, _, _ => none
  | .finishes hurry =>
    match w.pc with
    | .cycle =>
      if hurry then if l.mayHurry then some { w with pc := .pause true } else none
      else some w.pausing
    | _ => none
  | .interrupts =>
    if w.pc = .cycle ∧ l.selects ∧ w.shutdown.ready then
      some { w with pc := .ended .shutdownRequested }
    else none
  | .elapses =>
    match w.pc with
    | .pause _ => some { w with pc := .pause true }
    | _ => none
  | .wakes => if w.pc = .pause true then some w.cycling else none
  | .observes =>
    match w.pc with
    | .pause _ => if w.shutdown.ready then some { w with pc := .ended .shutdownRequested } else none
    | _ => none
  | .panics =>
    match w.pc with
    | .start | .cycle => some { w with pc := .ended .panic }
    | _ => none

/-- The steps of a task, with all that is known where each is taken. -/
inductive Turn (l : Loop) (w : Worker) : WorkerEvent → Worker → Prop where
  | disabled {reason : String} (hpc : w.pc = .start) (hd : l.disabled = some reason) :
    Turn l w (.begins none) { w with pc := .ended (.disabledByConfig reason) }
  | cycles (hpc : w.pc = .start) (hd : l.disabled = none) (hfirst : l.cycleFirst = true) :
    Turn l w (.begins none) w.cycling
  | pauses (hpc : w.pc = .start) (hd : l.disabled = none) (hfirst : l.cycleFirst = false) :
    Turn l w (.begins none) w.pausing
  | fatal {e : String} (hpc : w.pc = .start) (hbuilds : l.buildsClient = true) :
    Turn l w (.begins (some e))
      { w with pc := .ended (.fatal ("failed to build stream HTTP client: " ++ e)) }
  | hurries (hpc : w.pc = .cycle) (hurry : l.mayHurry = true) :
    Turn l w (.finishes true) { w with pc := .pause true }
  | finishes (hpc : w.pc = .cycle) : Turn l w (.finishes false) w.pausing
  | interrupts (hpc : w.pc = .cycle) (hselects : l.selects = true)
    (hready : w.shutdown.ready = true) :
    Turn l w .interrupts { w with pc := .ended .shutdownRequested }
  | elapses {b : Bool} (hpc : w.pc = .pause b) : Turn l w .elapses { w with pc := .pause true }
  | wakes (hpc : w.pc = .pause true) : Turn l w .wakes w.cycling
  | observes {b : Bool} (hpc : w.pc = .pause b) (hready : w.shutdown.ready = true) :
    Turn l w .observes { w with pc := .ended .shutdownRequested }
  | panics (hpc : w.pc = .start ∨ w.pc = .cycle) : Turn l w .panics { w with pc := .ended .panic }

theorem turn_of_step {l : Loop} {w w' : Worker} {e : WorkerEvent} (h : w.step l e = some w') :
    Turn l w e w' := by
  cases e with
  | begins error =>
    simp only [step] at h
    split at h
    · rename_i reason hpc hd
      cases h
      exact .disabled hpc hd
    · rename_i hpc hd
      cases hfirst : l.cycleFirst <;> rw [hfirst] at h <;> cases h
      · exact .pauses hpc hd hfirst
      · exact .cycles hpc hd hfirst
    · rename_i e hpc hd
      split_ifs at h with hbuilds
      cases h
      exact .fatal hpc hbuilds
    · cases h
  | finishes hurry =>
    simp only [step] at h
    split at h
    · rename_i hpc
      cases hurry with
      | true =>
        rw [if_pos rfl] at h
        split_ifs at h with hmay
        cases h
        exact .hurries hpc hmay
      | false =>
        cases h
        exact .finishes hpc
    · cases h
  | interrupts =>
    simp only [step] at h
    split_ifs at h with hall
    cases h
    exact .interrupts hall.1 hall.2.1 hall.2.2
  | elapses =>
    simp only [step] at h
    split at h
    · rename_i b hpc
      cases h
      exact .elapses hpc
    · cases h
  | wakes =>
    simp only [step] at h
    split_ifs at h with hpc
    cases h
    exact .wakes hpc
  | observes =>
    simp only [step] at h
    split at h
    · rename_i b hpc
      split_ifs at h with hready
      cases h
      exact .observes hpc hready
    · cases h
  | panics =>
    simp only [step] at h
    split at h
    · rename_i hpc
      cases h
      exact .panics (.inl hpc)
    · rename_i hpc
      cases h
      exact .panics (.inr hpc)
    · cases h

end Worker
end Supervise
end StellarGate
