import StellarGate.Base.Duration
import StellarGate.Base.Run
import StellarGate.Supervise.Health

/-! The supervisor of a background task (`supervise_with` of `src/supervise.rs`) as a state machine:
what it does at a time the runtime polls it, between events of the channel, the timers, the children
and the supervisors of other tasks. -/
namespace StellarGate
namespace Supervise
open Base

/-- How the join of a child ends: with a `TaskExit`, or with an error. -/
inductive Outcome where
  | shutdownRequested
  | disabledByConfig (reason : String)
  | fatal (reason : String)
  | panic
  | cancelled
  deriving DecidableEq, Repr

structure Backoff where
  initial : Duration
  max : Duration
  stability : Duration
  deriving DecidableEq, Repr

/-- `Backoff::default()`. -/
def Backoff.default : Backoff := ⟨.ofSecs 1, .ofSecs 60, .ofSecs 5⟩

/-- The receiver of a `watch` channel. -/
structure Watch where
  value : Bool
  unseen : Bool
  closed : Bool
  deriving DecidableEq, Repr

namespace Watch

/-- Whether `changed()` is ready: on a value not seen yet, or on an error
once the sender is gone. -/
def ready (w : Watch) : Bool := w.unseen || w.closed

def seen (w : Watch) : Watch := { w with unseen := false }
def send (w : Watch) (value : Bool) : Watch := { w with value := value, unseen := true }
def close (w : Watch) : Watch := { w with closed := true }

end Watch

inductive Child where
  | running
  | ended (o : Outcome)
  deriving DecidableEq, Repr

/-- Where the supervisor stands: at the check that opens the loop, before the spawn, in the
select beside a child (whether it is marked stable, and whether the timer has fired), at the
await of a child after the shutdown, after a join, in the select beside the backoff (whether it
is over), or returned. -/
inductive Pc where
  | top
  | spawning
  | waiting (child : ℕ) (markedStable elapsed : Bool)
  | draining (child : ℕ)
  | joined (o : Outcome)
  | sleeping (elapsed : Bool)
  | returned
  deriving DecidableEq, Repr

/-- What the supervisor does, as far as it can be told from outside. -/
inductive Action where
  | started
  | stable
  | handled (o : Outcome)
  | waits (d : Duration)
  | observed
  | returned
  deriving DecidableEq, Repr

/-- The supervisor, the health it writes to, the channel it reads and the children it spawned. The
log is a history variable, with the newest action first. -/
structure Supervisor where
  pc : Pc
  delay : Duration
  health : TaskHealth
  shutdown : Watch
  children : List Child
  log : List Action

/-- What happens: the supervisor is polled, the sleep of its select is over, a child ends, the
channel is written or its sender dropped, or the health is written for another task. -/
inductive Event where
  | poll
  | elapse
  | ends (child : ℕ) (o : Outcome)
  | send (value : Bool)
  | close
  | require (name : String)
  | other (name : String) (u : TaskHealth.Update)
  deriving DecidableEq, Repr

namespace Supervisor
variable (name : String) (backoff : Backoff)

def did (s : Supervisor) (a : Action) : Supervisor := { s with log := a :: s.log }

/-- `health.task_stopped(name); return`. -/
def finish (s : Supervisor) : Supervisor :=
  { s with health := s.health.taskStopped name, pc := .returned, log := .returned :: s.log }

/-- `health.task_restarted(name)`, and the sleep begins. -/
def restart (s : Supervisor) : Supervisor :=
  { s with
    health := s.health.taskRestarted name
    pc := .sleeping false
    log := .waits s.delay :: s.log }

def handle (s : Supervisor) (o : Outcome) : Supervisor :=
  match o with
  | .shutdownRequested => (s.did (.handled o)).finish name
  | .disabledByConfig reason =>
    { s with
      health := s.health.taskDisabled name reason
      pc := .returned
      log := .returned :: .handled o :: s.log }
  | .fatal _ => ({ s with health := s.health.taskStopped name }.did (.handled o)).restart name
  | .panic => ({ s with health := s.health.taskFailed name }.did (.handled o)).restart name
  | .cancelled => (s.did (.handled o)).finish name

/-- Go on to the next point where the supervisor yields. The selects are biased. The health is told
all at once here; `Process.step` writes the same updates one locked statement after the other. -/
def poll (s : Supervisor) : Supervisor :=
  match s.pc with
  | .top =>
    if s.shutdown.value then (s.did .observed).finish name
    else { s with health := s.health.taskStarted name, pc := .spawning }
  | .spawning =>
    { s with
      children := s.children ++ [.running]
      pc := .waiting s.children.length false false
      log := .started :: s.log }
  | .waiting child markedStable elapsed =>
    if s.shutdown.ready then
      { s with shutdown := s.shutdown.seen, pc := .draining child, log := .observed :: s.log }
    else if !markedStable && elapsed then
      { s with
        health := s.health.noteStable name
        pc := .waiting child true false
        log := .stable :: s.log }
    else
      match s.children[child]? with
      | some (.ended o) => { s with pc := .joined o }
      | _ => s
  | .draining child =>
    match s.children[child]? with
    | some (.ended _) => s.finish name
    | _ => s
  | .joined o => if s.shutdown.value then (s.did .observed).finish name else s.handle name o
  | .sleeping elapsed =>
    if s.shutdown.ready then ({ s with shutdown := s.shutdown.seen }.did .observed).finish name
    else if elapsed then { s with delay := min (s.delay.saturatingMul 2) backoff.max, pc := .top }
    else s
  | .returned => s

/-- What a poll records about the task, in its order. -/
def tells (s : Supervisor) : List TaskHealth.Update :=
  match s.pc with
  | .top => if s.shutdown.value then [.stopped] else [.started]
  | .waiting _ markedStable elapsed =>
    if !s.shutdown.ready && (!markedStable && elapsed) then [.stable] else []
  | .draining child =>
    match s.children[child]? with
    | some (.ended _) => [.stopped]
    | _ => []
  | .joined o =>
    if s.shutdown.value then [.stopped]
    else
      match o with
      | .shutdownRequested | .cancelled => [.stopped]
      | .disabledByConfig reason => [.disabled reason]
      | .fatal _ => [.stopped, .restarted]
      | .panic => [.failed, .restarted]
  | .sleeping _ => if s.shutdown.ready then [.stopped] else []
  | .spawning | .returned => []

def elapse (s : Supervisor) : Option Supervisor :=
  match s.pc with
  | .waiting child false _ => some { s with pc := .waiting child false true }
  | .sleeping _ => some { s with pc := .sleeping true }
  | _ => none

def step (s : Supervisor) : Event → Option Supervisor
  | .poll => some (s.poll name backoff)
  | .elapse => s.elapse
  | .ends child o =>
    if s.children[child]? = some .running then
      some { s with children := s.children.set child (.ended o) }
    else none
  | .send value =>
    if s.shutdown.closed then none else some { s with shutdown := s.shutdown.send value }
  | .close => some { s with shutdown := s.shutdown.close }
  | .require other => some { s with health := s.health.require other }
  | .other other u =>
    if name = other then none else some { s with health := s.health.record other u }

def start (shutdown : Watch) : Supervisor := ⟨.top, backoff.initial, .new, shutdown, [], []⟩

def Reachable (s : Supervisor) : Prop :=
  ∃ shutdown es, run (step name backoff) (start backoff shutdown) es = some s

end Supervisor
end Supervise
end StellarGate
