import Mathlib.Data.List.Range
import StellarGate.Supervise.Machine

/-! The log of a supervisor: the order of its actions, and the counters and
delays it accounts for. -/
namespace StellarGate
namespace Supervise
open Base

/-- The exits after which the task is restarted. -/
def Outcome.isRestart : Outcome → Bool
  | .fatal _ | .panic => true
  | _ => false

namespace Action

def isRestart : Action → Bool
  | .handled o => o.isRestart
  | _ => false

/-- The handling of an exit that ends the supervision, and everything after a shutdown. -/
def isFinal : Action → Bool
  | .handled o => !o.isRestart
  | .observed | .returned => true
  | _ => false

def delay? : Action → Option ℕ
  | .waits d => some d.nanos
  | _ => none

def exit? : Action → Option Outcome
  | .handled o => some o
  | _ => none

end Action

def restartsHandled (log : List Action) : ℕ := log.countP Action.isRestart

def panicsSinceStable : List Action → ℕ
  | [] => 0
  | .stable :: _ => 0
  | .handled .panic :: log => panicsSinceStable log + 1
  | _ :: log => panicsSinceStable log

/-- Whether the last child has been started and its end not been handled. -/
def childUnhandled : List Action → Bool
  | [] => false
  | .started :: _ => true
  | .handled _ :: _ => false
  | .returned :: _ => false
  | _ :: log => childUnhandled log

def exitsOf (log : List Action) : List Outcome := log.filterMap Action.exit?

def delaysOf (log : List Action) : List ℕ := log.filterMap Action.delay?

/-- The delay before restart number `k + 1`, in exact arithmetic. -/
def Backoff.exact (backoff : Backoff) (k : ℕ) : ℕ :=
  min (backoff.initial.nanos * 2 ^ k) backoff.max.nanos

structure Ordered (log : List Action) : Prop where
  final : log.Pairwise fun newer older => older.isFinal = true → newer = .returned
  afterWait : log.IsChain fun newer older => newer = .started → ∃ d, older = .waits d

def Open (log : List Action) : Prop := ∀ a ∈ log, a.isFinal = false

theorem ordered_nil : Ordered [] := ⟨.nil, .nil⟩

theorem open_nil : Open [] := by
  intro a ha
  cases ha

theorem Open.cons {a : Action} {log : List Action} (ha : a.isFinal = false) (h : Open log) :
    Open (a :: log) := by
  intro b hb
  rcases List.mem_cons.mp hb with rfl | hb
  · exact ha
  · exact h b hb

theorem Ordered.cons {a : Action} {log : List Action} (h : Ordered log)
    (hopen : Open log ∨ a = .returned)
    (hstart : a = .started → ∀ b ∈ log.head?, ∃ d, b = .waits d) : Ordered (a :: log) := by
  constructor
  · apply List.pairwise_cons.mpr
    refine ⟨?_, h.final⟩
    intro b hb hfinal
    rcases hopen with hopen | ha
    · rw [hopen b hb] at hfinal
      cases hfinal
    · exact ha
  · cases log with
    | nil => exact .singleton a
    | cons b log =>
      apply List.isChain_cons_cons.mpr
      exact ⟨fun ha => hstart ha b rfl, h.afterWait⟩

theorem Ordered.returned {log : List Action} (h : Ordered log) : Ordered (.returned :: log) :=
  h.cons (.inr rfl) (fun ha => by cases ha)

/-- The counters and the delays that a log accounts for. -/
structure Counted (name : String) (backoff : Backoff) (h : TaskHealth) (log : List Action) :
    Prop where
  restarts : (h.restartsOf name).toNat = restartsHandled log % 2 ^ 64
  consecutiveFailures : (h.consecutiveFailuresOf name).toNat = panicsSinceStable log % 2 ^ 32
  delays : (delaysOf log).reverse = (List.range (restartsHandled log)).map backoff.exact
  disabled : ∀ reason, .handled (.disabledByConfig reason) ∈ log →
    (h.disabledReason name).isSome = true

section
variable {name : String} {backoff : Backoff} {h h' : TaskHealth} {log : List Action}

theorem counted_new : Counted name backoff .new [] :=
  ⟨rfl, rfl, rfl, fun _ hmem => absurd hmem List.not_mem_nil⟩

theorem Counted.congr (hc : Counted name backoff h log)
    (hr : h'.restartsOf name = h.restartsOf name)
    (hf : h'.consecutiveFailuresOf name = h.consecutiveFailuresOf name)
    (hd : h'.disabledReason name = h.disabledReason name) : Counted name backoff h' log := by
  constructor
  · rw [hr]
    exact hc.restarts
  · rw [hf]
    exact hc.consecutiveFailures
  · exact hc.delays
  · rw [hd]
    exact hc.disabled

theorem Counted.started (hc : Counted name backoff h log) :
    Counted name backoff (h.taskStarted name) log :=
  hc.congr rfl rfl rfl

theorem Counted.stopped (hc : Counted name backoff h log) :
    Counted name backoff (h.taskStopped name) log :=
  hc.congr rfl rfl rfl

def Action.isPlain : Action → Bool
  | .started | .observed | .returned | .handled .shutdownRequested | .handled .cancelled => true
  | _ => false

theorem Counted.plain {a : Action} (hc : Counted name backoff h log) (ha : a.isPlain = true) :
    Counted name backoff h (a :: log) := by
  have hrestart : restartsHandled (a :: log) = restartsHandled log := by
    unfold restartsHandled
    rw [List.countP_cons]
    unfold Action.isPlain at ha
    split at ha <;> first | rfl | cases ha
  have hpanics : panicsSinceStable (a :: log) = panicsSinceStable log := by
    unfold Action.isPlain at ha
    split at ha <;> first | rfl | cases ha
  have hdelays : delaysOf (a :: log) = delaysOf log := by
    unfold Action.isPlain at ha
    split at ha <;> first | rfl | cases ha
  constructor
  · rw [hrestart]
    exact hc.restarts
  · rw [hpanics]
    exact hc.consecutiveFailures
  · rw [hrestart, hdelays]
    exact hc.delays
  · intro reason hmem
    rcases List.mem_cons.mp hmem with rfl | hmem
    · cases ha
    · exact hc.disabled reason hmem

theorem Counted.stable (hc : Counted name backoff h log) :
    Counted name backoff (h.noteStable name) (.stable :: log) := by
  constructor
  · exact hc.restarts
  · simp [TaskHealth.consecutiveFailuresOf, TaskHealth.noteStable, panicsSinceStable]
  · exact hc.delays
  · intro reason hmem
    exact hc.disabled reason (by simpa using hmem)

theorem Counted.disabledByConfig (hc : Counted name backoff h log) (reason : String) :
    Counted name backoff (h.taskDisabled name reason)
      (.handled (.disabledByConfig reason) :: log) := by
  constructor
  · exact hc.restarts
  · exact hc.consecutiveFailures
  · exact hc.delays
  · intro _ _
    simp [TaskHealth.disabledReason, TaskHealth.taskDisabled]

theorem restartsHandled_restart {a : Action} (ha : a.isRestart = true) (d : Duration) :
    restartsHandled (.waits d :: a :: log) = restartsHandled log + 1 := by
  unfold restartsHandled
  rw [List.countP_cons_of_neg (Bool.false_ne_true), List.countP_cons_of_pos ha]

theorem delays_restart {a : Action} {d : Duration}
    (hdelays : (delaysOf log).reverse = (List.range (restartsHandled log)).map backoff.exact)
    (ha : a.isRestart = true) (hd : d.nanos = backoff.exact (restartsHandled log)) :
    (delaysOf (.waits d :: a :: log)).reverse =
      (List.range (restartsHandled (.waits d :: a :: log))).map backoff.exact := by
  have hcons : delaysOf (.waits d :: a :: log) = d.nanos :: delaysOf log := by
    cases a with
    | handled o => rfl
    | _ => cases ha
  rw [restartsHandled_restart ha, hcons, List.reverse_cons, hdelays, List.range_succ,
    List.map_append, hd]
  rfl

theorem toNat_restartsOf_taskRestarted {n : ℕ} (hr : (h.restartsOf name).toNat = n % 2 ^ 64) :
    ((h.taskRestarted name).restartsOf name).toNat = (n + 1) % 2 ^ 64 := by
  have hval : (h.taskRestarted name).restartsOf name = h.restartsOf name + 1 := by
    simp [TaskHealth.restartsOf, TaskHealth.taskRestarted]
  rw [hval, UInt64.toNat_add, hr]
  exact Nat.mod_add_mod n (2 ^ 64) 1

theorem toNat_consecutiveFailuresOf_taskFailed {n : ℕ}
    (hf : (h.consecutiveFailuresOf name).toNat = n % 2 ^ 32) :
    ((h.taskFailed name).consecutiveFailuresOf name).toNat = (n + 1) % 2 ^ 32 := by
  have hval : (h.taskFailed name).consecutiveFailuresOf name = h.consecutiveFailuresOf name +
      1 := by
    simp [TaskHealth.consecutiveFailuresOf, TaskHealth.taskFailed]
  rw [hval, UInt32.toNat_add, hf]
  exact Nat.mod_add_mod n (2 ^ 32) 1

theorem mem_of_mem_restart {a : Action} {d : Duration} {reason : String} (ha : a.isRestart = true)
    (hmem : .handled (.disabledByConfig reason) ∈ Action.waits d :: a :: log) :
    .handled (.disabledByConfig reason) ∈ log := by
  rcases List.mem_cons.mp hmem with hd | hmem
  · cases hd
  rcases List.mem_cons.mp hmem with rfl | hmem
  · cases ha
  · exact hmem

theorem Counted.fatal {d : Duration} (hc : Counted name backoff h log) (reason : String)
    (hd : d.nanos = backoff.exact (restartsHandled log)) :
    Counted name backoff ((h.taskStopped name).taskRestarted name)
      (.waits d :: .handled (.fatal reason) :: log) := by
  constructor
  · rw [restartsHandled_restart rfl]
    exact toNat_restartsOf_taskRestarted hc.stopped.restarts
  · exact hc.consecutiveFailures
  · exact delays_restart hc.delays rfl hd
  · intro r hmem
    exact hc.disabled r (mem_of_mem_restart rfl hmem)

theorem Counted.panic {d : Duration} (hc : Counted name backoff h log)
    (hd : d.nanos = backoff.exact (restartsHandled log)) :
    Counted name backoff ((h.taskFailed name).taskRestarted name)
      (.waits d :: .handled .panic :: log) := by
  have hrestarts : ((h.taskFailed name).restartsOf name).toNat = restartsHandled log % 2 ^ 64 :=
      hc.restarts
  constructor
  · rw [restartsHandled_restart rfl]
    exact toNat_restartsOf_taskRestarted hrestarts
  · exact toNat_consecutiveFailuresOf_taskFailed hc.consecutiveFailures
  · exact delays_restart hc.delays rfl hd
  · intro r hmem
    exact hc.disabled r (mem_of_mem_restart rfl hmem)

end

end Supervise
end StellarGate
