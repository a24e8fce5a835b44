import Mathlib.Data.List.Basic
import Mathlib.Logic.Function.Basic
import Mathlib.Tactic.Common

/-! The liveness and the counters of background tasks: `TaskHealth` of `src/lib.rs`. -/
namespace StellarGate

/-- `TaskHealthInner` without its last success. The counters are machine words, and
adding to them wraps. -/
structure TaskHealth where
  started : UInt64
  stopped : UInt64
  failed : UInt64
  running : String → Option Bool
  restarts : String → Option UInt64
  consecutiveFailures : String → Option UInt32
  disabled : String → Option String
  required : List String

namespace TaskHealth

def crashLoopThreshold : UInt32 := 3

def new : TaskHealth := ⟨0, 0, 0, fun _ => none, fun _ => none, fun _ => none, fun _ => none, []⟩

def require (h : TaskHealth) (name : String) : TaskHealth :=
  { h with required := h.required ++ [name] }

def taskStarted (h : TaskHealth) (name : String) : TaskHealth :=
  { h with started := h.started + 1, running := Function.update h.running name (some true) }

def taskStopped (h : TaskHealth) (name : String) : TaskHealth :=
  { h with stopped := h.stopped + 1, running := Function.update h.running name (some false) }

def taskFailed (h : TaskHealth) (name : String) : TaskHealth :=
  { h with
    failed := h.failed + 1
    running := Function.update h.running name (some false)
    consecutiveFailures := Function.update h.consecutiveFailures name
      (some ((h.consecutiveFailures name).getD 0 + 1)) }

def taskRestarted (h : TaskHealth) (name : String) : TaskHealth :=
  { h with restarts := Function.update h.restarts name (some ((h.restarts name).getD 0 + 1)) }

def taskDisabled (h : TaskHealth) (name reason : String) : TaskHealth :=
  { h with
    stopped := h.stopped + 1
    running := Function.update h.running name (some false)
    disabled := Function.update h.disabled name (some reason) }

def noteStable (h : TaskHealth) (name : String) : TaskHealth :=
  { h with consecutiveFailures := Function.update h.consecutiveFailures name (some 0) }

def disabledReason (h : TaskHealth) (name : String) : Option String := h.disabled name

/-- `restarts`: how often the task was restarted. -/
def restartsOf (h : TaskHealth) (name : String) : UInt64 := (h.restarts name).getD 0

/-- `consecutive_failures`: the panics in a row of the task. -/
def consecutiveFailuresOf (h : TaskHealth) (name : String) : UInt32 :=
  (h.consecutiveFailures name).getD 0

def expectedTasks (h : TaskHealth) : ℕ :=
  (h.required.filter fun name => (h.disabled name).isNone).length

def liveTasks (h : TaskHealth) : ℕ :=
  ((h.required.filter fun name => (h.disabled name).isNone).filter
    fun name => h.running name == some true).length

def deadRequiredTasks (h : TaskHealth) : List String :=
  (h.required.filter fun name => (h.disabled name).isNone).filter
    fun name => h.running name != some true

def crashLoopingRequiredTasks (h : TaskHealth) : List String :=
  h.required.filter fun name => crashLoopThreshold ≤ h.consecutiveFailuresOf name

variable {h : TaskHealth} {name : String}

theorem mem_deadRequiredTasks : name ∈ h.deadRequiredTasks ↔
    name ∈ h.required ∧ h.disabledReason name = none ∧ h.running name ≠ some true := by
  unfold deadRequiredTasks disabledReason
  simp only [List.mem_filter, Option.isNone_iff_eq_none, bne_iff_ne, and_assoc]

theorem mem_crashLoopingRequiredTasks : name ∈ h.crashLoopingRequiredTasks ↔
    name ∈ h.required ∧ crashLoopThreshold ≤ h.consecutiveFailuresOf name := by
  unfold crashLoopingRequiredTasks
  rw [List.mem_filter, decide_eq_true_iff]

/-- The expected tasks are the live and the dead ones. -/
theorem liveTasks_add_dead (h : TaskHealth) :
    h.liveTasks + h.deadRequiredTasks.length = h.expectedTasks := by
  unfold liveTasks deadRequiredTasks expectedTasks
  generalize h.required.filter _ = expected
  have hsplit := List.length_eq_length_filter_add (l := expected) fun name =>
    h.running name == some true
  exact hsplit.symm

structure SameEntries (name : String) (h h' : TaskHealth) : Prop where
  running : h'.running name = h.running name
  restarts : h'.restartsOf name = h.restartsOf name
  consecutiveFailures : h'.consecutiveFailuresOf name = h.consecutiveFailuresOf name
  disabled : h'.disabledReason name = h.disabledReason name

inductive Update where
  | started
  | stopped
  | failed
  | restarted
  | disabled (reason : String)
  | stable
  deriving DecidableEq, Repr

def record (h : TaskHealth) (name : String) : Update → TaskHealth
  | .started => h.taskStarted name
  | .stopped => h.taskStopped name
  | .failed => h.taskFailed name
  | .restarted => h.taskRestarted name
  | .disabled reason => h.taskDisabled name reason
  | .stable => h.noteStable name

theorem sameEntries_require (h : TaskHealth) (name other : String) :
    SameEntries name h (h.require other) := ⟨rfl, rfl, rfl, rfl⟩

theorem sameEntries_record {other : String} (hne : name ≠ other) (h : TaskHealth) (u : Update) :
    SameEntries name h (h.record other u) := by
  cases u <;> constructor <;>
    simp [record, taskStarted, taskStopped, taskFailed, taskRestarted, taskDisabled, noteStable,
      restartsOf, consecutiveFailuresOf, disabledReason, Function.update_of_ne hne]

/-- The mutexes of `TaskHealthInner`. -/
inductive Lock where
  | running
  | restarts
  | consecutiveFailures
  | required
  | disabled
  deriving DecidableEq, Repr

/-- A statement of an update: it adds to one of the counters, or changes one map under its lock. -/
inductive Write where
  | countsStart
  | countsStop
  | countsFailure
  | runs (value : Bool)
  | fails
  | clears
  | restarts
  | disables (reason : String)
  deriving DecidableEq, Repr

def Write.lock : Write → Option Lock
  | .countsStart | .countsStop | .countsFailure => none
  | .runs _ => some .running
  | .fails | .clears => some .consecutiveFailures
  | .restarts => some .restarts
  | .disables _ => some .disabled

def write (h : TaskHealth) (name : String) : Write → TaskHealth
  | .countsStart => { h with started := h.started + 1 }
  | .countsStop => { h with stopped := h.stopped + 1 }
  | .countsFailure => { h with failed := h.failed + 1 }
  | .runs value => { h with running := Function.update h.running name (some value) }
  | .fails =>
    { h with
      consecutiveFailures := Function.update h.consecutiveFailures name
        (some ((h.consecutiveFailures name).getD 0 + 1)) }
  | .clears => { h with consecutiveFailures := Function.update h.consecutiveFailures name (some 0) }
  | .restarts =>
    { h with restarts := Function.update h.restarts name (some ((h.restarts name).getD 0 + 1)) }
  | .disables reason => { h with disabled := Function.update h.disabled name (some reason) }

def Update.writes : Update → List Write
  | .started => [.countsStart, .runs true]
  | .stopped => [.countsStop, .runs false]
  | .failed => [.countsFailure, .runs false, .fails]
  | .restarted => [.restarts]
  | .disabled reason => [.countsStop, .runs false, .disables reason]
  | .stable => [.clears]

/-- An update is its statements, one after the other. -/
theorem record_eq_writes (h : TaskHealth) (name : String) (u : Update) :
    h.record name u = u.writes.foldl (fun h w => h.write name w) h := by
  cases u <;> rfl

theorem sameEntries_write {other : String} (hne : name ≠ other) (h : TaskHealth) (w : Write) :
    SameEntries name h (h.write other w) := by
  cases w <;> constructor <;>
    simp [write, restartsOf, consecutiveFailuresOf, disabledReason, Function.update_of_ne hne]

theorem required_write (h : TaskHealth) (name : String) (w : Write) :
    (h.write name w).required = h.required := by
  cases w <;> rfl

end TaskHealth
end StellarGate
