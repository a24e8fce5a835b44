import StellarGate.Base.Locks
import StellarGate.Supervise.Probe

/-! `TaskHealth` under its mutexes: every method of `src/lib.rs` by the locks it takes, called from
any number of threads. -/
namespace StellarGate
open Base

namespace TaskHealth

/-- What each guards. -/
def Lock.Content : Lock → Type
  | .running => String → Option Bool
  | .restarts => String → Option UInt64
  | .consecutiveFailures => String → Option UInt32
  | .required => List String
  | .disabled => String → Option String

/-- The order of `snapshot`, which takes them all. -/
def Lock.rank : Lock → ℕ
  | .running => 0
  | .restarts => 1
  | .consecutiveFailures => 2
  | .required => 3
  | .disabled => 4

inductive Query where
  | disabledReason (name : String)
  | expectedTasks
  | liveTasks
  | restarts (name : String)
  | consecutiveFailures (name : String)
  | deadRequiredTasks
  | crashLoopingRequiredTasks
  | snapshot
  deriving DecidableEq, Repr

/-- The locks a method holds when it reads, in the order in which it takes them. -/
def Query.locks : Query → List Lock
  | .disabledReason _ => [.disabled]
  | .expectedTasks => [.required, .disabled]
  | .liveTasks => [.running, .required, .disabled]
  | .restarts _ => [.restarts]
  | .consecutiveFailures _ => [.consecutiveFailures]
  | .deadRequiredTasks => [.running, .required, .disabled]
  | .crashLoopingRequiredTasks => [.consecutiveFailures, .required]
  | .snapshot => [.running, .restarts, .consecutiveFailures, .required, .disabled]

def Query.Answer : Query → Type
  | .disabledReason _ => Option String
  | .expectedTasks => ℕ
  | .liveTasks => ℕ
  | .restarts _ => UInt64
  | .consecutiveFailures _ => UInt32
  | .deadRequiredTasks => List String
  | .crashLoopingRequiredTasks => List String
  | .snapshot => List String → List TaskSnapshot

/-- What the method answers; `snapshot` by the orders of the maps as well. -/
def Query.answer (h : TaskHealth) : (q : Query) → q.Answer
  | .disabledReason name => h.disabledReason name
  | .expectedTasks => h.expectedTasks
  | .liveTasks => h.liveTasks
  | .restarts name => h.restartsOf name
  | .consecutiveFailures name => h.consecutiveFailuresOf name
  | .deadRequiredTasks => h.deadRequiredTasks
  | .crashLoopingRequiredTasks => h.crashLoopingRequiredTasks
  | .snapshot => h.snapshot

inductive Call where
  | require (name : String)
  | record (name : String) (u : Update)
  | query (q : Query)
  deriving DecidableEq, Repr

def critical (l : Lock) (f : l.Content → l.Content) : List (Locks.Op Lock Lock.Content) :=
  [.acquire l, .write l f, .release l]

def setRunning (name : String) (value : Bool) (running : String → Option Bool) :
    String → Option Bool :=
  Function.update running name (some value)

def addRequired (name : String) (required : List String) : List String := required ++ [name]

def setDisabled (name reason : String) (disabled : String → Option String) :
    String → Option String :=
  Function.update disabled name (some reason)

def clearFailures (name : String) (consecutive : String → Option UInt32) : String → Option UInt32 :=
  Function.update consecutive name (some 0)

/-- `*consecutive.entry(name).or_insert(0) += 1`. -/
def addFailure (name : String) (consecutive : String → Option UInt32) : String → Option UInt32 :=
  Function.update consecutive name (some ((consecutive name).getD 0 + 1))

/-- `*restarts.entry(name).or_insert(0) += 1`. -/
def addRestart (name : String) (restarts : String → Option UInt64) : String → Option UInt64 :=
  Function.update restarts name (some ((restarts name).getD 0 + 1))

/-- What the updates do under locks, one map after the other. -/
def recordOps (name : String) : Update → List (Locks.Op Lock Lock.Content)
  | .started => critical .running (setRunning name true)
  | .stopped => critical .running (setRunning name false)
  | .failed =>
    critical .running (setRunning name false) ++ critical .consecutiveFailures (addFailure name)
  | .restarted => critical .restarts (addRestart name)
  | .disabled reason =>
    critical .running (setRunning name false) ++ critical .disabled (setDisabled name reason)
  | .stable => critical .consecutiveFailures (clearFailures name)

def Call.ops : Call → List (Locks.Op Lock Lock.Content)
  | .require name => critical .required (addRequired name)
  | .record name u => recordOps name u
  | .query q => Locks.readAll q.locks

/-- The record whose maps are these. The counters have no lock, and no method that
takes one reads them. -/
def guarded (value : (l : Lock) → l.Content) : TaskHealth :=
  { new with
    running := value .running
    restarts := value .restarts
    consecutiveFailures := value .consecutiveFailures
    disabled := value .disabled
    required := value .required }

def emptyMaps : (l : Lock) → l.Content
  | .running => fun _ => none
  | .restarts => fun _ => none
  | .consecutiveFailures => fun _ => none
  | .required => []
  | .disabled => fun _ => none

/-- The maps as a thread has seen them. -/
def viewed (seen : (l : Lock) → Option l.Content) : TaskHealth :=
  guarded fun l => (seen l).getD (emptyMaps l)

theorem Query.locks_sorted (q : Query) : q.locks.Pairwise fun k l => k.rank < l.rank := by
  cases q with
  | disabledReason name | restarts name | consecutiveFailures name =>
    exact List.pairwise_singleton _ _
  | expectedTasks | liveTasks | deadRequiredTasks | crashLoopingRequiredTasks | snapshot => decide

theorem fits_critical {l : Lock} {f : l.Content → l.Content}
    {ops : List (Locks.Op Lock Lock.Content)} (h : Locks.Fits Lock.rank [] ops) :
    Locks.Fits Lock.rank [] (critical l f ++ ops) := by
  refine ⟨fun k hk => (by cases hk), List.mem_cons_self, List.mem_cons_self, ?_⟩
  rw [List.erase_cons_head]
  exact h

/-- Every method takes its locks in one order, and works under them. -/
theorem Call.fits (c : Call) : Locks.Fits Lock.rank [] c.ops := by
  have hone : ∀ (l : Lock) (f : l.Content → l.Content), Locks.Fits Lock.rank [] (critical l f) :=
      fun l f =>
    @fits_critical l f [] rfl
  cases c with
  | require name => exact hone .required _
  | record name u => cases u with
    | started | stopped => exact hone .running _
    | failed => exact fits_critical (hone .consecutiveFailures _)
    | restarted => exact hone .restarts _
    | disabled reason => exact fits_critical (hone .disabled _)
    | stable => exact hone .consecutiveFailures _
  | query q => exact Locks.fits_readAll q.locks_sorted

/-- A method answers by the maps whose locks it holds. -/
theorem Query.answer_congr {value value' : (l : Lock) → l.Content} (q : Query)
    (h : ∀ l ∈ q.locks, value l = value' l) :
    q.answer (guarded value) = q.answer (guarded value') := by
  cases q with
  | disabledReason name => exact congrFun (h .disabled (List.mem_singleton.mpr rfl)) name
  | restarts name =>
    have hrestarts := h .restarts (List.mem_singleton.mpr rfl)
    simp only [answer, restartsOf, guarded, hrestarts]
    rfl
  | consecutiveFailures name =>
    have hconsecutive := h .consecutiveFailures (List.mem_singleton.mpr rfl)
    simp only [answer, consecutiveFailuresOf, guarded, hconsecutive]
    rfl
  | expectedTasks =>
    have hrequired := h .required (by decide)
    have hdisabled := h .disabled (by decide)
    simp only [answer, TaskHealth.expectedTasks, guarded, hrequired, hdisabled]
    rfl
  | liveTasks =>
    have hrunning := h .running (by decide)
    have hrequired := h .required (by decide)
    have hdisabled := h .disabled (by decide)
    simp only [answer, TaskHealth.liveTasks, guarded, hrunning, hrequired, hdisabled]
    rfl
  | deadRequiredTasks =>
    have hrunning := h .running (by decide)
    have hrequired := h .required (by decide)
    have hdisabled := h .disabled (by decide)
    simp only [answer, TaskHealth.deadRequiredTasks, guarded, hrunning, hrequired, hdisabled]
    rfl
  | crashLoopingRequiredTasks =>
    have hconsecutive := h .consecutiveFailures (by decide)
    have hrequired := h .required (by decide)
    simp only [answer, TaskHealth.crashLoopingRequiredTasks, consecutiveFailuresOf, guarded,
      hconsecutive, hrequired]
    rfl
  | snapshot =>
    have hall : value = value' := by
      funext l
      exact h l (by cases l <;> decide)
    rw [hall]

/-- A statement of an update under its lock. A counter has none. -/
def Write.ops (name : String) : Write → List (Locks.Op Lock Lock.Content)
  | .countsStart | .countsStop | .countsFailure => []
  | .runs value => critical .running (setRunning name value)
  | .fails => critical .consecutiveFailures (addFailure name)
  | .clears => critical .consecutiveFailures (clearFailures name)
  | .restarts => critical .restarts (addRestart name)
  | .disables reason => critical .disabled (setDisabled name reason)

theorem recordOps_eq (name : String) (u : Update) :
    recordOps name u = u.writes.flatMap (Write.ops name) := by
  cases u <;> rfl

theorem eq_of_mem_critical {k l : Lock} {f : k.Content → k.Content} {g : l.Content → l.Content}
    (h : .write k f ∈ critical l g) : (.write k f : Locks.Op Lock Lock.Content) = .write l g := by
  simpa only [critical, List.mem_cons, List.not_mem_nil, or_false, reduceCtorEq, false_or] using h

/-- What is written under a lock is a requirement or one statement of an update. -/
theorem guarded_write {l : Lock} {f : l.Content → l.Content} {c : Call} (h : .write l f ∈ c.ops)
    (value : (l : Lock) → l.Content) :
    (∃ name, c = .require name ∧
      guarded (Function.update value l (f (value l))) = (guarded value).require name) ∨
    ∃ name u, c = .record name u ∧ ∃ w ∈ u.writes,
      guarded (Function.update value l (f (value l))) = (guarded value).write name w := by
  cases c with
  | require name =>
    left
    obtain h := eq_of_mem_critical h
    cases h
    exact ⟨name, rfl, rfl⟩
  | record name u =>
    right
    refine ⟨name, u, rfl, ?_⟩
    simp only [Call.ops, recordOps_eq, List.mem_flatMap] at h
    obtain ⟨w, hw, hop⟩ := h
    refine ⟨w, hw, ?_⟩
    cases w with
    | countsStart | countsStop | countsFailure => cases hop
    | _ =>
      cases eq_of_mem_critical hop
      rfl
  | query q =>
    simp [Call.ops, Locks.readAll] at h

/-- The process before its first call, with `n` threads. -/
def quiet (n : ℕ) : Locks.Shared Lock Lock.Content := Locks.idle n emptyMaps

/-- A step of the process: a thread calls a method or goes on in one. -/
def callStep (s : Locks.Shared Lock Lock.Content) (e : Locks.Event Call) :
    Option (Locks.Shared Lock Lock.Content) :=
  Locks.step Call.ops s e

section
variable {n i : ℕ} {s u : Locks.Shared Lock Lock.Content} {t : Locks.Thread Lock Lock.Content}
  {es before during : List (Locks.Event Call)} {q : Query}

theorem sound_of_quiet (hrun : run callStep (quiet n) es = some s) : Locks.Sound Lock.rank s :=
  run_invariant (fun _ _ _ h hs => hs.step Call.fits h) hrun (Locks.sound_idle n emptyMaps)

/-- What a step of a thread does to the record: nothing, or one requirement, or one statement of an
update that it has called. -/
theorem guarded_step {e : Locks.Event Call} (hrun : run callStep (quiet n) es = some s)
    (h : callStep s e = some u) :
    guarded u.value = guarded s.value ∨ (∃ name, guarded u.value = (guarded s.value).require name) ∨
      ∃ name x, ∃ w ∈ Update.writes x, guarded u.value = (guarded s.value).write name w := by
  cases e with
  | call i c =>
    obtain ⟨t, -, -, rfl⟩ := Locks.step_call h
    exact .inl rfl
  | go i =>
    obtain ⟨t, t', ht, hgoes, -⟩ := Locks.step_go h
    have hrest := Locks.rest_of_run hrun (List.mem_of_getElem? ht)
    generalize u.value = value at hgoes ⊢
    cases hgoes with
    | acquire | read | release => exact .inl rfl
    | @write l f ops htodo =>
      right
      rw [htodo] at hrest
      obtain ⟨c, hc⟩ := hrest.resolve_left (List.cons_ne_nil _ _)
      rcases guarded_write (hc.subset List.mem_cons_self) s.value with ⟨name, -, hsame⟩ | ⟨name, x,
        -, w, hw, hsame⟩
      · exact .inl ⟨name, hsame⟩
      · exact .inr ⟨name, x, w, hw, hsame⟩

/-- The methods never deadlock: in whatever order the threads have called them, the calls that are
under way are all over after the steps they have left, whichever thread goes on at each of them, and
until then some thread can. -/
theorem calls_finish {gos : List (Locks.Event Call)} (hrun : run callStep (quiet n) es = some s)
    (hgo : ∀ e ∈ gos, ∃ i, e = .go i) (hgos : run callStep s gos = some u) :
    gos.length + u.left = s.left ∧
      ((∀ i, callStep u (.go i) = none) ↔ ∀ t ∈ u.threads, t.todo = []) :=
  (sound_of_quiet hrun).over Call.fits hgo hgos

/-- One thread is inside `task_failed` when another begins `dead_required_tasks`. -/
theorem calls_finish_failed : ∃ s u,
    run callStep (quiet 2)
        [.call 0 (.record "poller" .failed), .go 0, .call 1 (.query .deadRequiredTasks)] = some s ∧
      run callStep s [.go 0, .go 0, .go 1, .go 0] = some u ∧
      4 + u.left = s.left ∧ ((∀ i, callStep u (.go i) = none) ↔ ∀ t ∈ u.threads, t.todo = []) := by
  obtain ⟨u, hu⟩ := Option.isSome_iff_exists.mp (show (run callStep (quiet 2)
    ([.call 0 (.record "poller" .failed), .go 0, .call 1 (.query .deadRequiredTasks)] ++
      [.go 0, .go 0, .go 1, .go 0])).isSome by decide)
  obtain ⟨s, hs, hsu⟩ := run_split hu
  exact ⟨s, u, hs, hsu, calls_finish hs (by simp) hsu⟩

/-- A method that reads answers at one instant: what it answers from the maps as it saw them, one
after the other, is its answer by all the maps of one moment between its call and its return. -/
theorem queries_atomic
    (hrun : run callStep (quiet n) (before ++ .call i (.query q) :: during) = some s)
    (hown : ∀ c, .call i c ∉ during) (ht : s.threads[i]? = some t) (hover : t.todo = []) :
    ∃ d₁ d₂ m, during = d₁ ++ d₂ ∧
      run callStep (quiet n) (before ++ .call i (.query q) :: d₁) = some m ∧
      q.answer (viewed t.seen) = q.answer (guarded m.value) := by
  obtain ⟨s₁, hbefore, hrest⟩ := run_split hrun
  obtain ⟨s₂, hcall, hduring⟩ := run_cons.mp hrest
  have hs₁ := sound_of_quiet hbefore
  obtain ⟨t₁, ht₁, hidle, rfl⟩ := Locks.step_call hcall
  have hheld : t₁.held = [] := by
    have hfit := hs₁.fits t₁ (List.mem_of_getElem? ht₁)
    rwa [hidle] at hfit
  have hstart := List.getElem?_set_self
    (a := { t₁ with seen := fun _ => none, todo := Call.ops (.query q) })
    (List.getElem?_eq_some_iff.mp ht₁).1
  have hno : ∀ s, Along callStep (Locks.NoCall i) s during :=
      fun s => along_of_forall fun e he s => by
    cases e with
    | call j c =>
      rintro rfl
      exact hown c he
    | go j => exact trivial
  obtain ⟨d₁, d₂, m, hd, hm, hread⟩ := (hs₁.step Call.fits hcall).instant Call.fits hstart
    (Locks.reading_of_call hheld rfl) (hno _) hduring ht hover
  refine ⟨d₁, d₂, m, hd, run_append hbefore (run_cons.mpr ⟨_, hcall, hm⟩),
    q.answer_congr fun l hl => ?_⟩
  rw [hread l hl]
  rfl

/-- A task fails while `dead_required_tasks` waits for its lock. -/
theorem queries_atomic_failed : ∃ s t,
    run callStep (quiet 2) ([.call 0 (.record "poller" .failed), .go 0] ++
      .call 1 (.query .deadRequiredTasks) :: .go 0 :: .go 0 :: List.replicate 9 (.go 1)) = some s ∧
      s.threads[1]? = some t ∧
      ∃ d₁ d₂ m, .go 0 :: .go 0 :: List.replicate 9 (.go 1) = d₁ ++ d₂ ∧
        run callStep (quiet 2) ([.call 0 (.record "poller" .failed), .go 0] ++
          .call 1 (.query .deadRequiredTasks) :: d₁) = some m ∧
        Query.answer (viewed t.seen) .deadRequiredTasks = Query.answer (guarded m.value)
          .deadRequiredTasks := by
  obtain ⟨s, hs, hover⟩ :=
    exists_of_run callStep (quiet 2)
      ([.call 0 (.record "poller" .failed), .go 0] ++ .call 1 (.query .deadRequiredTasks) ::
        .go 0 :: .go 0 :: List.replicate 9 (.go 1))
    (P := fun s => (s.threads[1]?.any fun t => t.todo.isEmpty) = true) (by decide)
  obtain ⟨t, ht, hover⟩ := (Option.any_eq_true ..).mp hover
  exact ⟨s, t, hs, ht, queries_atomic hs (by simp) ht (List.isEmpty_iff.mp hover)⟩

end

end TaskHealth
end StellarGate
