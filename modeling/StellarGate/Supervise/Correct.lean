import Mathlib.Data.List.Duplicate
import Mathlib.Data.List.NodupEquivFin
import StellarGate.Supervise.Log

/-! The supervisor over whole runs: one child at a time, the liveness of its task, what it does
after an exit, the counters and the delays. -/
namespace StellarGate
namespace Supervise
open Base

/-- What is to hold in every state. -/
structure Correct (name : String) (backoff : Backoff) (s : Supervisor) : Prop where
  oneChild : s.children.count .running ≤ 1
  /-- The exits handled are those of the children, one of each, in the order of the starts. -/
  exits : (exitsOf s.log).reverse.map Child.ended <+: s.children
  /-- The task is marked running while a child runs, and until its end is handled. -/
  running : .running ∈ s.children ∨ childUnhandled s.log = true → s.health.running name = some true
  returned : s.pc = .returned → s.health.running name ≠ some true
  /-- Nothing comes after a final action but the return. -/
  final : s.log.Pairwise fun newer older => older.isFinal = true → newer = .returned
  restarts : (s.health.restartsOf name).toNat = restartsHandled s.log
  /-- A start that is not the first comes right after a delay. -/
  afterWait : s.log.IsChain fun newer older => newer = .started → ∃ d, older = .waits d
  delays : (delaysOf s.log).reverse = (List.range (restartsHandled s.log)).map backoff.exact
  consecutiveFailures : (s.health.consecutiveFailuresOf name).toNat = panicsSinceStable s.log
  disabled : ∀ reason, .handled (.disabledByConfig reason) ∈ s.log →
    name ∉ s.health.deadRequiredTasks

namespace Pc

def child? : Pc → Option ℕ
  | .waiting child _ _ | .draining child => some child
  | _ => none

def holds : Pc → Bool
  | .waiting _ _ _ | .draining _ | .joined _ => true
  | _ => false

def marked (pc : Pc) : Bool := pc = .spawning || pc.holds

def active : Pc → Bool
  | .draining _ | .returned => false
  | _ => true

/-- Whether the next action of the supervisor may be a start. -/
def starting : Pc → Bool
  | .top | .spawning | .sleeping _ => true
  | _ => false

def held (pc : Pc) : ℕ := if pc.holds then 1 else 0

/-- The restarts counted ahead of the doubling of the delay. -/
def ahead : Pc → ℕ
  | .sleeping _ => 1
  | _ => 0

end Pc

/-- The children and the exits handled. -/
structure Exits (pc : Pc) (log : List Action) (children : List Child) : Prop where
  pre : (exitsOf log).reverse.map Child.ended <+: children
  length : pc.active = true → children.length = (exitsOf log).length + pc.held
  child : ∀ c, pc.child? = some c → children.length = c + 1
  last : ∀ o, pc = .joined o → children.getLast? = some (.ended o)

/-- The invariant of the supervisor. -/
structure Inv (name : String) (backoff : Backoff) (s : Supervisor) : Prop where
  ordered : Ordered s.log
  counted : Counted name backoff s.health s.log
  exits : Exits s.pc s.log s.children
  child : ∀ i, s.children[i]? = some .running → s.pc.child? = some i
  unhandled : childUnhandled s.log = s.pc.holds
  running : s.health.running name = some true ↔ s.pc.marked = true
  isOpen : s.pc.active = true → Open s.log
  starting : s.pc.starting = true → ∀ a ∈ s.log.head?, ∃ d, a = .waits d
  delay : s.pc.active = true → ∃ k, restartsHandled s.log = k + s.pc.ahead ∧
    s.delay = (Duration.doubled backoff.max)^[k] backoff.initial

section
variable {pc pc' : Pc} {log log' : List Action} {children : List Child} {o : Outcome}

theorem exits_nil : Exits .top [] [] := by
  constructor
  · exact List.nil_prefix
  · intro _
    rfl
  · intro c hc
    cases hc
  · intro o ho
    cases ho

/-- A step that neither starts a child nor handles an exit. -/
theorem Exits.move (h : Exits pc log children) (hlog : exitsOf log' = exitsOf log)
    (hactive : pc'.active = true → pc.active = true ∧ pc'.held = pc.held)
    (hchild : ∀ c, pc'.child? = some c → pc.child? = some c) (hjoined : ∀ o, pc' ≠ .joined o) :
    Exits pc' log' children := by
  constructor
  · rw [hlog]
    exact h.pre
  · intro ha
    obtain ⟨hold, hheld⟩ := hactive ha
    rw [hlog, hheld]
    exact h.length hold
  · intro c hc
    exact h.child c (hchild c hc)
  · intro o ho
    exact absurd ho (hjoined o)

theorem Exits.returned (h : (exitsOf log).reverse.map Child.ended <+: children)
    (hlog : exitsOf log' = exitsOf log) : Exits .returned log' children := by
  constructor
  · rw [hlog]
    exact h
  · intro ha
    cases ha
  · intro c hc
    cases hc
  · intro o ho
    cases ho

theorem Exits.spawned (h : Exits .spawning log children) :
    Exits (.waiting children.length false false) (.started :: log) (children ++ [.running]) := by
  have hlength := h.length rfl
  constructor
  · exact h.pre.trans (List.prefix_append children [.running])
  · intro _
    rw [List.length_append, hlength]
    rfl
  · intro c hc
    cases hc
    exact List.length_append
  · intro o ho
    cases ho

theorem Exits.joined {child : ℕ} {markedStable elapsed : Bool}
    (h : Exits (.waiting child markedStable elapsed) log children)
    (hended : children[child]? = some (.ended o)) : Exits (.joined o) log children := by
  have hlast := h.child child rfl
  constructor
  · exact h.pre
  · exact h.length
  · intro c hc
    cases hc
  · intro o' ho
    cases ho
    rw [List.getLast?_eq_getElem?, hlast]
    exact hended

theorem Exits.handled (h : Exits (.joined o) log children) :
    (exitsOf (.handled o :: log)).reverse.map Child.ended = children := by
  obtain ⟨rest, hrest⟩ := h.pre
  have hlength : children.length = (exitsOf log).length + 1 := h.length rfl
  have hlast := h.last o rfl
  have hone : rest.length = 1 := by
    have hsum := congrArg List.length hrest
    rw [List.length_append, List.length_map, List.length_reverse] at hsum
    omega
  obtain ⟨x, rfl⟩ := List.length_eq_one_iff.mp hone
  have hcons : exitsOf (.handled o :: log) = o :: exitsOf log := rfl
  rw [← hrest, List.getLast?_concat] at hlast
  rw [hcons, List.reverse_cons, List.map_append, ← hrest, Option.some.inj hlast]
  rfl

theorem Exits.sleeping (h : Exits (.joined o) log children) {elapsed : Bool}
    (hlog : exitsOf log' = exitsOf (.handled o :: log)) :
    Exits (.sleeping elapsed) log' children := by
  have hall := h.handled
  constructor
  · have hsame : (exitsOf log').reverse.map Child.ended = children := by rw [hlog, hall]
    exact ⟨[], by rw [List.append_nil, hsame]⟩
  · intro _
    have hsum := congrArg List.length hall
    rw [List.length_map, List.length_reverse] at hsum
    rw [hlog]
    exact hsum.symm
  · intro c hc
    cases hc
  · intro o' ho
    cases ho

theorem Exits.ends {child : ℕ} (h : Exits pc log children) (hrun : children[child]? = some .running)
    (hpc : ∀ o, pc ≠ .joined o) (o : Outcome) : Exits pc log (children.set child (.ended o)) := by
  obtain ⟨rest, hrest⟩ := h.pre
  have hbeyond : ((exitsOf log).reverse.map Child.ended).length ≤ child := by
    by_contra hlt
    rw [← hrest, List.getElem?_append_left (by omega)] at hrun
    have hmem := List.mem_of_getElem? hrun
    obtain ⟨o', _, ho'⟩ := List.mem_map.mp hmem
    cases ho'
  constructor
  · rw [← hrest, List.set_append_right _ _ hbeyond]
    exact List.prefix_append _ _
  · intro ha
    rw [List.length_set]
    exact h.length ha
  · intro c hc
    rw [List.length_set]
    exact h.child c hc
  · intro o' ho
    exact absurd ho (hpc o')

end

section
variable {name : String} {backoff : Backoff} {s t : Supervisor}

theorem inv_start (backoff : Backoff) (shutdown : Watch) :
    Inv name backoff (Supervisor.start backoff shutdown) := by
  constructor
  · exact ordered_nil
  · exact counted_new
  · exact exits_nil
  · intro i hi
    cases hi
  · rfl
  · simp [Supervisor.start, TaskHealth.new, Pc.marked, Pc.holds]
  · intro _
    exact open_nil
  · intro _ a ha
    cases ha
  · intro _
    exact ⟨0, rfl, rfl⟩

theorem Inv.health {h : TaskHealth} (hi : Inv name backoff s)
    (hsame : TaskHealth.SameEntries name s.health h) : Inv name backoff { s with health := h } := by
  constructor
  · exact hi.ordered
  · exact hi.counted.congr hsame.restarts hsame.consecutiveFailures hsame.disabled
  · exact hi.exits
  · exact hi.child
  · exact hi.unhandled
  · rw [← hi.running]
    exact iff_of_eq (congrArg (· = some true) hsame.running)
  · exact hi.isOpen
  · exact hi.starting
  · exact hi.delay

theorem Inv.shutdown (hi : Inv name backoff s) (w : Watch) :
    Inv name backoff { s with shutdown := w } :=
  ⟨hi.ordered, hi.counted, hi.exits, hi.child, hi.unhandled, hi.running, hi.isOpen,
    hi.starting, hi.delay⟩

theorem Inv.ends {child : ℕ} (hi : Inv name backoff s) (hend : s.children[child]? = some .running)
    (o : Outcome) : Inv name backoff { s with children := s.children.set child (.ended o) } := by
  have hpc : ∀ o, s.pc ≠ .joined o := by
    intro o ho
    have hawaited := hi.child child hend
    rw [ho] at hawaited
    cases hawaited
  refine ⟨hi.ordered, hi.counted, hi.exits.ends hend hpc o, ?_, hi.unhandled, hi.running, hi.isOpen,
    hi.starting, hi.delay⟩
  intro i hrun
  by_cases hchild : child = i
  · subst hchild
    simp only [List.getElem?_set, if_true] at hrun
    split at hrun <;> cases hrun
  · exact hi.child i (by rwa [List.getElem?_set_ne hchild] at hrun)

theorem inv_returned {h : TaskHealth} {log : List Action} (hordered : Ordered log)
    (hcounted : Counted name backoff h log) (hstopped : h.running name = some false)
    (hexits : (exitsOf log).reverse.map Child.ended <+: s.children)
    (hchild : ∀ i : ℕ, s.children[i]? ≠ some Child.running) :
    Inv name backoff { s with health := h, pc := .returned, log := .returned :: log } := by
  constructor
  · exact hordered.returned
  · exact hcounted.plain rfl
  · exact Exits.returned hexits rfl
  · intro i hi
    exact absurd hi (hchild i)
  · rfl
  · simp [hstopped, Pc.marked, Pc.holds]
  · intro h
    cases h
  · intro h
    cases h
  · intro h
    cases h

theorem inv_finish (hordered : Ordered s.log) (hcounted : Counted name backoff s.health s.log)
    (hexits : (exitsOf s.log).reverse.map Child.ended <+: s.children)
    (hchild : ∀ i : ℕ, s.children[i]? ≠ some Child.running) : Inv name backoff (s.finish name) :=
  inv_returned hordered hcounted.stopped (Function.update_self _ _ _) hexits hchild

theorem Inv.none_running (hi : Inv name backoff s) (hpc : s.pc.child? = none) (i : ℕ) :
    s.children[i]? ≠ some Child.running := by
  intro hrun
  rw [hi.child i hrun] at hpc
  cases hpc

theorem Inv.observed_finish (hi : Inv name backoff s) (hchild : s.pc.child? = none)
    (hactive : s.pc.active = true) : Inv name backoff ((s.did .observed).finish name) := by
  apply inv_finish
  · exact hi.ordered.cons (.inl (hi.isOpen hactive)) (fun ha => by cases ha)
  · exact hi.counted.plain rfl
  · exact hi.exits.pre
  · exact hi.none_running hchild

theorem Inv.nanos_delay (hi : Inv name backoff s) (hle : backoff.initial ≤ backoff.max)
    (hactive : s.pc.active = true) (hahead : s.pc.ahead = 0) :
    s.delay.nanos = backoff.exact (restartsHandled s.log) := by
  obtain ⟨k, hk, hdelay⟩ := hi.delay hactive
  rw [hahead, Nat.add_zero] at hk
  rw [hdelay, hk]
  exact Duration.nanos_iterate_doubled hle k

theorem inv_restart {o : Outcome} {h : TaskHealth} (hi : Inv name backoff s)
    (hpc : s.pc = .joined o) (ho : o.isRestart = true)
    (hcounted : Counted name backoff (h.taskRestarted name) (.waits s.delay :: .handled o :: s.log))
    (hrunning : h.running name = some false) :
    Inv name backoff (({ s with health := h }.did (.handled o)).restart name) := by
  have hactive : s.pc.active = true := by rw [hpc]; rfl
  have hopen := hi.isOpen hactive
  have hfinal : (Action.handled o).isFinal = false := by
    show (!o.isRestart) = false
    rw [ho]
    rfl
  have hexits : Exits (.joined o) s.log s.children := hpc ▸ hi.exits
  have hhandled : Open (.handled o :: s.log) := hopen.cons hfinal
  have hordered : Ordered (.handled o :: s.log) :=
      hi.ordered.cons (.inl hopen) (fun ha => by cases ha)
  constructor
  · exact hordered.cons (.inl hhandled) (fun ha => by cases ha)
  · exact hcounted
  · have hlog : exitsOf (.waits s.delay :: .handled o :: s.log) = exitsOf (.handled o :: s.log) :=
        rfl
    exact hexits.sleeping hlog
  · intro i hrun
    exact absurd hrun (hi.none_running (by rw [hpc]; rfl) i)
  · rfl
  · simp [Supervisor.restart, Supervisor.did, TaskHealth.taskRestarted, hrunning,
      Pc.marked, Pc.holds]
  · intro _
    exact hhandled.cons rfl
  · intro _ a ha
    cases ha
    exact ⟨s.delay, rfl⟩
  · intro _
    obtain ⟨k, hk, hdelay⟩ := hi.delay hactive
    rw [hpc] at hk
    refine ⟨k, ?_, hdelay⟩
    have hrestart : (Action.handled o).isRestart = true := ho
    have hcount : restartsHandled (.waits s.delay :: .handled o :: s.log) =
      restartsHandled s.log + 1 :=
      restartsHandled_restart hrestart s.delay
    exact hcount.trans (congrArg (· + 1) hk)

theorem Inv.handle {o : Outcome} (hi : Inv name backoff s) (hle : backoff.initial ≤ backoff.max)
    (hpc : s.pc = .joined o) : Inv name backoff (s.handle name o) := by
  have hactive : s.pc.active = true := by rw [hpc]; rfl
  have hnone : ∀ i : ℕ, s.children[i]? ≠ some Child.running := hi.none_running (by rw [hpc]; rfl)
  have hdelay := hi.nanos_delay hle hactive (by rw [hpc]; rfl)
  have hordered : Ordered (.handled o :: s.log) :=
    hi.ordered.cons (.inl (hi.isOpen hactive)) (fun ha => by cases ha)
  have hjoined : Exits (.joined o) s.log s.children := hpc ▸ hi.exits
  have hexits : (exitsOf (.handled o :: s.log)).reverse.map Child.ended <+: s.children :=
    ⟨[], by rw [List.append_nil, hjoined.handled]⟩
  cases o with
  | shutdownRequested => exact inv_finish hordered (hi.counted.plain rfl) hexits hnone
  | cancelled => exact inv_finish hordered (hi.counted.plain rfl) hexits hnone
  | fatal reason =>
    exact inv_restart hi hpc rfl (hi.counted.fatal reason hdelay) (Function.update_self _ _ _)
  | panic => exact inv_restart hi hpc rfl (hi.counted.panic hdelay) (Function.update_self _ _ _)
  | disabledByConfig reason =>
    have hcounted := hi.counted.disabledByConfig reason
    exact inv_returned hordered hcounted (Function.update_self _ _ _) hexits hnone

theorem Inv.poll_top (hi : Inv name backoff s) (hpc : s.pc = .top) :
    Inv name backoff (s.poll name backoff) := by
  have hactive : s.pc.active = true := by rw [hpc]; rfl
  have hchild : s.pc.child? = none := by rw [hpc]; rfl
  unfold Supervisor.poll
  simp only [hpc]
  split_ifs with hvalue
  · exact hi.observed_finish hchild hactive
  · have hunhandled := hi.unhandled
    have hdelay := hi.delay hactive
    have hexits := hi.exits
    rw [hpc] at hunhandled hdelay hexits
    constructor
    · exact hi.ordered
    · exact hi.counted.started
    · exact hexits.move rfl (fun _ => ⟨rfl, rfl⟩) (fun _ hc => hc) (fun o ho => by cases ho)
    · intro i hrun
      exact absurd hrun (hi.none_running hchild i)
    · exact hunhandled
    · simp [TaskHealth.taskStarted, Pc.marked]
    · intro _
      exact hi.isOpen hactive
    · intro _
      exact hi.starting (by rw [hpc]; rfl)
    · intro _
      exact hdelay

theorem Inv.poll_spawning (hi : Inv name backoff s) (hpc : s.pc = .spawning) :
    Inv name backoff (s.poll name backoff) := by
  have hactive : s.pc.active = true := by rw [hpc]; rfl
  have hnone := hi.none_running (by rw [hpc]; rfl)
  have hrunning := hi.running
  have hdelay := hi.delay hactive
  have hexits := hi.exits
  rw [hpc] at hrunning hdelay hexits
  unfold Supervisor.poll
  simp only [hpc]
  constructor
  · exact hi.ordered.cons (.inl (hi.isOpen hactive)) (fun _ => hi.starting (by rw [hpc]; rfl))
  · exact hi.counted.plain rfl
  · exact hexits.spawned
  · intro i hrun
    have hlt : i < s.children.length + 1 := by
      simpa using (List.getElem?_eq_some_iff.mp hrun).1
    have hi' : ¬ i < s.children.length := by
      intro hold
      rw [List.getElem?_append_left hold] at hrun
      exact hnone i hrun
    have heq : s.children.length = i := by omega
    exact congrArg some heq
  · rfl
  · exact hrunning
  · intro _
    exact (hi.isOpen hactive).cons rfl
  · intro h
    cases h
  · intro _
    exact hdelay

theorem Inv.poll_waiting {child : ℕ} {markedStable elapsed : Bool} (hi : Inv name backoff s)
    (hpc : s.pc = .waiting child markedStable elapsed) :
    Inv name backoff (s.poll name backoff) := by
  have hactive : s.pc.active = true := by rw [hpc]; rfl
  have hopen := hi.isOpen hactive
  have hchild := hi.child
  have hunhandled := hi.unhandled
  have hrunning := hi.running
  have hdelay := hi.delay hactive
  have hexits := hi.exits
  rw [hpc] at hchild hunhandled hrunning hdelay hexits
  unfold Supervisor.poll
  simp only [hpc]
  split_ifs with hready hstable
  · constructor
    · exact hi.ordered.cons (.inl hopen) (fun ha => by cases ha)
    · exact hi.counted.plain rfl
    · exact hexits.move rfl (fun ha => by cases ha) (fun _ hc => hc) (fun o ho => by cases ho)
    · exact hchild
    · exact hunhandled
    · exact hrunning
    · intro h
      cases h
    · intro h
      cases h
    · intro h
      cases h
  · constructor
    · exact hi.ordered.cons (.inl hopen) (fun ha => by cases ha)
    · exact hi.counted.stable
    · exact hexits.move rfl (fun _ => ⟨rfl, rfl⟩) (fun _ hc => hc) (fun o ho => by cases ho)
    · exact hchild
    · exact hunhandled
    · exact hrunning
    · intro _
      exact hopen.cons rfl
    · intro h
      cases h
    · intro _
      exact hdelay
  · split
    · rename_i o hended
      constructor
      · exact hi.ordered
      · exact hi.counted
      · exact hexits.joined hended
      · intro i hrun
        have hsame := hchild i hrun
        cases hsame
        rw [hended] at hrun
        cases hrun
      · exact hunhandled
      · exact hrunning
      · intro _
        exact hopen
      · intro h
        cases h
      · intro _
        exact hdelay
    · exact hi

theorem Inv.poll_draining {child : ℕ} (hi : Inv name backoff s) (hpc : s.pc = .draining child) :
    Inv name backoff (s.poll name backoff) := by
  have hchild := hi.child
  rw [hpc] at hchild
  unfold Supervisor.poll
  simp only [hpc]
  split
  · rename_i o hended
    apply inv_finish hi.ordered hi.counted hi.exits.pre
    intro i hrun
    have hsame := hchild i hrun
    cases hsame
    rw [hended] at hrun
    cases hrun
  · exact hi

theorem Inv.poll_joined {o : Outcome} (hi : Inv name backoff s)
    (hle : backoff.initial ≤ backoff.max) (hpc : s.pc = .joined o) :
    Inv name backoff (s.poll name backoff) := by
  unfold Supervisor.poll
  simp only [hpc]
  split_ifs with hvalue
  · exact hi.observed_finish (by rw [hpc]; rfl) (by rw [hpc]; rfl)
  · exact hi.handle hle hpc

theorem Inv.poll_sleeping {elapsed : Bool} (hi : Inv name backoff s)
    (hpc : s.pc = .sleeping elapsed) :
    Inv name backoff (s.poll name backoff) := by
  have hactive : s.pc.active = true := by rw [hpc]; rfl
  have hchild : s.pc.child? = none := by rw [hpc]; rfl
  unfold Supervisor.poll
  simp only [hpc]
  split_ifs with hready helapsed
  · exact (hi.shutdown s.shutdown.seen).observed_finish hchild hactive
  · have hunhandled := hi.unhandled
    have hrunning := hi.running
    have hexits := hi.exits
    rw [hpc] at hunhandled hrunning hexits
    constructor
    · exact hi.ordered
    · exact hi.counted
    · exact hexits.move rfl (fun _ => ⟨rfl, rfl⟩) (fun _ hc => hc) (fun o ho => by cases ho)
    · intro i hrun
      exact absurd hrun (hi.none_running hchild i)
    · exact hunhandled
    · exact hrunning
    · intro _
      exact hi.isOpen hactive
    · intro _
      exact hi.starting (by rw [hpc]; rfl)
    · intro _
      obtain ⟨k, hk, hdelay⟩ := hi.delay hactive
      rw [hpc] at hk
      refine ⟨k + 1, hk, ?_⟩
      rw [Function.iterate_succ_apply', ← hdelay]
      rfl
  · exact hi

theorem Inv.poll (hi : Inv name backoff s) (hle : backoff.initial ≤ backoff.max) :
    Inv name backoff (s.poll name backoff) := by
  cases hpc : s.pc with
  | top => exact hi.poll_top hpc
  | spawning => exact hi.poll_spawning hpc
  | waiting child markedStable elapsed => exact hi.poll_waiting hpc
  | draining child => exact hi.poll_draining hpc
  | joined o => exact hi.poll_joined hle hpc
  | sleeping elapsed => exact hi.poll_sleeping hpc
  | returned =>
    unfold Supervisor.poll
    simp only [hpc]
    exact hi

theorem Inv.elapse (hi : Inv name backoff s) (hs : s.elapse = some t) : Inv name backoff t := by
  have hchild := hi.child
  have hunhandled := hi.unhandled
  have hrunning := hi.running
  have hopen := hi.isOpen
  have hstarting := hi.starting
  have hdelay := hi.delay
  have hexits := hi.exits
  unfold Supervisor.elapse at hs
  split at hs
  · rename_i hpc
    cases hs
    rw [hpc] at hchild hunhandled hrunning hopen hstarting hdelay hexits
    refine ⟨hi.ordered, hi.counted, ?_, hchild, hunhandled, hrunning, hopen, hstarting, hdelay⟩
    exact hexits.move rfl (fun _ => ⟨rfl, rfl⟩) (fun _ hc => hc) (fun o ho => by cases ho)
  · rename_i hpc
    cases hs
    rw [hpc] at hchild hunhandled hrunning hopen hstarting hdelay hexits
    refine ⟨hi.ordered, hi.counted, ?_, hchild, hunhandled, hrunning, hopen, hstarting, hdelay⟩
    exact hexits.move rfl (fun _ => ⟨rfl, rfl⟩) (fun _ hc => hc) (fun o ho => by cases ho)
  · cases hs

theorem Inv.step (hi : Inv name backoff s) (hle : backoff.initial ≤ backoff.max) {e : Event}
    (hs : s.step name backoff e = some t) : Inv name backoff t := by
  cases e with
  | poll =>
    cases hs
    exact hi.poll hle
  | elapse => exact hi.elapse hs
  | ends child o =>
    simp only [Supervisor.step] at hs
    split_ifs at hs with hend
    cases hs
    exact hi.ends hend o
  | send value =>
    simp only [Supervisor.step] at hs
    split_ifs at hs
    cases hs
    exact hi.shutdown _
  | close =>
    cases hs
    exact hi.shutdown _
  | require other =>
    cases hs
    exact hi.health (TaskHealth.sameEntries_require s.health name other)
  | other other u =>
    simp only [Supervisor.step] at hs
    split_ifs at hs with hne
    cases hs
    exact hi.health (TaskHealth.sameEntries_record hne s.health u)

/-- The invariant holds in every state of every run. -/
theorem inv_of_reachable (hle : backoff.initial ≤ backoff.max)
    (hs : Supervisor.Reachable name backoff s) : Inv name backoff s := by
  obtain ⟨shutdown, es, hrun⟩ := hs
  exact run_invariant (fun s e t hstep hi => hi.step hle hstep) hrun (inv_start backoff shutdown)

theorem Inv.oneChild (hi : Inv name backoff s) : s.children.count .running ≤ 1 := by
  by_contra htwo
  have hdup := List.duplicate_iff_two_le_count.mpr (by omega : 2 ≤ s.children.count .running)
  obtain ⟨m, n, hlt, hm, hn⟩ := List.duplicate_iff_exists_distinct_get.mp hdup
  have hchildm := hi.child m (List.getElem?_eq_some_iff.mpr ⟨m.isLt, hm.symm⟩)
  have hchildn := hi.child n (List.getElem?_eq_some_iff.mpr ⟨n.isLt, hn.symm⟩)
  have heq : m.val = n.val := Option.some.inj (hchildm.symm.trans hchildn)
  omega

theorem Inv.markedRunning (hi : Inv name backoff s)
    (h : .running ∈ s.children ∨ childUnhandled s.log = true) :
    s.health.running name = some true := by
  apply hi.running.mpr
  have hholds : s.pc.holds = true := by
    rcases h with hmem | hunhandled
    · obtain ⟨i, hlt, hget⟩ := List.mem_iff_getElem.mp hmem
      have hchild := hi.child i (List.getElem?_eq_some_iff.mpr ⟨hlt, hget⟩)
      cases hpc : s.pc with
      | waiting _ _ _ => rfl
      | draining _ => rfl
      | _ =>
        rw [hpc] at hchild
        cases hchild
    · rw [← hi.unhandled]
      exact hunhandled
  unfold Pc.marked
  rw [hholds, Bool.or_true]

theorem Inv.notRunning (hi : Inv name backoff s) (hpc : s.pc = .returned) :
    s.health.running name ≠ some true := by
  intro hrunning
  have hmarked := hi.running.mp hrunning
  rw [hpc] at hmarked
  cases hmarked

/-- A task switched off by its configuration is not listed as dead. -/
theorem Inv.notDead (hi : Inv name backoff s) {reason : String}
    (hmem : .handled (.disabledByConfig reason) ∈ s.log) : name ∉ s.health.deadRequiredTasks := by
  intro hdead
  have hnone := (TaskHealth.mem_deadRequiredTasks.mp hdead).2.1
  have hsome := hi.counted.disabled reason hmem
  rw [hnone] at hsome
  cases hsome

/-- Words count exactly below their size. -/
theorem toNat_eq_iff {size : ℕ} (m n : ℕ) (hlt : m < size) (h : m = n % size) :
    m = n ↔ n < size := by
  constructor
  · intro heq
    rw [← heq]
    exact hlt
  · intro hn
    rw [h, Nat.mod_eq_of_lt hn]

theorem Inv.correct_iff (hi : Inv name backoff s) : Correct name backoff s ↔
    restartsHandled s.log < 2 ^ 64 ∧ panicsSinceStable s.log < 2 ^ 32 := by
  have hrestarts := toNat_eq_iff _ _ (UInt64.toNat_lt _) hi.counted.restarts
  have hfailures := toNat_eq_iff _ _ (UInt32.toNat_lt _) hi.counted.consecutiveFailures
  constructor
  · intro hc
    exact ⟨hrestarts.mp hc.restarts, hfailures.mp hc.consecutiveFailures⟩
  · intro hlt
    constructor
    · exact hi.oneChild
    · exact hi.exits.pre
    · exact hi.markedRunning
    · exact hi.notRunning
    · exact hi.ordered.final
    · exact hrestarts.mpr hlt.1
    · exact hi.ordered.afterWait
    · exact hi.counted.delays
    · exact hfailures.mpr hlt.2
    · intro reason hmem
      exact hi.notDead hmem

end

/-- The supervisor is correct in every state of every run, up to the sizes of its two counters. -/
theorem supervisor_correct_iff (name : String) {backoff : Backoff}
    (hle : backoff.initial ≤ backoff.max) {s : Supervisor}
    (hs : Supervisor.Reachable name backoff s) :
    Correct name backoff s ↔ restartsHandled s.log < 2 ^ 64 ∧ panicsSinceStable s.log < 2 ^ 32 :=
  (inv_of_reachable hle hs).correct_iff

def panicThenDisabled : List Event :=
  [.require "poller", .poll, .poll, .ends 0 .panic, .poll, .poll, .elapse, .poll, .poll, .poll,
    .ends 1 (.disabledByConfig "no wallet"), .poll, .poll]

/-- The run is over, with one restart counted. -/
theorem supervisor_correct_panicThenDisabled :
    ∃ s, Supervisor.Reachable "poller" .default s ∧ s.pc = .returned ∧
      s.health.restartsOf "poller" = 1 ∧
      (Correct "poller" .default s ↔
        restartsHandled s.log < 2 ^ 64 ∧ panicsSinceStable s.log < 2 ^ 32) := by
  obtain ⟨s, hrun, hpc, hone⟩ := exists_of_run (Supervisor.step "poller" .default)
    (Supervisor.start .default ⟨false, false, false⟩) panicThenDisabled
    (P := fun s => s.pc = .returned ∧ s.health.restartsOf "poller" = 1) (by decide +kernel)
  have hs : Supervisor.Reachable "poller" .default s := ⟨_, _, hrun⟩
  exact ⟨s, hs, hpc, hone, supervisor_correct_iff "poller" (by decide) hs⟩

/-! A task that panics at each start. -/
section
variable (name : String) (backoff : Backoff)

def crash (child : ℕ) : List Event :=
  [.poll, .poll, .ends child .panic, .poll, .poll, .elapse, .poll]

theorem run_crash (delay : Duration) (h : TaskHealth) (children : List Child) (log : List Action) :
    run (Supervisor.step name backoff) ⟨.top, delay, h, ⟨false, false, false⟩, children, log⟩
        (crash children.length) =
      some ⟨.top, min (delay.saturatingMul 2) backoff.max,
        ((h.taskStarted name).taskFailed name).taskRestarted name, ⟨false, false, false⟩,
        children ++ [.ended .panic], .waits delay :: .handled .panic :: .started :: log⟩ := by
  simp [run, crash, Supervisor.step, Supervisor.poll, Supervisor.elapse, Supervisor.handle,
    Supervisor.restart, Supervisor.did, Watch.ready]

theorem reachable_after_panics (n : ℕ) :
    ∃ delay h children log, panicsSinceStable log = n ∧
      Supervisor.Reachable name backoff ⟨.top, delay, h, ⟨false, false, false⟩, children, log⟩ := by
  induction n with
  | zero => exact ⟨backoff.initial, .new, [], [], rfl, ⟨false, false, false⟩, [], rfl⟩
  | succ n ih =>
    obtain ⟨delay, h, children, log, hn, shutdown, es, hrun⟩ := ih
    have hcrash := run_append hrun (run_crash name backoff delay h children log)
    refine ⟨_, _, _, _, ?_, shutdown, _, hcrash⟩
    show panicsSinceStable log + 1 = n + 1
    rw [hn]

end

def Backoff.eager : Backoff := ⟨.ofSecs 0, .ofSecs 0, .ofSecs 5⟩

/-- After 2 ^ 32 panics in a row the task counts none, and is not listed as crash-looping. -/
theorem forgets_panics :
    ∃ s, Supervisor.Reachable "poller" .eager s ∧ panicsSinceStable s.log = 2 ^ 32 ∧
      "poller" ∉ s.health.crashLoopingRequiredTasks ∧ ¬ Correct "poller" .eager s := by
  obtain ⟨delay, h, children, log, hn, hs⟩ := reachable_after_panics "poller" .eager (2 ^ 32)
  have hi := inv_of_reachable (by decide) hs
  have hcounted := hi.counted.consecutiveFailures
  rw [show panicsSinceStable _ = 2 ^ 32 from hn, Nat.mod_self] at hcounted
  have hzero : h.consecutiveFailuresOf "poller" = 0 := UInt32.toNat_inj.mp hcounted
  refine ⟨_, hs, hn, ?_, ?_⟩
  · intro hlisted
    have hge := (TaskHealth.mem_crashLoopingRequiredTasks.mp hlisted).2
    rw [show TaskHealth.consecutiveFailuresOf _ "poller" = 0 from hzero] at hge
    exact absurd hge (by decide)
  · intro hc
    have heq := hc.consecutiveFailures
    rw [show panicsSinceStable _ = 2 ^ 32 from hn, hcounted] at heq
    exact absurd heq (by decide)

end Supervise
end StellarGate
