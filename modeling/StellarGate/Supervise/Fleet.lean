import StellarGate.Base.Pool
import StellarGate.Supervise.Correct
import StellarGate.Supervise.Workers

/-! The supervisors that `main` of `src/main.rs` spawns, with their tasks, over one
`TaskHealth` and one shutdown channel. Each of them goes through the steps of a supervisor
that runs beside others. What a poll tells the health is one step here, and is taken apart
into its statements by `Process`. -/
namespace StellarGate
namespace Supervise
open Base

structure Member where
  name : String
  loop : Loop
  pc : Pc
  delay : Duration
  shutdown : Watch
  workers : List Worker
  log : List Action

namespace Member

def under (h : TaskHealth) (m : Member) : Supervisor :=
  ⟨m.pc, m.delay, h, m.shutdown, m.workers.map Worker.child, m.log⟩

def become (m : Member) (s : Supervisor) (workers : List Worker) : Member :=
  { m with pc := s.pc, delay := s.delay, shutdown := s.shutdown, workers, log := s.log }

/-- As `supervise` spawns it, with the default backoff. -/
def spawn (name : String) (loop : Loop) : Member :=
  ⟨name, loop, .top, Backoff.default.initial, ⟨false, false, false⟩, [], []⟩

/-- What a receiver of every part of the member gets to know. -/
def notify (f : Watch → Watch) (m : Member) : Member :=
  { m with
    shutdown := f m.shutdown
    workers := m.workers.map fun w => { w with shutdown := f w.shutdown } }

theorem under_notify (h : TaskHealth) (f : Watch → Watch) (m : Member) :
    (m.notify f).under h = { m.under h with shutdown := f m.shutdown } := by
  unfold notify under
  rw [List.map_map]
  rfl

end Member

/-- The fleet. `channel` is the receiver that the tasks get their copies of. -/
structure Fleet where
  health : TaskHealth
  channel : Watch
  members : List Member

inductive FleetEvent where
  | poll (i : ℕ)
  | elapse (i : ℕ)
  | work (i k : ℕ) (e : WorkerEvent)
  | send (value : Bool)
  | close
  deriving DecidableEq, Repr

namespace Fleet

/-- A supervisor is polled. At its spawn the task gets its receiver. -/
def poll (f : Fleet) (i : ℕ) (m : Member) : Fleet :=
  let s := (m.under f.health).poll m.name .default
  let workers := if m.pc = .spawning then m.workers ++ [Worker.spawn f.channel] else m.workers
  { f with health := s.health, members := f.members.set i (m.become s workers) }

def notify (f : Fleet) (g : Watch → Watch) : Fleet :=
  { f with channel := g f.channel, members := f.members.map (Member.notify g) }

def step (f : Fleet) : FleetEvent → Option Fleet
  | .poll i =>
    match f.members[i]? with
    | none => none
    | some m => some (f.poll i m)
  | .elapse i =>
    match f.members[i]? with
    | none => none
    | some m =>
      match (m.under f.health).elapse with
      | none => none
      | some s => some { f with members := f.members.set i (m.become s m.workers) }
  | .work i k e =>
    match f.members[i]? with
    | none => none
    | some m =>
      match m.workers[k]? with
      | none => none
      | some w =>
        match w.step m.loop e with
        | none => none
        | some w' =>
          some { f with members := f.members.set i { m with workers := m.workers.set k w' } }
  | .send value => if f.channel.closed then none else some (f.notify (·.send value))
  | .close => some (f.notify Watch.close)

/-- What `main` spawns. -/
def spawned (config : Config) (delivery : DeliveryConfig) (mode : ListenerMode) : List Member :=
  (if mode = .stream then [Member.spawn "stream" (runStreamListener config)] else []) ++
    [Member.spawn "poller" (runPoller config), Member.spawn "sweeper" runSweeper,
      Member.spawn "retention" (runRetentionWorker delivery),
      Member.spawn "redrive" runRedriveWorker]

/-- What `main` declares as required. -/
def required (config : Config) (mode : ListenerMode) : List String :=
  (if config.gatewayConfigured then "poller" :: if mode = .stream then ["stream"] else []
    else []) ++ ["sweeper", "retention", "redrive"]

/-- The fleet as `main` starts it. -/
def boot (config : Config) (delivery : DeliveryConfig) (mode : ListenerMode) : Fleet :=
  ⟨(required config mode).foldl TaskHealth.require .new, ⟨false, false, false⟩,
    spawned config delivery mode⟩

def Booted (config : Config) (delivery : DeliveryConfig) (mode : ListenerMode) (f : Fleet) : Prop :=
  ∃ es, run step (boot config delivery mode) es = some f

section
variable {name : String} {backoff : Backoff} {s t : Supervisor}

/-- From one state of a supervisor to a later one. -/
def Leads (name : String) (s t : Supervisor) : Prop :=
  ∃ es, run (Supervisor.step name .default) s es = some t

theorem Leads.refl (name : String) (s : Supervisor) : Leads name s s := ⟨[], rfl⟩

theorem Leads.trans {u : Supervisor} (h : Leads name s t) (h' : Leads name t u) :
    Leads name s u := by
  obtain ⟨es, hes⟩ := h
  obtain ⟨fs, hfs⟩ := h'
  exact ⟨es ++ fs, run_append hes hfs⟩

theorem reachable_leads (h : Supervisor.Reachable name .default s) (hl : Leads name s t) :
    Supervisor.Reachable name .default t := by
  obtain ⟨shutdown, es, hes⟩ := h
  obtain ⟨fs, hfs⟩ := hl
  exact ⟨shutdown, es ++ fs, run_append hes hfs⟩

theorem leads_of_step {e : Supervise.Event} (h : s.step name .default e = some t) :
    Leads name s t :=
  ⟨[e], run_cons.mpr ⟨t, h, rfl⟩⟩

/-- All that is written for other tasks can be taken as events of the supervisor. -/
theorem leads_others {other : String} (hne : name ≠ other) (us : List TaskHealth.Update)
    (s : Supervisor) :
    Leads name s { s with health := us.foldl (fun h u => h.record other u) s.health } := by
  induction us generalizing s with
  | nil => exact Leads.refl name s
  | cons u us ih =>
    have hstep : s.step name .default (.other other u) =
      some { s with health := s.health.record other u } :=
      if_neg hne
    exact (leads_of_step hstep).trans (ih { s with health := s.health.record other u })

theorem leads_requires (names : List String) (s : Supervisor) :
    Leads name s { s with health := names.foldl TaskHealth.require s.health } := by
  induction names generalizing s with
  | nil => exact Leads.refl name s
  | cons other names ih =>
    have hstep : s.step name .default (.require other) =
      some { s with health := s.health.require other } := rfl
    exact (leads_of_step hstep).trans (ih { s with health := s.health.require other })

/-- What a poll does, with all that is known where it does so. -/
inductive Polled (name : String) (backoff : Backoff) (s : Supervisor) : Supervisor → Prop where
  | stopsAtTop (hpc : s.pc = .top) (hvalue : s.shutdown.value = true) :
    Polled name backoff s ((s.did .observed).finish name)
  | marks (hpc : s.pc = .top) (hvalue : s.shutdown.value = false) :
    Polled name backoff s { s with health := s.health.taskStarted name, pc := .spawning }
  | spawns (hpc : s.pc = .spawning) :
    Polled name backoff s
      { s with
        children := s.children ++ [.running]
        pc := .waiting s.children.length false false
        log := .started :: s.log }
  | observes {child : ℕ} {stable elapsed : Bool} (hpc : s.pc = .waiting child stable elapsed)
      (hready : s.shutdown.ready = true) :
    Polled name backoff s
      { s with shutdown := s.shutdown.seen, pc := .draining child, log := .observed :: s.log }
  | settles {child : ℕ} (hpc : s.pc = .waiting child false true)
    (hready : s.shutdown.ready = false) :
    Polled name backoff s
      { s with
        health := s.health.noteStable name
        pc := .waiting child true false
        log := .stable :: s.log }
  | joins {child : ℕ} {stable elapsed : Bool} {o : Outcome}
      (hpc : s.pc = .waiting child stable elapsed) (hready : s.shutdown.ready = false)
      (hended : s.children[child]? = some (.ended o)) (hsettled : (!stable && elapsed) = false) :
    Polled name backoff s { s with pc := .joined o }
  | waits {child : ℕ} {stable elapsed : Bool} (hpc : s.pc = .waiting child stable elapsed)
      (hready : s.shutdown.ready = false) (hruns : ∀ o, s.children[child]? ≠ some (.ended o))
      (hsettled : (!stable && elapsed) = false) :
    Polled name backoff s s
  | drained {child : ℕ} {o : Outcome} (hpc : s.pc = .draining child)
    (hended : s.children[child]? = some (.ended o)) :
    Polled name backoff s (s.finish name)
  | drains {child : ℕ} (hpc : s.pc = .draining child)
    (hruns : ∀ o, s.children[child]? ≠ some (.ended o)) :
    Polled name backoff s s
  | stopsAtJoin {o : Outcome} (hpc : s.pc = .joined o) (hvalue : s.shutdown.value = true) :
    Polled name backoff s ((s.did .observed).finish name)
  | ends {o : Outcome} (hpc : s.pc = .joined o) (hvalue : s.shutdown.value = false)
      (ho : o = .shutdownRequested ∨ o = .cancelled) :
    Polled name backoff s ((s.did (.handled o)).finish name)
  | switchesOff {reason : String} (hpc : s.pc = .joined (.disabledByConfig reason))
      (hvalue : s.shutdown.value = false) :
    Polled name backoff s
      { s with
        health := s.health.taskDisabled name reason
        pc := .returned
        log := .returned :: .handled (.disabledByConfig reason) :: s.log }
  | fatal {reason : String} (hpc : s.pc = .joined (.fatal reason))
    (hvalue : s.shutdown.value = false) :
    Polled name backoff s
      (({ s with health := s.health.taskStopped name }.did (.handled (.fatal reason))).restart name)
  | panic (hpc : s.pc = .joined .panic) (hvalue : s.shutdown.value = false) :
    Polled name backoff s (({ s with health := s.health.taskFailed name }.did
      (.handled .panic)).restart name)
  | stopsAsleep {elapsed : Bool} (hpc : s.pc = .sleeping elapsed)
    (hready : s.shutdown.ready = true) :
    Polled name backoff s (({ s with shutdown := s.shutdown.seen }.did .observed).finish name)
  | retries (hpc : s.pc = .sleeping true) (hready : s.shutdown.ready = false) :
    Polled name backoff s { s with delay := min (s.delay.saturatingMul 2) backoff.max, pc := .top }
  | sleeps (hpc : s.pc = .sleeping false) (hready : s.shutdown.ready = false) :
    Polled name backoff s s
  | returned (hpc : s.pc = .returned) : Polled name backoff s s

theorem polled (name : String) (backoff : Backoff) (s : Supervisor) :
    Polled name backoff s (s.poll name backoff) := by
  unfold Supervisor.poll
  cases hpc : s.pc with
  | top =>
    simp only
    split_ifs with hvalue
    · exact .stopsAtTop hpc hvalue
    · exact .marks hpc (by simpa using hvalue)
  | spawning => exact .spawns hpc
  | waiting child stable elapsed =>
    simp only
    split_ifs with hready hsettled
    · exact .observes hpc hready
    · obtain ⟨rfl, rfl⟩ : stable = false ∧ elapsed = true := by simpa using hsettled
      exact .settles hpc (by simpa using hready)
    · have hsettled : (!stable && elapsed) = false := by simpa using hsettled
      split
      · rename_i o hended
        exact .joins hpc (by simpa using hready) hended hsettled
      · rename_i hruns
        exact .waits hpc (by simpa using hready) hruns hsettled
  | draining child =>
    simp only
    split
    · rename_i o hended
      exact .drained hpc hended
    · rename_i hruns
      exact .drains hpc hruns
  | joined o =>
    simp only
    split_ifs with hvalue
    · exact .stopsAtJoin hpc hvalue
    · have hvalue : s.shutdown.value = false := by simpa using hvalue
      cases o with
      | shutdownRequested => exact .ends hpc hvalue (.inl rfl)
      | disabledByConfig reason => exact .switchesOff hpc hvalue
      | fatal reason => exact .fatal hpc hvalue
      | panic => exact .panic hpc hvalue
      | cancelled => exact .ends hpc hvalue (.inr rfl)
  | sleeping elapsed =>
    simp only
    split_ifs with hready helapsed
    · exact .stopsAsleep hpc hready
    · subst helapsed
      exact .retries hpc (by simpa using hready)
    · have helapsed : elapsed = false := by simpa using helapsed
      subst helapsed
      exact .sleeps hpc (by simpa using hready)
  | returned => exact .returned hpc

/-- What a poll does does not depend on the health, to which it only writes,
and about its own task. -/
theorem poll_under (s : Supervisor) (name : String) (backoff : Backoff) (h : TaskHealth) :
    ({ s with health := h } : Supervisor).poll name backoff =
      { s.poll name backoff with health := s.tells.foldl (fun h u => h.record name u) h } := by
  have hpolled := polled name backoff s
  generalize s.poll name backoff = t at hpolled ⊢
  unfold Supervisor.poll Supervisor.tells
  cases hpolled with
  | stopsAtTop hpc hvalue | marks hpc hvalue | stopsAtJoin hpc hvalue | switchesOff hpc hvalue
  | fatal hpc hvalue | panic hpc hvalue =>
    simp only [hpc, hvalue]
    rfl
  | spawns hpc | drains hpc | returned hpc =>
    simp only [hpc]
    rfl
  | observes hpc hready | settles hpc hready | stopsAsleep hpc hready | retries hpc hready
  | sleeps hpc hready =>
    simp only [hpc, hready]
    rfl
  | joins hpc hready hended hsettled =>
    simp only [hpc, hready, hsettled, hended]
    rfl
  | waits hpc hready hruns hsettled =>
    simp only [hpc, hready, hsettled]
    rfl
  | drained hpc hended =>
    simp only [hpc, hended]
    rfl
  | ends hpc hvalue ho => rcases ho with rfl | rfl <;> simp only [hpc, hvalue] <;> rfl

theorem poll_health (s : Supervisor) (name : String) (backoff : Backoff) :
    (s.poll name backoff).health = s.tells.foldl (fun h u => h.record name u) s.health :=
  congrArg Supervisor.health (poll_under s name backoff s.health)

end

section
variable {f g : Fleet} {e : FleetEvent} {i j : ℕ} {m : Member}

/-- A poll spawns a child at the spawn and nowhere else. -/
theorem poll_children (m : Member) (h : TaskHealth) (channel : Watch) :
    ((m.under h).poll m.name .default).children =
      (if m.pc = .spawning then m.workers ++ [Worker.spawn channel] else m.workers).map
        Worker.child := by
  have hunder : (m.under h).pc = m.pc := rfl
  have hpolled := polled m.name .default (m.under h)
  generalize (m.under h).poll m.name .default = t at hpolled ⊢
  cases hpolled with
  | spawns hpc =>
    rw [if_pos (hunder.symm.trans hpc), List.map_append]
    rfl
  | _ hpc =>
    rw [if_neg (by rw [← hunder, hpc]; exact fun h => by cases h)]
    rfl

theorem Worker.child_of_step {l : Loop} {w w' : Worker} {e : WorkerEvent}
    (h : w.step l e = some w') :
    w.child = .running := by
  unfold Worker.child
  cases Worker.turn_of_step h with
  | panics hpc => rcases hpc with hpc | hpc <;> rw [hpc]
  | _ hpc => rw [hpc]

theorem Worker.shutdown_of_step {l : Loop} {w w' : Worker} {e : WorkerEvent}
    (h : w.step l e = some w') :
    w'.shutdown = w.shutdown := by
  cases Worker.turn_of_step h <;> rfl

theorem Worker.pc_of_child {w : Worker} {o : Outcome} (h : w.child = .ended o) :
    w.pc = .ended o := by
  unfold Worker.child at h
  split at h
  · rename_i o' hpc
    cases h
    exact hpc
  · cases h

/-- Who has not seen a shutdown yet sees what the channel shows, and the tasks all do. -/
structure Synced (f : Fleet) : Prop where
  active : ∀ m ∈ f.members, m.pc.active = true → m.shutdown = f.channel
  closed : ∀ m ∈ f.members, m.shutdown.closed = f.channel.closed
  value : ∀ m ∈ f.members, m.shutdown.value = f.channel.value
  workers : ∀ m ∈ f.members, ∀ w ∈ m.workers, w.shutdown = f.channel

theorem poll_shutdown (s : Supervisor) (name : String) (backoff : Backoff) :
    ((s.poll name backoff).pc.active = true → s.pc.active = true ∧
      (s.poll name backoff).shutdown = s.shutdown) ∧
      (s.poll name backoff).shutdown.closed = s.shutdown.closed ∧
      (s.poll name backoff).shutdown.value = s.shutdown.value := by
  have hpolled := polled name backoff s
  generalize s.poll name backoff = t at hpolled ⊢
  cases hpolled with
  | waits | drains | sleeps | returned => exact ⟨fun h => ⟨h, rfl⟩, rfl, rfl⟩
  | stopsAtTop | observes | drained | stopsAtJoin | ends | switchesOff | stopsAsleep =>
    exact ⟨fun h => (by cases h), rfl, rfl⟩
  | _ hpc => exact ⟨fun _ => ⟨by rw [hpc]; rfl, rfl⟩, rfl, rfl⟩

theorem elapse_eq {s t : Supervisor} (h : s.elapse = some t) :
    ∃ pc, t = { s with pc := pc } ∧
      ((∃ c b, s.pc = .waiting c false b ∧ pc = .waiting c false true) ∨ ∃ b, s.pc = .sleeping b ∧
        pc = .sleeping true) := by
  unfold Supervisor.elapse at h
  split at h
  · rename_i c b hpc
    cases h
    exact ⟨_, rfl, .inl ⟨c, b, hpc, rfl⟩⟩
  · rename_i b hpc
    cases h
    exact ⟨_, rfl, .inr ⟨b, hpc, rfl⟩⟩
  · cases h

theorem step_poll (h : f.step (.poll i) = some g) :
    ∃ m, f.members[i]? = some m ∧ g = f.poll i m := by
  simp only [step] at h
  split at h
  · cases h
  · rename_i m hm
    cases h
    exact ⟨m, hm, rfl⟩

theorem step_elapse (h : f.step (.elapse i) = some g) :
    ∃ m pc, f.members[i]? = some m ∧ g = { f with members := f.members.set i { m with pc := pc } } ∧
      (m.under f.health).elapse = some { m.under f.health with pc := pc } ∧
      ((∃ c b, m.pc = .waiting c false b ∧ pc = .waiting c false true) ∨ ∃ b, m.pc = .sleeping b ∧
        pc = .sleeping true) := by
  simp only [step] at h
  split at h
  · cases h
  · rename_i m hm
    split at h
    · cases h
    · rename_i s hs
      cases h
      obtain ⟨pc, rfl, hpc⟩ := elapse_eq hs
      exact ⟨m, pc, hm, rfl, hs, hpc⟩

theorem step_work {k : ℕ} {ev : WorkerEvent} (h : f.step (.work i k ev) = some g) :
    ∃ m w w', f.members[i]? = some m ∧ m.workers[k]? = some w ∧ w.step m.loop ev = some w' ∧
      g = { f with members := f.members.set i { m with workers := m.workers.set k w' } } := by
  simp only [step] at h
  split at h
  · cases h
  · rename_i m hm
    split at h
    · cases h
    · rename_i w hw
      split at h
      · cases h
      · rename_i w' hw'
        cases h
        exact ⟨m, w, w', hm, hw, hw', rfl⟩

theorem step_send {value : Bool} (h : f.step (.send value) = some g) :
    f.channel.closed = false ∧ g = f.notify (·.send value) := by
  simp only [step] at h
  split_ifs at h with hclosed
  cases h
  exact ⟨by simpa using hclosed, rfl⟩

/-- Every member keeps its name and its loop. -/
theorem step_kept (h : f.step e = some g) :
    g.members.map (fun m => (m.name, m.loop)) = f.members.map fun m => (m.name, m.loop) := by
  cases e with
  | poll i =>
    obtain ⟨m, hm, rfl⟩ := step_poll h
    exact map_set_of_eq hm rfl
  | elapse i =>
    obtain ⟨m, pc, hm, rfl, -⟩ := step_elapse h
    exact map_set_of_eq hm rfl
  | work i k ev =>
    obtain ⟨m, w, w', hm, -, -, rfl⟩ := step_work h
    exact map_set_of_eq hm rfl
  | send value =>
    obtain ⟨-, rfl⟩ := step_send h
    exact List.map_map
  | close =>
    cases h
    exact List.map_map

theorem step_names (h : f.step e = some g) :
    g.members.map Member.name = f.members.map Member.name := by
  have hkept := congrArg (List.map Prod.fst) (step_kept h)
  rwa [List.map_map, List.map_map] at hkept

theorem Synced.notify (h : f.Synced) {w : Watch → Watch}
    (hclosed : ∀ x y : Watch, x.closed = y.closed → (w x).closed = (w y).closed)
    (hvalue : ∀ x y : Watch, x.value = y.value → (w x).value = (w y).value) :
    (f.notify w).Synced := by
  constructor
  · intro m' hm' hactive
    obtain ⟨m, hm, rfl⟩ := List.mem_map.mp hm'
    exact congrArg w (h.active m hm hactive)
  · intro m' hm'
    obtain ⟨m, hm, rfl⟩ := List.mem_map.mp hm'
    exact hclosed _ _ (h.closed m hm)
  · intro m' hm'
    obtain ⟨m, hm, rfl⟩ := List.mem_map.mp hm'
    exact hvalue _ _ (h.value m hm)
  · intro m' hm' x' hx'
    obtain ⟨m, hm, rfl⟩ := List.mem_map.mp hm'
    obtain ⟨x, hx, rfl⟩ := List.mem_map.mp hx'
    exact congrArg w (h.workers m hm x hx)

theorem Synced.step (hs : f.Synced) (h : f.step e = some g) : g.Synced := by
  cases e with
  | poll i =>
    obtain ⟨m, hm, rfl⟩ := step_poll h
    have hin := List.mem_of_getElem? hm
    obtain ⟨hactive, hclosed, hvalue⟩ := poll_shutdown (m.under f.health) m.name .default
    constructor
    · refine Machine.forall_mem_set hs.active fun ha => ?_
      obtain ⟨hold, hsame⟩ := hactive ha
      exact hsame.trans (hs.active m hin hold)
    · exact Machine.forall_mem_set hs.closed (hclosed.trans (hs.closed m hin))
    · exact Machine.forall_mem_set hs.value (hvalue.trans (hs.value m hin))
    · refine Machine.forall_mem_set hs.workers ?_
      intro w hw
      simp only [Member.become] at hw
      split_ifs at hw
      · rcases List.mem_append.mp hw with hw | hw
        · exact hs.workers m hin w hw
        · rw [List.mem_singleton.mp hw]
          rfl
      · exact hs.workers m hin w hw
  | elapse i =>
    obtain ⟨m, pc, hm, rfl, -, hpc⟩ := step_elapse h
    have hin := List.mem_of_getElem? hm
    constructor
    · refine Machine.forall_mem_set hs.active fun _ => hs.active m hin ?_
      rcases hpc with ⟨c, b, hold, -⟩ | ⟨b, hold, -⟩ <;> rw [hold] <;> rfl
    · exact Machine.forall_mem_set hs.closed (hs.closed m hin)
    · exact Machine.forall_mem_set hs.value (hs.value m hin)
    · exact Machine.forall_mem_set hs.workers (hs.workers m hin)
  | work i k ev =>
    obtain ⟨m, w, w', hm, hw, hw', rfl⟩ := step_work h
    have hin := List.mem_of_getElem? hm
    constructor
    · exact Machine.forall_mem_set hs.active (hs.active m hin)
    · exact Machine.forall_mem_set hs.closed (hs.closed m hin)
    · exact Machine.forall_mem_set hs.value (hs.value m hin)
    · refine Machine.forall_mem_set hs.workers (Machine.forall_mem_set (hs.workers m hin) ?_)
      rw [Worker.shutdown_of_step hw']
      exact hs.workers m hin w (List.mem_of_getElem? hw)
  | send value =>
    obtain ⟨-, rfl⟩ := step_send h
    exact hs.notify (fun _ _ h => h) fun _ _ _ => rfl
  | close =>
    cases h
    exact hs.notify (fun _ _ _ => rfl) fun _ _ h => h

def Named (f : Fleet) : Prop := (f.members.map Member.name).Nodup

theorem Named.step (hn : f.Named) (h : f.step e = some g) : g.Named := by
  unfold Named
  rw [step_names h]
  exact hn

theorem Named.ne (hn : f.Named) {m' : Member} (hm : f.members[i]? = some m)
    (hm' : f.members[j]? = some m') (hij : i ≠ j) : m'.name ≠ m.name := by
  intro heq
  have hi : (f.members.map Member.name)[i]? = some m.name := by rw [List.getElem?_map, hm]; rfl
  have hj : (f.members.map Member.name)[j]? = some m.name := by
    rw [List.getElem?_map, hm', ← heq]; rfl
  have hlt := (List.getElem?_eq_some_iff.mp hi).1
  exact hij ((List.getElem?_inj hlt hn).mp (hi.trans hj.symm))

/-- A step of the fleet is, for each member, no step or steps of its supervisor. -/
theorem step_leads (hs : f.Synced) (hn : f.Named) (h : f.step e = some g)
    (hm : f.members[j]? = some m) :
    ∃ m', g.members[j]? = some m' ∧ m'.name = m.name ∧ m'.loop = m.loop ∧
      Leads m.name (m.under f.health) (m'.under g.health) := by
  have hlt := (List.getElem?_eq_some_iff.mp hm).1
  cases e with
  | poll i =>
    obtain ⟨p, hp, rfl⟩ := step_poll h
    by_cases hij : i = j
    · subst hij
      cases Option.some.inj (hm.symm.trans hp)
      refine ⟨_, List.getElem?_set_self hlt, rfl, rfl, leads_of_step (e := .poll) ?_⟩
      have hchildren := poll_children m f.health f.channel
      simp only [Supervisor.step, Member.become, Member.under, poll] at hchildren ⊢
      rw [← hchildren]
    · refine ⟨m, (List.getElem?_set_ne hij).trans hm, rfl, rfl, ?_⟩
      have hothers := leads_others (hn.ne hp hm hij) (p.under f.health).tells (m.under f.health)
      simp only [poll, poll_health]
      exact hothers
  | elapse i =>
    obtain ⟨p, pc, hp, rfl, helapse, -⟩ := step_elapse h
    by_cases hij : i = j
    · subst hij
      cases Option.some.inj (hm.symm.trans hp)
      exact ⟨_, List.getElem?_set_self hlt, rfl, rfl, leads_of_step (e := .elapse) helapse⟩
    · exact ⟨m, (List.getElem?_set_ne hij).trans hm, rfl, rfl, Leads.refl _ _⟩
  | work i k ev =>
    obtain ⟨p, w, w', hp, hw, hw', rfl⟩ := step_work h
    by_cases hij : i = j
    · subst hij
      cases Option.some.inj (hm.symm.trans hp)
      have hrunning := Worker.child_of_step hw'
      refine ⟨_, List.getElem?_set_self hlt, rfl, rfl, ?_⟩
      cases hchild : w'.child with
      | running =>
        have hsame := map_set_of_eq (v := Worker.child) hw (hchild.trans hrunning.symm)
        simp only [Member.under, hsame]
        exact Leads.refl _ _
      | ended o =>
        have hget : (m.workers.map Worker.child)[k]? = some .running := by
          rw [List.getElem?_map, hw, ← hrunning]
          rfl
        have hends : (m.under f.health).step m.name .default (.ends k o) =
            some { m.under f.health with
              children := (m.workers.map Worker.child).set k (.ended o) } := if_pos hget
        simp only [Member.under, List.map_set, hchild] at hends ⊢
        exact leads_of_step hends
    · exact ⟨m, (List.getElem?_set_ne hij).trans hm, rfl, rfl, Leads.refl _ _⟩
  | send value =>
    obtain ⟨hopen, rfl⟩ := step_send h
    have hmine : m.shutdown.closed = false := (hs.closed m (List.mem_of_getElem? hm)).trans hopen
    refine ⟨m.notify (·.send value), by rw [notify, List.getElem?_map, hm]; rfl, rfl, rfl, ?_⟩
    have hsend : (m.under f.health).step m.name .default (.send value) =
        some { m.under f.health with shutdown := m.shutdown.send value } :=
      if_neg (by rw [Member.under, hmine]; exact Bool.false_ne_true)
    rw [Member.under_notify]
    exact leads_of_step hsend
  | close =>
    cases h
    refine ⟨m.notify Watch.close, by rw [notify, List.getElem?_map, hm]; rfl, rfl, rfl, ?_⟩
    rw [Member.under_notify]
    exact leads_of_step (e := .close) rfl

/-- In every state of a run each member is a supervisor in a state of one of its own runs. -/
theorem reachable_of_run {es : List FleetEvent} (hs : f.Synced) (hn : f.Named)
    (hf : ∀ m ∈ f.members, Supervisor.Reachable m.name .default (m.under f.health))
    (hr : run step f es = some g) :
    g.Synced ∧ g.Named ∧ ∀ m ∈ g.members, Supervisor.Reachable m.name .default
      (m.under g.health) := by
  refine run_invariant (I := fun g => g.Synced ∧ g.Named ∧
    ∀ m ∈ g.members, Supervisor.Reachable m.name .default (m.under g.health)) ?_ hr ⟨hs, hn, hf⟩
  rintro f e g hstep ⟨hs, hn, hf⟩
  refine ⟨hs.step hstep, hn.step hstep, fun m' hm' => ?_⟩
  obtain ⟨j, hj⟩ := List.mem_iff_getElem?.mp hm'
  have hlength : g.members.length = f.members.length := by
    have hkept := congrArg List.length (step_kept hstep)
    rwa [List.length_map, List.length_map] at hkept
  have hlt : j < f.members.length := hlength ▸ (List.getElem?_eq_some_iff.mp hj).1
  obtain ⟨m, hm⟩ : ∃ m, f.members[j]? = some m := ⟨_, List.getElem?_eq_getElem hlt⟩
  obtain ⟨m'', hm'', hname, -, hleads⟩ := step_leads hs hn hstep hm
  cases Option.some.inj (hj.symm.trans hm'')
  rw [hname]
  exact reachable_leads (hf m (List.mem_of_getElem? hm)) hleads

end

section
variable {config : Config} {delivery : DeliveryConfig} {mode : ListenerMode} {f : Fleet}
  {m : Member}

theorem named_boot (config : Config) (delivery : DeliveryConfig) (mode : ListenerMode) :
    (boot config delivery mode).Named := by
  cases mode with
  | stream =>
    show ["stream", "poller", "sweeper", "retention", "redrive"].Nodup
    decide
  | poll =>
    show ["poller", "sweeper", "retention", "redrive"].Nodup
    decide

theorem eq_spawn_of_mem (hm : m ∈ spawned config delivery mode) :
    ∃ name loop, m = Member.spawn name loop := by
  unfold spawned at hm
  split_ifs at hm <;> simp only [List.mem_append, List.mem_cons, List.not_mem_nil, or_false,
    false_or] at hm <;> rcases hm with rfl | rfl | rfl | rfl | rfl <;> exact ⟨_, _, rfl⟩

theorem synced_boot (config : Config) (delivery : DeliveryConfig) (mode : ListenerMode) :
    (boot config delivery mode).Synced := by
  constructor
  · intro m hm _
    obtain ⟨name, loop, rfl⟩ := eq_spawn_of_mem hm
    rfl
  · intro m hm
    obtain ⟨name, loop, rfl⟩ := eq_spawn_of_mem hm
    rfl
  · intro m hm
    obtain ⟨name, loop, rfl⟩ := eq_spawn_of_mem hm
    rfl
  · intro m hm w hw
    obtain ⟨name, loop, rfl⟩ := eq_spawn_of_mem hm
    cases hw

theorem reachable_boot (hm : m ∈ spawned config delivery mode) :
    Supervisor.Reachable m.name .default (m.under (boot config delivery mode).health) := by
  obtain ⟨name, loop, rfl⟩ := eq_spawn_of_mem hm
  have hstart : Supervisor.Reachable name .default
    (Supervisor.start .default ⟨false, false, false⟩) := ⟨_, [], rfl⟩
  exact reachable_leads hstart (leads_requires (required config mode) _)

theorem Booted.synced (hf : Booted config delivery mode f) : f.Synced := by
  obtain ⟨es, hr⟩ := hf
  exact (reachable_of_run (synced_boot _ _ _) (named_boot _ _ _) (fun m hm => reachable_boot hm)
    hr).1

theorem Booted.named (hf : Booted config delivery mode f) : f.Named := by
  obtain ⟨es, hr⟩ := hf
  exact (reachable_of_run (synced_boot _ _ _) (named_boot _ _ _) (fun m hm => reachable_boot hm)
    hr).2.1

/-- Each member of a running fleet is a supervisor in a state of one of its own runs. -/
theorem Booted.reachable (hf : Booted config delivery mode f) (hm : m ∈ f.members) :
    Supervisor.Reachable m.name .default (m.under f.health) := by
  obtain ⟨es, hr⟩ := hf
  exact (reachable_of_run (synced_boot _ _ _) (named_boot _ _ _) (fun m hm => reachable_boot hm)
    hr).2.2 m hm

theorem Booted.inv (hf : Booted config delivery mode f) (hm : m ∈ f.members) :
    Inv m.name .default (m.under f.health) :=
  inv_of_reachable (by decide) (hf.reachable hm)

end

end Fleet
end Supervise
end StellarGate
