import StellarGate.Supervise.Probe

/-! Runs without a fault: no task panics or fails to build its client, and no shutdown is asked
for. Nothing is restarted, and the liveness probe has nothing to tell, but for the moment in
which a task is switched off. -/
namespace StellarGate
namespace Supervise
open Base

def WorkerEvent.calm : WorkerEvent → Bool
  | .panics | .begins (some _) => false
  | _ => true

def FleetEvent.calm : FleetEvent → Bool
  | .work _ _ e => e.calm
  | .send _ | .close => false
  | _ => true

def ProcessEvent.calm : ProcessEvent → Bool
  | .states _ => true
  | .fleet e => e.calm

def Pc.calm : Pc → Bool
  | .top | .spawning | .waiting _ _ _ | .joined _ | .returned => true
  | _ => false

/-- The exits there may be as long as nothing fails. -/
def Loop.SwitchesOff (l : Loop) (o : Outcome) : Prop :=
  ∃ reason, o = .disabledByConfig reason ∧ l.disabled = some reason

structure Member.Calm (m : Member) : Prop where
  shutdown : m.shutdown = ⟨false, false, false⟩
  workers : ∀ w ∈ m.workers, w.shutdown = ⟨false, false, false⟩ ∧
    ∀ o, w.pc = .ended o → m.loop.SwitchesOff o
  pc : m.pc.calm = true
  joined : ∀ o, m.pc = .joined o → m.loop.SwitchesOff o
  returned : switchedOff m.log = true ↔ m.pc = .returned
  exits : ∀ o ∈ exitsOf m.log, m.loop.SwitchesOff o
  unspawned : m.pc = .top ∨ m.pc = .spawning → m.workers = []

theorem Member.Calm.become {m : Member} (hm : m.Calm) {t : Supervisor} {workers : List Worker}
    (hreturned : m.pc ≠ .returned) (hstays : t.pc ≠ .returned) (hcalm : t.pc.calm = true)
    (hshutdown : t.shutdown = m.shutdown) (hlog : switchedOff t.log = switchedOff m.log)
    (hexits : exitsOf t.log = exitsOf m.log)
    (hjoined : ∀ o, t.pc = .joined o → m.loop.SwitchesOff o)
    (hworkers : ∀ w ∈ workers, w.shutdown = ⟨false, false, false⟩ ∧ ∀ o, w.pc = .ended o →
      m.loop.SwitchesOff o)
    (hunspawned : t.pc = .top ∨ t.pc = .spawning → workers = []) : (m.become t workers).Calm := by
  constructor
  · exact hshutdown.trans hm.shutdown
  · exact hworkers
  · exact hcalm
  · exact hjoined
  · refine iff_of_false (fun hoff => hreturned (hm.returned.mp ?_)) hstays
    exact hlog.symm.trans hoff
  · simp only [Member.become, hexits]
    exact hm.exits
  · exact hunspawned

namespace Fleet

section
variable {f g : Fleet} {e : FleetEvent} {i : ℕ} {m : Member}

theorem Worker.calm_of_step {l : Loop} {w w' : Worker} {e : WorkerEvent} (h : w.step l e = some w')
    (hw : w.shutdown = ⟨false, false, false⟩) (hcalm : e.calm = true) :
    w'.shutdown = ⟨false, false, false⟩ ∧ ∀ o, w'.pc = .ended o → l.SwitchesOff o := by
  refine ⟨(Worker.shutdown_of_step h).trans hw, ?_⟩
  have hready : w.shutdown.ready ≠ true := by rw [hw]; exact Bool.false_ne_true
  cases Worker.turn_of_step h with
  | disabled hpc hd =>
    rintro o ⟨⟩
    exact ⟨_, rfl, hd⟩
  | fatal hpc hbuilds => cases hcalm
  | pauses hpc hd hfirst | finishes hpc =>
    intro o ho
    unfold Worker.pausing at ho
    rw [if_neg hready] at ho
    cases ho
  | interrupts hpc hselects hnow => exact absurd hnow hready
  | observes hpc hnow => exact absurd hnow hready
  | panics hpc => cases hcalm
  | _ =>
    intro o ho
    cases ho

theorem calm_poll (hm : m.Calm) (h : TaskHealth) {channel : Watch}
    (hchannel : channel = ⟨false, false, false⟩) :
    (m.become ((m.under h).poll m.name .default)
      (if m.pc = .spawning then m.workers ++ [Worker.spawn channel] else m.workers)).Calm := by
  have hshutdown : (m.under h).shutdown = ⟨false, false, false⟩ := hm.shutdown
  have hcalm : (m.under h).pc.calm = true := hm.pc
  have hpolled := polled m.name .default (m.under h)
  generalize (m.under h).poll m.name .default = t at hpolled ⊢
  cases hpolled with
  | marks hpc hvalue =>
    have hpc : m.pc = .top := hpc
    rw [if_neg (by rw [hpc]; exact fun h => by cases h)]
    exact hm.become (by rw [hpc]; exact fun h => by cases h) (fun h => by cases h) rfl rfl rfl rfl
      (fun o h => by cases h) hm.workers fun _ => hm.unspawned (.inl hpc)
  | spawns hpc =>
    have hpc : m.pc = .spawning := hpc
    rw [if_pos hpc]
    refine hm.become (by rw [hpc]; exact fun h => by cases h) (fun h => by cases h) rfl rfl rfl rfl
      (fun o h => by cases h) ?_ fun h => by rcases h with h | h <;> cases h
    intro w hw
    rcases List.mem_append.mp hw with hw | hw
    · exact hm.workers w hw
    · rw [List.mem_singleton.mp hw]
      exact ⟨hchannel, fun o ho => by cases ho⟩
  | settles hpc =>
    have hpc : m.pc = .waiting _ false true := hpc
    rw [if_neg (by rw [hpc]; exact fun h => by cases h)]
    exact hm.become (by rw [hpc]; exact fun h => by cases h) (fun h => by cases h) rfl rfl rfl rfl
      (fun o h => by cases h) hm.workers fun h => by rcases h with h | h <;> cases h
  | joins hpc hready hended =>
    have hpc : m.pc = .waiting _ _ _ := hpc
    rw [if_neg (by rw [hpc]; exact fun h => by cases h)]
    refine hm.become (by rw [hpc]; exact fun h => by cases h) (fun h => by cases h) rfl rfl rfl rfl
      ?_ hm.workers fun h => by rcases h with h | h <;> cases h
    rintro o ⟨⟩
    obtain ⟨w, hw, hchild⟩ := List.mem_map.mp (List.mem_of_getElem? hended)
    exact (hm.workers w hw).2 _ (Worker.pc_of_child hchild)
  | waits hpc | returned hpc =>
    have hpc : m.pc = _ := hpc
    rw [if_neg (by rw [hpc]; exact fun h => by cases h)]
    exact hm
  | @switchesOff reason hpc hvalue =>
    have hpc : m.pc = .joined (.disabledByConfig reason) := hpc
    rw [if_neg (by rw [hpc]; exact fun h => by cases h)]
    refine ⟨hm.shutdown, hm.workers, rfl, fun o h => (by cases h), iff_of_true ?_ rfl, ?_,
      fun h => by rcases h with h | h <;> cases h⟩
    · exact switchedOff_iff.mpr ⟨reason, List.mem_cons_of_mem _ List.mem_cons_self⟩
    · intro o ho
      rcases List.mem_cons.mp ho with rfl | ho
      · exact hm.joined _ hpc
      · exact hm.exits o ho
  | stopsAtTop hpc hvalue | stopsAtJoin hpc hvalue => simp [hshutdown] at hvalue
  | observes hpc hready | stopsAsleep hpc hready => simp [hshutdown, Watch.ready] at hready
  | drained hpc | drains hpc | retries hpc | sleeps hpc =>
    rw [hpc] at hcalm
    cases hcalm
  | fatal hpc | panic hpc =>
    obtain ⟨reason, ho, -⟩ := hm.joined _ hpc
    cases ho
  | ends hpc hvalue ho =>
    obtain ⟨reason, rfl, -⟩ := hm.joined _ hpc
    rcases ho with ho | ho <;> cases ho

structure Calm (f : Fleet) : Prop where
  channel : f.channel = ⟨false, false, false⟩
  members : ∀ m ∈ f.members, m.Calm

theorem Calm.step (hf : f.Calm) (hcalm : e.calm = true) (h : f.step e = some g) : g.Calm := by
  cases e with
  | poll i =>
    obtain ⟨m, hm, rfl⟩ := step_poll h
    have hin := hf.members m (List.mem_of_getElem? hm)
    exact ⟨hf.channel, Machine.forall_mem_set hf.members (calm_poll hin f.health hf.channel)⟩
  | elapse i =>
    obtain ⟨m, pc, hm, rfl, -, hpc⟩ := step_elapse h
    have hin := hf.members m (List.mem_of_getElem? hm)
    refine ⟨hf.channel, Machine.forall_mem_set hf.members ?_⟩
    rcases hpc with ⟨c, b, hold, rfl⟩ | ⟨b, hold, rfl⟩
    · exact hin.become (t := { m.under f.health with pc := .waiting c false true })
        (by rw [hold]; exact fun h => by cases h) (fun h => by cases h) rfl rfl rfl rfl
        (fun o h => by cases h) hin.workers fun h => by rcases h with h | h <;> cases h
    · have hno := hin.pc
      rw [hold] at hno
      cases hno
  | work i k ev =>
    obtain ⟨m, w, w', hm, hw, hw', rfl⟩ := step_work h
    have hin := hf.members m (List.mem_of_getElem? hm)
    have hworker := hin.workers w (List.mem_of_getElem? hw)
    have hnew := Worker.calm_of_step hw' hworker.1 hcalm
    refine ⟨hf.channel, Machine.forall_mem_set hf.members ?_⟩
    refine ⟨hin.shutdown, Machine.forall_mem_set hin.workers hnew, hin.pc, hin.joined,
      hin.returned, hin.exits, fun hpc => ?_⟩
    rw [hin.unspawned hpc] at hw
    cases hw
  | send value => cases hcalm
  | close => cases hcalm

theorem calm_boot (config : Config) (delivery : DeliveryConfig) (mode : ListenerMode) :
    (boot config delivery mode).Calm := by
  refine ⟨rfl, fun m hm => ?_⟩
  obtain ⟨name, loop, rfl⟩ := eq_spawn_of_mem hm
  exact ⟨rfl, fun w hw => (by cases hw), rfl, fun o h => (by cases h),
    iff_of_false (fun h => by cases h) (fun h => by cases h), fun o ho => (by cases ho),
    fun _ => rfl⟩

end
end Fleet

/-- What there may be to state as long as nothing fails. -/
inductive Pending.Shape (m : Member) (q : Pending) : Prop where
  | stated (htodo : q.todo = [])
  | starts (hpc : m.pc = .spawning) (htodo : q.todo <:+ [.countsStart, .runs true])
  | settles (htodo : q.todo = [.clears])
  | switchesOff {reason : String} (hoff : m.loop.disabled = some reason) (hpc : m.pc = .returned)
    (hstood : q.pc = .joined (.disabledByConfig reason)) (hlog : switchedOff q.log = false)
    (htodo : q.todo <:+ [.countsStop, .runs false, .disables reason])

structure Pending.Calm (m : Member) (q : Pending) : Prop where
  exits : ∀ o ∈ exitsOf q.log, m.loop.SwitchesOff o
  shape : q.Shape m

theorem Pending.Calm.next {m : Member} {q : Pending} (hq : q.Calm m) : q.next.Calm m := by
  refine ⟨hq.exits, ?_⟩
  cases hq.shape with
  | stated htodo => exact .stated (congrArg List.tail htodo)
  | starts hpc htodo => exact .starts hpc ((List.tail_suffix q.todo).trans htodo)
  | settles htodo => exact .stated (congrArg List.tail htodo)
  | switchesOff hoff hpc hstood hlog htodo =>
    exact .switchesOff hoff hpc hstood hlog ((List.tail_suffix q.todo).trans htodo)

namespace Process

structure Calm (p : Process) : Prop where
  fleet : p.fleet.Calm
  pending : ∀ m ∈ p.fleet.members, (p.pending m.name).Calm m

section
variable {p p' : Process} {m : Member}

theorem calm_polled (hm : m.Calm) (h : TaskHealth) {workers : List Worker} :
    (Pending.polled m h).Calm (m.become ((m.under h).poll m.name .default) workers) := by
  refine ⟨hm.exits, ?_⟩
  have hshutdown : (m.under h).shutdown = ⟨false, false, false⟩ := hm.shutdown
  have hcalm : (m.under h).pc.calm = true := hm.pc
  have htodo : (Pending.polled m h).todo = (m.under h).statements := rfl
  unfold Supervisor.statements Supervisor.tells at htodo
  have hpolled := Fleet.polled m.name .default (m.under h)
  generalize (m.under h).poll m.name .default = t at hpolled ⊢
  cases hpolled with
  | marks hpc hvalue =>
    simp only [hpc, hvalue] at htodo
    refine .starts rfl ?_
    rw [htodo]
    exact List.suffix_refl _
  | settles hpc hready =>
    simp only [hpc, hready] at htodo
    exact .settles htodo
  | spawns hpc | returned hpc =>
    simp only [hpc] at htodo
    exact .stated htodo
  | joins hpc hready hended hsettled | waits hpc hready hruns hsettled =>
    simp only [hpc, hready, hsettled] at htodo
    exact .stated htodo
  | @switchesOff reason hpc hvalue =>
    simp only [hpc, hvalue] at htodo
    obtain ⟨_, ⟨⟩, hoff⟩ := hm.joined _ hpc
    refine .switchesOff hoff rfl hpc ?_ ?_
    · rw [← Bool.not_eq_true]
      intro hlog
      have hreturned := hm.returned.mp hlog
      rw [show m.pc = _ from hpc] at hreturned
      cases hreturned
    · rw [htodo]
      exact List.suffix_refl _
  | stopsAtTop hpc hvalue | stopsAtJoin hpc hvalue => simp [hshutdown] at hvalue
  | observes hpc hready | stopsAsleep hpc hready => simp [hshutdown, Watch.ready] at hready
  | drained hpc | drains hpc | retries hpc | sleeps hpc =>
    rw [hpc] at hcalm
    cases hcalm
  | fatal hpc | panic hpc =>
    obtain ⟨reason, ho, -⟩ := hm.joined _ hpc
    cases ho
  | ends hpc hvalue ho =>
    obtain ⟨reason, rfl, -⟩ := hm.joined _ hpc
    rcases ho with ho | ho <;> cases ho

theorem Calm.step {e : ProcessEvent} (hp : p.Calm) (hn : p.fleet.Named) (hcalm : e.calm = true)
    (h : p.step e = some p') : p'.Calm := by
  cases e with
  | states i =>
    obtain ⟨m, w, ws, hm, htodo, rfl⟩ := step_states h
    refine ⟨⟨hp.fleet.channel, hp.fleet.members⟩, fun x hx => ?_⟩
    by_cases hne : x.name = m.name
    · simp only [← hne, Function.update_self]
      exact (hp.pending x hx).next
    · simp only [Function.update_of_ne hne]
      exact hp.pending x hx
  | fleet e =>
    obtain ⟨hfree, g, hg, rfl⟩ := step_fleet h
    have hfleet := hp.fleet.step hcalm hg
    refine ⟨⟨hfleet.channel, hfleet.members⟩, ?_⟩
    cases e with
    | poll i =>
      obtain ⟨m, hm, rfl⟩ := Fleet.step_poll hg
      intro x hx
      simp only [pendingAfter_poll hm]
      rcases Fleet.mem_poll hn hm hx with rfl | ⟨hold, hne⟩
      · simp only [Member.become, Function.update_self]
        exact calm_polled (hp.fleet.members m (List.mem_of_getElem? hm)) p.fleet.health
      · rw [Function.update_of_ne hne]
        exact hp.pending x hold
    | elapse i =>
      obtain ⟨m, pc, hm, rfl, -⟩ := Fleet.step_elapse hg
      have hin := hp.pending m (List.mem_of_getElem? hm)
      have hnone := todo_of_free hm (.inr rfl) hfree
      exact Machine.forall_mem_set hp.pending ⟨hin.exits, .stated hnone⟩
    | work i k ev =>
      obtain ⟨m, w, w', hm, -, -, rfl⟩ := Fleet.step_work hg
      have hin := hp.pending m (List.mem_of_getElem? hm)
      refine Machine.forall_mem_set hp.pending ⟨hin.exits, ?_⟩
      cases hin.shape with
      | stated htodo => exact .stated htodo
      | starts hpc htodo => exact .starts hpc htodo
      | settles htodo => exact .settles htodo
      | switchesOff hoff hpc hstood hlog htodo => exact .switchesOff hoff hpc hstood hlog htodo
    | send value => cases hcalm
    | close => cases hcalm

end

/-- Where tasks have only been switched off there is nothing to count. -/
theorem counts_of_switchesOff {l : Loop} {log : List Action}
    (h : ∀ o ∈ exitsOf log, l.SwitchesOff o) :
    panicsSinceStable log = 0 ∧ restartsHandled log = 0 := by
  induction log with
  | nil => exact ⟨rfl, rfl⟩
  | cons a log ih =>
    cases a with
    | handled o =>
      obtain ⟨hpanics, hrestarts⟩ := ih fun o ho => h o (List.mem_cons_of_mem _ ho)
      obtain ⟨reason, rfl, -⟩ := h o List.mem_cons_self
      exact ⟨hpanics, hrestarts⟩
    | stable => exact ⟨rfl, (ih h).2⟩
    | _ => exact ih h

/-- The supervisor of the task stands between the two last statements of `task_disabled`. -/
def Halfway (p : Process) (name : String) : Prop :=
  ∃ reason, (p.pending name).todo = [.disables reason]

section
variable {config : Config} {delivery : DeliveryConfig} {mode : ListenerMode} {p q : Process}
  {m : Member} {es fs : List ProcessEvent}

theorem calm_boot (config : Config) (delivery : DeliveryConfig) (mode : ListenerMode) :
    (boot config delivery mode).Calm :=
  ⟨Fleet.calm_boot config delivery mode, fun _ _ => ⟨fun o ho => (by cases ho), .stated rfl⟩⟩

def Spawned (needed : List String) (p : Process) : Prop :=
  ∀ m ∈ p.fleet.members, m.name ∈ needed → m.workers ≠ []

instance (needed : List String) (p : Process) : Decidable (p.Spawned needed) :=
  inferInstanceAs (Decidable (∀ m ∈ p.fleet.members, m.name ∈ needed → m.workers ≠ []))

theorem Spawned.step {needed : List String} {e : ProcessEvent} (hs : p.Spawned needed)
    (hn : p.fleet.Named) (h : p.step e = some q) : q.Spawned needed := by
  cases e with
  | states i =>
    obtain ⟨m, w, ws, -, -, rfl⟩ := step_states h
    exact hs
  | fleet e =>
    obtain ⟨-, g, hg, rfl⟩ := step_fleet h
    cases e with
    | poll i =>
      obtain ⟨m, hm, rfl⟩ := Fleet.step_poll hg
      intro x hx hneeded
      rcases Fleet.mem_poll hn hm hx with rfl | ⟨hold, -⟩
      · have hmine := hs m (List.mem_of_getElem? hm) hneeded
        show (if m.pc = .spawning then _ else _) ≠ []
        split_ifs
        · exact List.append_ne_nil_of_left_ne_nil hmine _
        · exact hmine
      · exact hs x hold hneeded
    | elapse i =>
      obtain ⟨m, pc, hm, rfl, -⟩ := Fleet.step_elapse hg
      exact Machine.forall_mem_set hs (hs m (List.mem_of_getElem? hm))
    | work i k ev =>
      obtain ⟨m, w, w', hm, -, -, rfl⟩ := Fleet.step_work hg
      refine Machine.forall_mem_set hs fun hneeded => ?_
      exact mt (List.set_eq_nil_iff _ _).mp (hs m (List.mem_of_getElem? hm) hneeded)
    | send value =>
      obtain ⟨-, rfl⟩ := Fleet.step_send hg
      intro x hx hneeded
      obtain ⟨m, hm, rfl⟩ := List.mem_map.mp hx
      exact mt List.map_eq_nil_iff.mp (hs m hm hneeded)
    | close =>
      cases hg
      intro x hx hneeded
      obtain ⟨m, hm, rfl⟩ := List.mem_map.mp hx
      exact mt List.map_eq_nil_iff.mp (hs m hm hneeded)

theorem calm_of_run {needed : List String} (hp : p.Calm) (hb : Booted config delivery mode p)
    (hs : p.Spawned needed) (hcalm : ∀ e ∈ es, e.calm = true) (hr : run step p es = some q) :
    q.Calm ∧ q.Spawned needed := by
  have hall : Along step (fun _ e => e.calm = true) p es := along_of_forall fun e he _ => hcalm e he
  have hboth := Along.invariant
    (I := fun p => (p.Calm ∧ p.Spawned needed) ∧ Booted config delivery mode p) ?_ hall hr
      ⟨⟨hp, hs⟩, hb⟩
  · exact hboth.1
  · rintro p e q he h ⟨⟨hp, hs⟩, hb⟩
    exact ⟨⟨hp.step hb.named he h, hs.step hb.named h⟩, hb.later ⟨[e], run_cons.mpr ⟨q, h, rfl⟩⟩⟩

/-- A task that has been spawned is marked running or recorded as switched
off, but for one moment. -/
theorem Calm.marked_or_off (hp : p.Calm) (hm : m ∈ p.fleet.members) (hspawned : m.workers ≠ []) :
    p.marked m = true ∨ p.off m = true ↔ ¬ p.Halfway m.name := by
  have hcalm := hp.fleet.members m hm
  have hplain : m.pc.marked = true ∨ switchedOff m.log = true := by
    have hpc := hcalm.pc
    cases hat : m.pc with
    | top => exact absurd (hcalm.unspawned (.inl hat)) hspawned
    | returned => exact .inr (hcalm.returned.mpr hat)
    | spawning | waiting _ _ _ | joined _ => exact .inl rfl
    | draining _ | sleeping _ =>
      rw [hat] at hpc
      cases hpc
  have hstated : (p.pending m.name).todo = [] →
      (p.marked m = true ∨ p.off m = true ↔ ¬ p.Halfway m.name) := by
    intro htodo
    unfold marked off stood Pending.locks Halfway
    simp only [htodo, List.filterMap_nil, List.not_mem_nil, if_false]
    exact iff_of_true hplain (by simp)
  cases (hp.pending m hm).shape with
  | stated htodo => exact hstated htodo
  | starts hpc => exact absurd (hcalm.unspawned (.inr hpc)) hspawned
  | settles htodo =>
    have hlocks : (p.pending m.name).locks = [.consecutiveFailures] := by
      unfold Pending.locks
      rw [htodo]
      rfl
    unfold marked off stood Halfway
    simp only [htodo, hlocks]
    exact iff_of_true hplain (by simp)
  | @switchesOff reason hoff hpc hstood hlog htodo =>
    -- the mark is that of a task that runs until it is taken back
    have hmarked : .running ∈ (p.pending m.name).locks → p.marked m = true := by
      intro hl
      unfold marked stood
      rw [if_pos hl, hstood]
      rfl
    unfold Pending.locks at hmarked
    rcases List.suffix_cons_iff.mp htodo with htodo | htodo
    · refine iff_of_true (.inl (hmarked ?_)) fun ⟨_, h⟩ => by rw [htodo] at h; cases h
      rw [htodo]
      exact List.mem_cons_self
    rcases List.suffix_cons_iff.mp htodo with htodo | htodo
    · refine iff_of_true (.inl (hmarked ?_)) fun ⟨_, h⟩ => by rw [htodo] at h; cases h
      rw [htodo]
      exact List.mem_cons_self
    rcases List.suffix_cons_iff.mp htodo with htodo | htodo
    · have hlocks : (p.pending m.name).locks = [.disabled] := by
        unfold Pending.locks
        rw [htodo]
        rfl
      refine iff_of_false ?_ (not_not.mpr ⟨reason, htodo⟩)
      unfold marked off stood
      simp [hlocks, hpc, hlog, Pc.marked, Pc.holds]
    · exact hstated (List.suffix_nil.mp htodo)

/-- Of the tasks that are required only the retention worker may have nothing to do. -/
theorem retention_of_disabled {reason : String} (hm : m ∈ Fleet.spawned config delivery mode)
    (hneeded : m.name ∈ Fleet.required config mode) (hoff : m.loop.disabled = some reason) :
    m.name = "retention" ∧ delivery.webhookDeliveryRetentionDays ≤ 0 ∧
      delivery.idempotencyRetentionDays ≤ 0 := by
  have hgateway : config.gatewayConfigured = true ∨ m.name ≠ "stream" ∧ m.name ≠ "poller" := by
    unfold Fleet.required at hneeded
    cases hconfigured : config.gatewayConfigured with
    | true => exact .inl rfl
    | false =>
      simp only [hconfigured, Bool.false_eq_true, if_false, List.nil_append] at hneeded
      right
      constructor <;> (intro hname; rw [hname] at hneeded; exact absurd hneeded (by decide))
  unfold Fleet.spawned at hm
  rcases List.mem_append.mp hm with hm | hm
  · split_ifs at hm
    · obtain rfl := List.mem_singleton.mp hm
      have hon := hgateway.resolve_right fun h => h.1 rfl
      simp [Member.spawn, runStreamListener, hon] at hoff
    · cases hm
  · simp only [List.mem_cons, List.not_mem_nil, or_false] at hm
    rcases hm with rfl | rfl | rfl | rfl
    · have hon := hgateway.resolve_right fun h => h.2 rfl
      simp [Member.spawn, runPoller, hon] at hoff
    · cases hoff
    · refine ⟨rfl, ?_⟩
      by_contra hno
      simp [Member.spawn, runRetentionWorker, hno] at hoff
    · cases hoff

theorem Calm.retention_of_halfway (hp : p.Calm) (hb : Booted config delivery mode p)
    (hm : m ∈ p.fleet.members) (hneeded : m.name ∈ Fleet.required config mode)
    (hhalf : p.Halfway m.name) :
    m.name = "retention" ∧ delivery.webhookDeliveryRetentionDays ≤ 0 ∧
      delivery.idempotencyRetentionDays ≤ 0 := by
  obtain ⟨reason, hhalf⟩ := hhalf
  obtain ⟨reason', hoff⟩ : ∃ reason, m.loop.disabled = some reason := by
    cases (hp.pending m hm).shape with
    | switchesOff hoff => exact ⟨_, hoff⟩
    | stated htodo | settles htodo =>
      rw [hhalf] at htodo
      cases htodo
    | starts hpc htodo =>
      rw [hhalf] at htodo
      have hmem := htodo.subset List.mem_cons_self
      simp at hmem
  obtain ⟨f, hf, hmirrors⟩ := hb.mirrors
  have hkept := List.mem_map_of_mem (f := fun m : Member => (m.name, m.loop))
    (hmirrors.members ▸ hm)
  rw [hf.kept] at hkept
  obtain ⟨m₀, hm₀, heq⟩ := List.mem_map.mp hkept
  obtain ⟨hname, hloop⟩ := Prod.mk.injEq .. ▸ heq
  have hret := retention_of_disabled hm₀ (hname ▸ hneeded) (hloop ▸ hoff)
  exact ⟨hname ▸ hret.1, hret.2⟩

theorem Calm.dead_eq_nil_iff (hp : p.Calm) (hb : Booted config delivery mode p)
    (hs : p.Spawned (Fleet.required config mode)) :
    p.fleet.health.deadRequiredTasks = [] ↔ ¬ p.Halfway "retention" := by
  have hall : p.fleet.health.deadRequiredTasks = [] ↔
      ∀ m ∈ p.fleet.members, m.name ∈ Fleet.required config mode → ¬ p.Halfway m.name := by
    rw [hb.dead_eq_nil]
    exact forall₂_congr fun m hm => forall_congr' fun hneeded =>
      hp.marked_or_off hm (hs m hm hneeded)
  rw [hall]
  constructor
  · intro h
    have hneeded : "retention" ∈ Fleet.required config mode := List.mem_append_right _ (by decide)
    exact (hb.forall_required (P := fun name => ¬ p.Halfway name)).mpr h "retention" hneeded
  · intro hno m hm hneeded hhalf
    have hname := (hp.retention_of_halfway hb hm hneeded hhalf).1
    rw [hname] at hhalf
    exact hno hhalf

theorem Calm.counts (hp : p.Calm) (hm : m ∈ p.fleet.members) (l : TaskHealth.Lock) :
    panicsSinceStable (p.stood l m).2 = 0 ∧ restartsHandled (p.stood l m).2 = 0 := by
  apply counts_of_switchesOff (l := m.loop)
  unfold stood
  split_ifs
  · exact (hp.pending m hm).exits
  · exact (hp.fleet.members m hm).exits

/-- Without a fault, and once the tasks that are required have been spawned, the liveness
probe answers that all is well and all expected tasks are live, but for the moment between the
two last statements of `task_disabled` about a retention worker that has nothing to do. None
has ever been restarted. -/
theorem health_of_calm (hr : run step (boot config delivery mode) es = some p)
    (hes : ∀ e ∈ es, e.calm = true) (hspawned : p.Spawned (Fleet.required config mode))
    (hr' : run step p fs = some q) (hfs : ∀ e ∈ fs, e.calm = true) (r : HealthReads)
    (hdead : r.dead = p.fleet.health) (hlooping : r.looping = q.fleet.health) :
    ((StellarGate.health r).code = 200 ↔ ¬ p.Halfway "retention") ∧
      (q.fleet.health.liveTasks = q.fleet.health.expectedTasks ↔ ¬ q.Halfway "retention") ∧
      (p.Halfway "retention" →
        delivery.webhookDeliveryRetentionDays ≤ 0 ∧ delivery.idempotencyRetentionDays ≤ 0) ∧
      ∀ m ∈ q.fleet.members, q.fleet.health.restartsOf m.name = 0 := by
  have hbp : Booted config delivery mode p := ⟨es, hr⟩
  have hbq := hbp.later ⟨fs, hr'⟩
  have hnone : (boot config delivery mode).Spawned [] := fun _ _ h => absurd h List.not_mem_nil
  have hp := (calm_of_run (calm_boot config delivery mode) ⟨[], rfl⟩ hnone hes hr).1
  obtain ⟨hq, hspawnedq⟩ := calm_of_run hp hbp hspawned hfs hr'
  refine ⟨?_, ?_, ?_, ?_⟩
  · rw [health_code, hdead, hlooping, hp.dead_eq_nil_iff hbp hspawned]
    refine and_iff_left (hbq.looping_eq_nil.mpr fun m hm _ => ?_)
    unfold panics
    rw [(hq.counts hm .consecutiveFailures).1]
    decide
  · rw [← hq.dead_eq_nil_iff hbq hspawnedq, ← List.length_eq_zero_iff]
    have hsplit := TaskHealth.liveTasks_add_dead q.fleet.health
    omega
  · intro hhalf
    have hneeded : "retention" ∈ Fleet.required config mode := List.mem_append_right _ (by decide)
    have hall := (hbp.forall_required (P := fun name => p.Halfway name →
      delivery.webhookDeliveryRetentionDays ≤ 0 ∧ delivery.idempotencyRetentionDays ≤ 0)).mpr
      fun m hm hneeded hhalf => (hp.retention_of_halfway hbp hm hneeded hhalf).2
    exact hall "retention" hneeded hhalf
  · intro m hm
    have htells : (q.fleet.health.restartsOf m.name).toNat = _ % 2 ^ 64 := hbq.tells hm .restarts
    rw [(hq.counts hm .restarts).2] at htells
    exact UInt64.toNat_inj.mp htells

end

/-- The probe does not find all well at the moment in which the retention worker is switched off,
and does after the next statement. -/
theorem health_of_calm_withdraws : ∃ p q,
    run step (boot Sample.withoutGateway Sample.keepsAll .poll) Sample.withdraws = some p ∧
      run step p [.states 2] = some q ∧
      (∀ r : HealthReads, r.dead = p.fleet.health → r.looping = q.fleet.health →
        (StellarGate.health r).code ≠ 200) ∧
      (∀ r : HealthReads, r.dead = q.fleet.health → r.looping = q.fleet.health →
        (StellarGate.health r).code = 200) ∧
      q.fleet.health.liveTasks = q.fleet.health.expectedTasks := by
  obtain ⟨p, hp, hspawned, hhalf⟩ :=
    exists_of_run step (boot Sample.withoutGateway Sample.keepsAll .poll) Sample.withdraws
      (P := fun p => p.Spawned (Fleet.required Sample.withoutGateway .poll) ∧
      (p.pending "retention").todo =
        [.disables "both WEBHOOK_DELIVERY_RETENTION_DAYS and IDEMPOTENCY_RETENTION_DAYS are 0"])
    (by decide +kernel)
  obtain ⟨t, ht, hspawnedq, hdone⟩ :=
    exists_of_run step (boot Sample.withoutGateway Sample.keepsAll .poll)
      (Sample.withdraws ++ [.states 2]) (P := fun p =>
      p.Spawned (Fleet.required Sample.withoutGateway .poll) ∧ (p.pending "retention").todo = [])
    (by decide +kernel)
  obtain ⟨p', hp', hq⟩ := run_split ht
  obtain rfl := Option.some.inj (hp.symm.trans hp')
  have hthen : ∀ e ∈ [ProcessEvent.states 2], e.calm = true := by decide
  have hnone : ∀ e ∈ ([] : List ProcessEvent), e.calm = true := by decide
  have hstay : run step t [] = some t := rfl
  have hnot : ¬ t.Halfway "retention" := fun ⟨reason, h⟩ => by rw [hdone] at h; cases h
  refine ⟨p, t, hp, hq, fun r hdead hlooping => ?_, fun r hdead hlooping => ?_, ?_⟩
  · exact mt (health_of_calm hp (by decide) hspawned hq hthen r hdead hlooping).1.mp
      (not_not.mpr ⟨_, hhalf⟩)
  · exact (health_of_calm ht (by decide) hspawnedq hstay hnone r hdead hlooping).1.mpr hnot
  · exact (health_of_calm ht (by decide) hspawnedq hstay hnone
      ⟨t.fleet.health, t.fleet.health, t.fleet.health, t.fleet.health, t.fleet.health, []⟩
        rfl rfl).2.1.mpr hnot

end Process
end Supervise
end StellarGate
