import StellarGate.Supervise.Fleet

/-! What the health says about each task of the fleet: who is declared, and the entries by the place
and the history of the supervisor. -/
namespace StellarGate
namespace Supervise
open Base

section
variable {name : String} {backoff : Backoff} {s t : Supervisor}

/-- The reasons recorded for a task are those it was switched off with. -/
def Told (name : String) (s : Supervisor) : Prop :=
  ∀ reason, s.health.disabled name = some reason ↔ .handled (.disabledByConfig reason) ∈ s.log

/-- A poll switches its task off after such an exit only. -/
theorem poll_disabled (s : Supervisor) (name : String) (backoff : Backoff) :
    (∃ as : List Action, (s.poll name backoff).log = as ++ s.log ∧
      (∀ reason, .handled (.disabledByConfig reason) ∉ as) ∧
        (s.poll name backoff).health.disabled = s.health.disabled) ∨
      ∃ reason, s.pc = .joined (.disabledByConfig reason) ∧
        (s.poll name backoff).log = .returned :: .handled (.disabledByConfig reason) :: s.log ∧
        (s.poll name backoff).health = s.health.taskDisabled name reason := by
  have hpolled := Fleet.polled name backoff s
  generalize s.poll name backoff = t at hpolled ⊢
  cases hpolled with
  | switchesOff hpc => exact .inr ⟨_, hpc, rfl, rfl⟩
  | stopsAtTop | stopsAtJoin | stopsAsleep => exact .inl ⟨[.returned, .observed], rfl, by simp, rfl⟩
  | spawns => exact .inl ⟨[.started], rfl, by simp, rfl⟩
  | observes => exact .inl ⟨[.observed], rfl, by simp, rfl⟩
  | settles => exact .inl ⟨[.stable], rfl, by simp, rfl⟩
  | drained => exact .inl ⟨[.returned], rfl, by simp, rfl⟩
  | @ends o hpc hvalue ho =>
    exact .inl ⟨[.returned, .handled o], rfl, by rcases ho with rfl | rfl <;> simp, rfl⟩
  | @fatal reason => exact .inl ⟨[.waits s.delay, .handled (.fatal reason)], rfl, by simp, rfl⟩
  | panic => exact .inl ⟨[.waits s.delay, .handled .panic], rfl, by simp, rfl⟩
  | _ => exact .inl ⟨[], rfl, by simp, rfl⟩

theorem Told.poll (hi : Inv name backoff s) (ht : Told name s) :
    Told name (s.poll name backoff) := by
  intro reason
  rcases poll_disabled s name backoff with ⟨as, hlog, hnone, hsame⟩ | ⟨r, hpc, hlog, hhealth⟩
  · rw [hlog, hsame, List.mem_append]
    constructor
    · intro hd
      exact .inr ((ht reason).mp hd)
    · rintro (has | hold)
      · exact absurd has (hnone reason)
      · exact (ht reason).mpr hold
  · -- no task is switched off twice
    have hopen : Open s.log := hi.isOpen (by rw [hpc]; rfl)
    have hfresh : .handled (.disabledByConfig reason) ∉ s.log :=
        fun hmem => Bool.noConfusion (hopen _ hmem)
    rw [hlog, hhealth]
    simp only [TaskHealth.taskDisabled, Function.update_self, Option.some.injEq, List.mem_cons,
      reduceCtorEq, Action.handled.injEq, Outcome.disabledByConfig.injEq, hfresh,
      or_false, false_or]
    exact eq_comm

theorem Told.step (hi : Inv name backoff s) (ht : Told name s) {e : Event}
    (h : s.step name backoff e = some t) : Told name t := by
  cases e with
  | poll =>
    cases h
    exact ht.poll hi
  | elapse =>
    obtain ⟨pc, rfl, -⟩ := Fleet.elapse_eq h
    exact ht
  | ends child o =>
    simp only [Supervisor.step] at h
    split_ifs at h
    cases h
    exact ht
  | send value =>
    simp only [Supervisor.step] at h
    split_ifs at h
    cases h
    exact ht
  | close =>
    cases h
    exact ht
  | require other =>
    cases h
    exact ht
  | other other u =>
    simp only [Supervisor.step] at h
    split_ifs at h with hne
    cases h
    have hsame := (TaskHealth.sameEntries_record hne s.health u).disabled
    intro reason
    have := ht reason
    unfold TaskHealth.disabledReason at hsame
    rw [hsame]
    exact this

theorem told_of_reachable (hle : backoff.initial ≤ backoff.max)
    (hs : Supervisor.Reachable name backoff s) :
    Told name s := by
  obtain ⟨shutdown, es, hrun⟩ := hs
  have hstart : Told name (.start backoff shutdown) := fun reason =>
    iff_of_false (fun h => by cases h) List.not_mem_nil
  exact (run_invariant (I := fun s => Inv name backoff s ∧ Told name s)
    (fun s e t hstep hs => ⟨hs.1.step hle hstep, hs.2.step hs.1 hstep⟩) hrun
      ⟨inv_start backoff shutdown, hstart⟩).2

end

def switchedOff (log : List Action) : Bool :=
  log.any fun
    | .handled (.disabledByConfig _) => true
    | _ => false

theorem switchedOff_iff {log : List Action} :
    switchedOff log = true ↔ ∃ reason, .handled (.disabledByConfig reason) ∈ log := by
  unfold switchedOff
  rw [List.any_eq_true]
  constructor
  · rintro ⟨a, ha, hoff⟩
    split at hoff
    · rename_i reason
      exact ⟨reason, ha⟩
    · cases hoff
  · rintro ⟨reason, hmem⟩
    exact ⟨_, hmem, rfl⟩

/-- What the entry of a task under a lock says, by where its supervisor stands
and what it has done. -/
def Tells (name : String) (h : TaskHealth) (pc : Pc) (log : List Action) : TaskHealth.Lock → Prop
  | .running => h.running name = some true ↔ pc.marked = true
  | .restarts => (h.restartsOf name).toNat = restartsHandled log % 2 ^ 64
  | .consecutiveFailures => (h.consecutiveFailuresOf name).toNat = panicsSinceStable log % 2 ^ 32
  | .disabled => ∀ reason, h.disabled name = some reason ↔ .handled (.disabledByConfig reason) ∈ log
  | .required => True

namespace Fleet

section
variable {f g : Fleet} {e : FleetEvent}

theorem step_health (h : f.step e = some g) :
    ∃ us : List TaskHealth.Update, ∃ name : String,
      g.health = us.foldl (fun h u => h.record name u) f.health ∧
      (us ≠ [] → ∃ m ∈ f.members, m.name = name) := by
  cases e with
  | poll i =>
    obtain ⟨m, hm, rfl⟩ := step_poll h
    exact ⟨_, m.name, poll_health (m.under f.health) m.name .default,
      fun _ => ⟨m, List.mem_of_getElem? hm, rfl⟩⟩
  | elapse i =>
    obtain ⟨m, pc, hm, rfl, -⟩ := step_elapse h
    exact ⟨[], "", rfl, fun h => absurd rfl h⟩
  | work i k ev =>
    obtain ⟨m, w, w', hm, -, -, rfl⟩ := step_work h
    exact ⟨[], "", rfl, fun h => absurd rfl h⟩
  | send value =>
    obtain ⟨-, rfl⟩ := step_send h
    exact ⟨[], "", rfl, fun h => absurd rfl h⟩
  | close =>
    cases h
    exact ⟨[], "", rfl, fun h => absurd rfl h⟩

theorem required_record (us : List TaskHealth.Update) (name : String) (h : TaskHealth) :
    (us.foldl (fun h u => h.record name u) h).required = h.required := by
  induction us generalizing h with
  | nil => rfl
  | cons u us ih =>
    rw [List.foldl_cons, ih]
    cases u <;> rfl

theorem disabled_record {name other : String} (hne : name ≠ other) (us : List TaskHealth.Update)
    (h : TaskHealth) :
    (us.foldl (fun h u => h.record other u) h).disabled name = h.disabled name := by
  induction us generalizing h with
  | nil => rfl
  | cons u us ih =>
    rw [List.foldl_cons, ih]
    exact (TaskHealth.sameEntries_record hne h u).disabled

/-- What is required, who is there, and that nothing else is recorded as switched off. -/
structure Declared (tasks needed : List String) (f : Fleet) : Prop where
  required : f.health.required = needed
  names : f.members.map Member.name = tasks
  disabled : ∀ name, name ∉ tasks → f.health.disabled name = none

theorem Declared.step {tasks needed : List String} (hd : f.Declared tasks needed)
    (h : f.step e = some g) :
    g.Declared tasks needed := by
  obtain ⟨us, name, hhealth, hmine⟩ := step_health h
  constructor
  · rw [hhealth, required_record]
    exact hd.required
  · exact (step_names h).trans hd.names
  · intro other hother
    cases us with
    | nil =>
      rw [hhealth]
      exact hd.disabled other hother
    | cons u us =>
      obtain ⟨m, hm, rfl⟩ := hmine (List.cons_ne_nil u us)
      have hne : other ≠ m.name := by
        rintro rfl
        exact hother (hd.names ▸ List.mem_map_of_mem hm)
      rw [hhealth, disabled_record hne]
      exact hd.disabled other hother

end

section
variable {config : Config} {delivery : DeliveryConfig} {mode : ListenerMode} {f g : Fleet}
  {m : Member}

theorem required_foldl_require (names : List String) (h : TaskHealth) :
    (names.foldl TaskHealth.require h).required = h.required ++ names ∧
      (names.foldl TaskHealth.require h).disabled = h.disabled := by
  induction names generalizing h with
  | nil => exact ⟨(List.append_nil _).symm, rfl⟩
  | cons name names ih =>
    obtain ⟨hrequired, hdisabled⟩ := ih (h.require name)
    rw [List.foldl_cons]
    exact ⟨hrequired.trans (List.append_assoc h.required [name] names), hdisabled⟩

theorem declared_boot (config : Config) (delivery : DeliveryConfig) (mode : ListenerMode) :
    (boot config delivery mode).Declared ((spawned config delivery mode).map Member.name)
    (required config mode) := by
  obtain ⟨hrequired, hdisabled⟩ := required_foldl_require (required config mode) .new
  constructor
  · exact hrequired
  · rfl
  · intro name _
    exact congrFun hdisabled name

theorem Booted.declared (hf : Booted config delivery mode f) :
    f.Declared ((spawned config delivery mode).map Member.name) (required config mode) := by
  obtain ⟨es, hr⟩ := hf
  exact run_invariant (fun f e g hstep hd => hd.step hstep) hr (declared_boot config delivery mode)

/-- Every member is still who it was at the boot. -/
theorem Booted.kept (hf : Booted config delivery mode f) :
    f.members.map (fun m => (m.name, m.loop)) = (spawned config delivery mode).map fun m =>
      (m.name, m.loop) := by
  obtain ⟨es, hr⟩ := hf
  exact run_invariant (I := fun f : Fleet => f.members.map (fun m => (m.name, m.loop)) =
    (spawned config delivery mode).map fun m => (m.name, m.loop))
    (fun f e g hstep hf => (step_kept hstep).trans hf) hr rfl

theorem Booted.later (hf : Booted config delivery mode f) (hr : ∃ es, run step f es = some g) :
    Booted config delivery mode g := by
  obtain ⟨es, hes⟩ := hf
  obtain ⟨fs, hfs⟩ := hr
  exact ⟨es ++ fs, run_append hes hfs⟩

theorem nodup_required (config : Config) (mode : ListenerMode) : (required config mode).Nodup := by
  unfold required
  cases mode <;> cases config.gatewayConfigured <;> decide

/-- The entries of the health for a member, read off its place and its log. -/
theorem Booted.tells (hf : Booted config delivery mode f) (hm : m ∈ f.members)
    (l : TaskHealth.Lock) :
    Tells m.name f.health m.pc m.log l := by
  have hi := hf.inv hm
  cases l with
  | running => exact hi.running
  | restarts => exact hi.counted.restarts
  | consecutiveFailures => exact hi.counted.consecutiveFailures
  | disabled => exact told_of_reachable (by decide) (hf.reachable hm)
  | required => trivial

theorem mem_spawned_of_required (delivery : DeliveryConfig) {name : String}
    (h : name ∈ required config mode) :
    name ∈ (spawned config delivery mode).map Member.name := by
  unfold required at h
  unfold spawned
  cases mode with
  | stream =>
    show name ∈ ["stream", "poller", "sweeper", "retention", "redrive"]
    split_ifs at h <;> simp only [List.mem_append, List.mem_cons, List.not_mem_nil, or_false,
      false_or] at h ⊢ <;> tauto
  | poll =>
    show name ∈ ["poller", "sweeper", "retention", "redrive"]
    split_ifs at h <;> simp only [List.mem_append, List.mem_cons, List.not_mem_nil, or_false,
      false_or] at h ⊢ <;> tauto

end
end Fleet
end Supervise
end StellarGate
