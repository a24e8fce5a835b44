import StellarGate.Supervise.Entries

/-! The fleet statement by statement. A supervisor that is polled makes its updates one statement
after the other, each under its own lock, and other threads may run between any two of them. The
process so described mirrors the fleet, which makes the updates of a poll at once. -/
namespace StellarGate

namespace TaskHealth
variable {h h' : TaskHealth} {name : String}

theorem SameEntries.write (hs : SameEntries name h h') (w : Write) :
    SameEntries name (h.write name w) (h'.write name w) := by
  obtain ⟨hrunning, hrestarts, hconsecutive, hdisabled⟩ := hs
  simp only [restartsOf, consecutiveFailuresOf, disabledReason] at hrestarts hconsecutive hdisabled
  cases w <;> constructor <;>
    simp [TaskHealth.write, restartsOf, consecutiveFailuresOf, disabledReason, hrunning, hrestarts,
      hconsecutive, hdisabled]

theorem SameEntries.writes (hs : SameEntries name h h') (ws : List Write) :
    SameEntries name (ws.foldl (fun h w => h.write name w) h)
      (ws.foldl (fun h w => h.write name w) h') := by
  induction ws generalizing h h' with
  | nil => exact hs
  | cons w ws ih => exact ih (hs.write w)

theorem SameEntries.symm (hs : SameEntries name h h') : SameEntries name h' h :=
  ⟨hs.running.symm, hs.restarts.symm, hs.consecutiveFailures.symm, hs.disabled.symm⟩

theorem SameEntries.trans {h'' : TaskHealth} (hs : SameEntries name h h')
    (hs' : SameEntries name h' h'') :
    SameEntries name h h'' := by
  constructor
  · exact hs'.running.trans hs.running
  · exact hs'.restarts.trans hs.restarts
  · exact hs'.consecutiveFailures.trans hs.consecutiveFailures
  · exact hs'.disabled.trans hs.disabled

theorem sameEntries_writes {other : String} (hne : name ≠ other) (ws : List Write)
    (h : TaskHealth) :
    SameEntries name h (ws.foldl (fun h w => h.write other w) h) := by
  induction ws generalizing h with
  | nil => exact ⟨rfl, rfl, rfl, rfl⟩
  | cons w ws ih => exact (sameEntries_write hne h w).trans (ih (h.write other w))

theorem required_writes (ws : List Write) (name : String) (h : TaskHealth) :
    (ws.foldl (fun h w => h.write name w) h).required = h.required := by
  induction ws generalizing h with
  | nil => rfl
  | cons w ws ih => exact (ih (h.write name w)).trans (required_write h name w)

theorem foldl_record_eq (us : List Update) (name : String) (h : TaskHealth) :
    us.foldl (fun h u => h.record name u) h =
      (us.flatMap Update.writes).foldl (fun h w => h.write name w) h := by
  rw [List.foldl_flatMap]
  simp only [record_eq_writes]

end TaskHealth

namespace Supervise
open Base TaskHealth

def Supervisor.statements (s : Supervisor) : List Write := s.tells.flatMap Update.writes

/-- A poll changes no map twice. -/
theorem Supervisor.distinct (s : Supervisor) : (s.statements.filterMap Write.lock).Nodup := by
  unfold statements tells
  split
  · split_ifs <;> decide
  · split_ifs <;> decide
  · split <;> decide
  · split_ifs
    · decide
    · split
      · decide
      · decide
      · show [Lock.running, Lock.disabled].Nodup
        decide
      · decide
      · decide
  · split_ifs <;> decide
  · decide
  · decide

namespace Fleet
variable {f g : Fleet}

theorem step_under {e : FleetEvent} (h : f.step e = some g) (hpoll : ∀ i, e ≠ .poll i)
    (k : TaskHealth) :
    g.health = f.health ∧ ({ f with health := k } : Fleet).step e =
      some { g with health := k } := by
  cases e with
  | poll i => exact absurd rfl (hpoll i)
  | elapse i =>
    obtain ⟨m, pc, hm, rfl, -, hpc⟩ := step_elapse h
    have hk : (m.under k).elapse = some { m.under k with pc := pc } := by
      unfold Supervisor.elapse
      rcases hpc with ⟨c, b, hpc, rfl⟩ | ⟨b, hpc, rfl⟩ <;> simp only [Member.under, hpc]
    refine ⟨rfl, ?_⟩
    simp only [step, hm, hk]
    rfl
  | work i k ev =>
    obtain ⟨m, w, w', hm, hw, hw', rfl⟩ := step_work h
    exact ⟨rfl, by simp only [step, hm, hw, hw']⟩
  | send value =>
    obtain ⟨hopen, rfl⟩ := step_send h
    exact ⟨rfl, if_neg (by rw [hopen]; exact Bool.false_ne_true)⟩
  | close =>
    cases h
    exact ⟨rfl, rfl⟩

/-- A poll under another health makes the same statements and leaves the same members. -/
theorem poll_statements (f : Fleet) (i : ℕ) (m : Member) (k : TaskHealth) :
    (f.poll i m).health = (m.under k).statements.foldl (fun h w => h.write m.name w) f.health ∧
      (({ f with health := k } : Fleet).poll i m).members = (f.poll i m).members := by
  constructor
  · unfold Supervisor.statements
    rw [← foldl_record_eq]
    exact poll_health (m.under f.health) m.name .default
  · have hsame := poll_under (m.under f.health) m.name .default k
    simp only [Member.under] at hsame
    simp only [poll, Member.under, hsame]
    rfl

theorem mem_poll {i : ℕ} {m x : Member} (hn : f.Named) (hm : f.members[i]? = some m)
    (hx : x ∈ (f.poll i m).members) :
    x = m.become ((m.under f.health).poll m.name .default)
        (if m.pc = .spawning then m.workers ++ [Worker.spawn f.channel] else m.workers) ∨
      x ∈ f.members ∧ x.name ≠ m.name := by
  obtain ⟨j, hj⟩ := List.mem_iff_getElem?.mp hx
  by_cases hij : i = j
  · subst hij
    rw [poll, List.getElem?_set_self (List.getElem?_eq_some_iff.mp hm).1] at hj
    exact .inl (Option.some.inj hj).symm
  · have hold : f.members[j]? = some x := (List.getElem?_set_ne hij).symm.trans hj
    exact .inr ⟨List.mem_of_getElem? hold, hn.ne hm hold hij⟩

end Fleet

/-- Where a poll states whether the task runs, it leaves the supervisor without a child to await. -/
theorem Supervisor.child_of_statements (s : Supervisor) (name : String) (backoff : Backoff)
    (h : .running ∈ s.statements.filterMap Write.lock) :
    (s.poll name backoff).pc.child? = none := by
  unfold statements tells at h
  have hpolled := Fleet.polled name backoff s
  generalize s.poll name backoff = t at hpolled ⊢
  cases hpolled with
  | spawns hpc | drains hpc =>
    simp only [hpc] at h
    cases h
  | observes hpc hready | settles hpc hready =>
    simp [hpc, hready, Update.writes, Write.lock] at h
  | waits hpc hready hruns hsettled =>
    simp only [hpc, hready, hsettled] at h
    cases h
  | sleeps hpc | returned hpc =>
    rw [hpc]
    rfl
  | _ => rfl

/-- What a supervisor that has been polled has still to state before it awaits again, and where it
stood, with what it had done, when it was polled. -/
structure Pending where
  pc : Pc
  log : List Action
  todo : List Write
  distinct : (todo.filterMap Write.lock).Nodup

namespace Pending

def locks (q : Pending) : List Lock := q.todo.filterMap Write.lock

def next (q : Pending) : Pending where
  pc := q.pc
  log := q.log
  todo := q.todo.tail
  distinct := q.distinct.sublist ((List.tail_sublist q.todo).filterMap Write.lock)

def polled (m : Member) (h : TaskHealth) : Pending :=
  ⟨m.pc, m.log, (m.under h).statements, (m.under h).distinct⟩

end Pending

/-- The fleet with the health as the statements made so far have left it, and what each supervisor,
by the name of its task, has still to state. -/
structure Process where
  fleet : Fleet
  pending : String → Pending

/-- A supervisor makes its next statement, or something happens to the fleet. -/
inductive ProcessEvent where
  | states (i : ℕ)
  | fleet (e : FleetEvent)
  deriving DecidableEq, Repr

namespace Process

/-- Whether the supervisor of the event has made all its statements: then it is polled again,
and then its timers run. -/
def free (p : Process) : FleetEvent → Bool
  | .poll i | .elapse i => (p.fleet.members[i]?).all fun m => (p.pending m.name).todo.isEmpty
  | _ => true

/-- What there is to state after the event. -/
def pendingAfter (p : Process) : FleetEvent → String → Pending
  | .poll i =>
    match p.fleet.members[i]? with
    | none => p.pending
    | some m => Function.update p.pending m.name (.polled m p.fleet.health)
  | _ => p.pending

def step (p : Process) : ProcessEvent → Option Process
  | .states i =>
    match p.fleet.members[i]? with
    | none => none
    | some m =>
      match (p.pending m.name).todo with
      | [] => none
      | w :: _ =>
        some ⟨{ p.fleet with health := p.fleet.health.write m.name w },
          Function.update p.pending m.name (p.pending m.name).next⟩
  | .fleet e =>
    if p.free e then (p.fleet.step e).map fun f =>
      ⟨{ f with health := p.fleet.health }, p.pendingAfter e⟩
    else none

/-- The process as `main` starts it. -/
def boot (config : Config) (delivery : DeliveryConfig) (mode : ListenerMode) : Process :=
  ⟨.boot config delivery mode, fun _ => ⟨.top, [], [], List.nodup_nil⟩⟩

def Booted (config : Config) (delivery : DeliveryConfig) (mode : ListenerMode) (p : Process) :
    Prop :=
  ∃ es, run step (boot config delivery mode) es = some p

/-- What the health comes to about a task once its supervisor has made its statements. -/
def due (p : Process) (name : String) : TaskHealth :=
  (p.pending name).todo.foldl (fun h w => h.write name w) p.fleet.health

section
variable {p p' : Process} {f g : Fleet} {m : Member} {i : ℕ}

theorem step_states (h : p.step (.states i) = some p') :
    ∃ m w ws, p.fleet.members[i]? = some m ∧ (p.pending m.name).todo = w :: ws ∧
      p' = ⟨{ p.fleet with health := p.fleet.health.write m.name w },
        Function.update p.pending m.name (p.pending m.name).next⟩ := by
  simp only [step] at h
  split at h
  · cases h
  · rename_i m hm
    split at h
    · cases h
    · rename_i w ws htodo
      cases h
      exact ⟨m, w, ws, hm, htodo, rfl⟩

theorem step_fleet {e : FleetEvent} (h : p.step (.fleet e) = some p') :
    p.free e = true ∧ ∃ f, p.fleet.step e = some f ∧
      p' = ⟨{ f with health := p.fleet.health }, p.pendingAfter e⟩ := by
  simp only [step] at h
  split_ifs at h with hfree
  obtain ⟨f, hf, rfl⟩ := Option.map_eq_some_iff.mp h
  exact ⟨hfree, f, hf, rfl⟩

theorem pendingAfter_poll (hm : p.fleet.members[i]? = some m) :
    p.pendingAfter (.poll i) = Function.update p.pending m.name (.polled m p.fleet.health) := by
  simp only [pendingAfter, hm]

theorem todo_of_free {e : FleetEvent} (hm : p.fleet.members[i]? = some m)
    (he : e = .poll i ∨ e = .elapse i) (hfree : p.free e = true) :
    (p.pending m.name).todo = [] := by
  rcases he with rfl | rfl <;>
    · simp only [free, hm, Option.all_some, List.isEmpty_iff] at hfree
      exact hfree

/-- Of the fleet that makes the updates of a poll at once: all but the health is the same, and the
health is what it comes to about each task. -/
structure Mirrors (p : Process) (f : Fleet) : Prop where
  channel : p.fleet.channel = f.channel
  members : p.fleet.members = f.members
  required : p.fleet.health.required = f.health.required
  entries : ∀ name ∈ f.members.map Member.name, SameEntries name f.health (p.due name)
  others : ∀ name, name ∉ f.members.map Member.name →
    p.fleet.health.disabled name = f.health.disabled name

/-- A statement is no step of the fleet: it was made with the poll. -/
theorem Mirrors.states (hp : p.Mirrors f) (h : p.step (.states i) = some p') : p'.Mirrors f := by
  obtain ⟨m, w, ws, hm, htodo, rfl⟩ := step_states h
  constructor
  · exact hp.channel
  · exact hp.members
  · exact (required_write _ _ _).trans hp.required
  · intro name hname
    refine (hp.entries name hname).trans ?_
    unfold due
    by_cases hne : name = m.name
    · subst hne
      simp only [Function.update_self, Pending.next, htodo]
      exact ⟨rfl, rfl, rfl, rfl⟩
    · simp only [Function.update_of_ne hne]
      exact (sameEntries_write hne _ w).writes _
  · intro name hname
    have hne : name ≠ m.name := by
      rintro rfl
      exact hname (List.mem_map_of_mem (hp.members ▸ List.mem_of_getElem? hm))
    exact (sameEntries_write hne _ w).disabled.trans (hp.others name hname)

/-- Neither is there more to a poll than the statements that it leaves to be made. -/
theorem Mirrors.poll (hp : p.Mirrors f) (h : p.step (.fleet (.poll i)) = some p') :
    ∃ m, p.fleet.members[i]? = some m ∧ f.step (.poll i) = some (f.poll i m) ∧
      p'.Mirrors (f.poll i m) := by
  obtain ⟨hfree, g, hg, rfl⟩ := step_fleet h
  obtain ⟨m, hm, rfl⟩ := Fleet.step_poll hg
  have hmf : f.members[i]? = some m := hp.members ▸ hm
  have hstep : f.step (.poll i) = some (f.poll i m) := by simp only [Fleet.step, hmf]
  obtain ⟨hhealth, hmembers⟩ := Fleet.poll_statements f i m p.fleet.health
  have hfleet : p.fleet = { f with health := p.fleet.health } := by rw [← hp.channel, ← hp.members]
  rw [← hfleet] at hmembers
  have hafter := pendingAfter_poll hm
  have hnone := todo_of_free hm (.inl rfl) hfree
  refine ⟨m, hm, hstep, hp.channel, hmembers, ?_, ?_, ?_⟩
  · rw [hhealth, required_writes]
    exact hp.required
  · intro name hname
    rw [Fleet.step_names hstep] at hname
    have hnow := hp.entries name hname
    rw [hhealth]
    unfold due at hnow ⊢
    by_cases hne : name = m.name
    · subst hne
      rw [hnone] at hnow
      simp only [hafter, Function.update_self]
      exact SameEntries.writes hnow _
    · simp only [hafter, Function.update_of_ne hne]
      exact (sameEntries_writes hne _ _).symm.trans hnow
  · intro name hname
    rw [Fleet.step_names hstep] at hname
    have hne : name ≠ m.name := by
      rintro rfl
      exact hname (List.mem_map_of_mem (List.mem_of_getElem? hmf))
    rw [hhealth]
    exact (hp.others name hname).trans (sameEntries_writes hne _ _).disabled.symm

/-- What the process does the fleet does, or has done already. -/
theorem Mirrors.step {e : ProcessEvent} (hp : p.Mirrors f) (h : p.step e = some p') :
    ∃ g, p'.Mirrors g ∧ (g = f ∨ ∃ e', f.step e' = some g) := by
  cases e with
  | states i => exact ⟨f, hp.states h, .inl rfl⟩
  | fleet e =>
    by_cases hpoll : ∃ i, e = .poll i
    · obtain ⟨i, rfl⟩ := hpoll
      obtain ⟨m, -, hstep, hmirrors⟩ := hp.poll h
      exact ⟨_, hmirrors, .inr ⟨_, hstep⟩⟩
    · simp only [not_exists] at hpoll
      obtain ⟨-, g, hg, rfl⟩ := step_fleet h
      obtain ⟨hsame, hstep⟩ := Fleet.step_under hg hpoll f.health
      have hf : ({ p.fleet with health := f.health } : Fleet) = f := by
        simp only [hp.channel, hp.members]
      rw [hf] at hstep
      have hafter : p.pendingAfter e = p.pending := by
        cases e with
        | poll i => exact absurd rfl (hpoll i)
        | _ => rfl
      refine ⟨{ g with health := f.health }, ⟨rfl, rfl, hp.required, ?_, ?_⟩, .inr ⟨e, hstep⟩⟩
      · intro name hname
        rw [Fleet.step_names hstep] at hname
        unfold due
        rw [hafter]
        exact hp.entries name hname
      · intro name hname
        rw [Fleet.step_names hstep] at hname
        exact hp.others name hname

end

section
variable {name : String} {h h' : TaskHealth} {pc : Pc} {log : List Action} {l : Lock}

theorem Tells.congr (hs : SameEntries name h h') (ht : Tells name h pc log l) :
    Tells name h' pc log l := by
  cases l with
  | running =>
    unfold Tells at ht ⊢
    rw [hs.running]
    exact ht
  | restarts =>
    unfold Tells at ht ⊢
    rw [hs.restarts]
    exact ht
  | consecutiveFailures =>
    unfold Tells at ht ⊢
    rw [hs.consecutiveFailures]
    exact ht
  | disabled =>
    have hsame := hs.disabled
    unfold disabledReason at hsame
    unfold Tells at ht ⊢
    rw [hsame]
    exact ht
  | required => trivial

theorem tells_write {w : Write} (hne : w.lock ≠ some l) :
    Tells name (h.write name w) pc log l ↔ Tells name h pc log l := by
  cases w <;> cases l <;> first | exact Iff.rfl | exact absurd rfl hne

theorem tells_writes {ws : List Write} (hl : l ∉ ws.filterMap Write.lock) :
    Tells name (ws.foldl (fun h w => h.write name w) h) pc log l ↔ Tells name h pc log l := by
  induction ws generalizing h with
  | nil => exact Iff.rfl
  | cons w ws ih =>
    simp only [List.mem_filterMap, List.mem_cons, exists_eq_or_imp, not_or] at hl
    have hrest : l ∉ ws.filterMap Write.lock := fun hmem => hl.2 (List.mem_filterMap.mp hmem)
    exact (ih hrest).trans (tells_write hl.1)

end

section
variable {config : Config} {delivery : DeliveryConfig} {mode : ListenerMode} {p p' : Process}
  {f : Fleet} {m : Member} {l : Lock}

/-- The entries still to be changed say what they said where the supervisor was polled. -/
def Placed (p : Process) : Prop :=
  ∀ name ∈ p.fleet.members.map Member.name, ∀ l ∈ (p.pending name).locks,
    Tells name p.fleet.health (p.pending name).pc (p.pending name).log l

/-- The entries that no statement to come changes say what they say in the fleet. -/
theorem Mirrors.tells (hp : p.Mirrors f) (hf : Fleet.Booted config delivery mode f)
    (hm : m ∈ p.fleet.members) (hl : l ∉ (p.pending m.name).locks) :
    Tells m.name p.fleet.health m.pc m.log l := by
  rw [hp.members] at hm
  have hsame := hp.entries m.name (List.mem_map_of_mem hm)
  exact (tells_writes hl).mp (Tells.congr hsame (hf.tells hm l))

theorem Placed.step {e : ProcessEvent} (hplaced : p.Placed) (hp : p.Mirrors f)
    (hf : Fleet.Booted config delivery mode f) (h : p.step e = some p') : p'.Placed := by
  cases e with
  | states i =>
    obtain ⟨m, w, ws, hm, htodo, rfl⟩ := step_states h
    intro name hname l hl
    by_cases hne : name = m.name
    · subst hne
      have hdistinct := (p.pending m.name).distinct
      simp only [Function.update_self, Pending.locks, Pending.next, htodo, List.tail_cons]
        at hl hdistinct ⊢
      have hother : w.lock ≠ some l := by
        intro hw
        rw [List.filterMap_cons_some hw] at hdistinct
        exact (List.nodup_cons.mp hdistinct).1 hl
      refine (tells_write hother).mpr (hplaced m.name hname l ?_)
      simp only [Pending.locks, htodo, List.mem_filterMap] at hl ⊢
      obtain ⟨w', hw', hlock⟩ := hl
      exact ⟨w', List.mem_cons_of_mem w hw', hlock⟩
    · simp only [Function.update_of_ne hne] at hl ⊢
      exact Tells.congr (sameEntries_write hne _ w) (hplaced name hname l hl)
  | fleet e =>
    obtain ⟨hfree, g, hg, rfl⟩ := step_fleet h
    intro name hname l hl
    rw [Fleet.step_names hg] at hname
    have hkeep : p.pendingAfter e name = p.pending name →
        Tells name p.fleet.health (p.pendingAfter e name).pc (p.pendingAfter e name).log l := by
      intro hsame
      simp only [hsame] at hl ⊢
      exact hplaced name hname l hl
    cases e with
    | poll i =>
      obtain ⟨m, hm, rfl⟩ := Fleet.step_poll hg
      have hafter := pendingAfter_poll hm
      by_cases hne : name = m.name
      · subst hne
        have hnone : (p.pending m.name).locks = [] := by
          simp only [Pending.locks, todo_of_free hm (.inl rfl) hfree, List.filterMap_nil]
        simp only [hafter, Function.update_self]
        exact hp.tells hf (List.mem_of_getElem? hm) (hnone ▸ List.not_mem_nil)
      · exact hkeep (by rw [hafter, Function.update_of_ne hne])
    | _ => exact hkeep rfl

/-- As long as a supervisor has yet to state whether its task runs, it awaits no child. -/
def Unattended (p : Process) : Prop :=
  ∀ m ∈ p.fleet.members, .running ∈ (p.pending m.name).locks → m.pc.child? = none

theorem Unattended.step {e : ProcessEvent} (hu : p.Unattended) (hn : p.fleet.Named)
    (h : p.step e = some p') :
    p'.Unattended := by
  cases e with
  | states i =>
    obtain ⟨m, w, ws, hm, htodo, rfl⟩ := step_states h
    intro x hx hl
    refine hu x hx ?_
    by_cases hne : x.name = m.name
    · simp only [hne, Function.update_self, Pending.locks, Pending.next, List.mem_filterMap] at hl ⊢
      obtain ⟨w', hw', hlock⟩ := hl
      exact ⟨w', List.mem_of_mem_tail hw', hlock⟩
    · simpa only [Function.update_of_ne hne] using hl
  | fleet e =>
    obtain ⟨hfree, g, hg, rfl⟩ := step_fleet h
    cases e with
    | poll i =>
      obtain ⟨m, hm, rfl⟩ := Fleet.step_poll hg
      intro x hx hl
      simp only [pendingAfter_poll hm] at hl
      rcases Fleet.mem_poll hn hm hx with rfl | ⟨hold, hne⟩
      · simp only [Member.become, Function.update_self] at hl
        exact Supervisor.child_of_statements _ m.name .default hl
      · rw [Function.update_of_ne hne] at hl
        exact hu x hold hl
    | elapse i =>
      obtain ⟨m, pc, hm, rfl, -⟩ := Fleet.step_elapse hg
      refine Machine.forall_mem_set hu fun hl => ?_
      simp only [pendingAfter, Pending.locks, todo_of_free hm (.inr rfl) hfree, List.filterMap_nil,
        List.not_mem_nil] at hl
    | work i k ev =>
      obtain ⟨m, w, w', hm, -, -, rfl⟩ := Fleet.step_work hg
      exact Machine.forall_mem_set hu (hu m (List.mem_of_getElem? hm))
    | send value =>
      obtain ⟨-, rfl⟩ := Fleet.step_send hg
      intro x hx hl
      obtain ⟨m, hm, rfl⟩ := List.mem_map.mp hx
      exact hu m hm hl
    | close =>
      cases hg
      intro x hx hl
      obtain ⟨m, hm, rfl⟩ := List.mem_map.mp hx
      exact hu m hm hl

theorem mirrors_boot (config : Config) (delivery : DeliveryConfig) (mode : ListenerMode) :
    (boot config delivery mode).Mirrors (.boot config delivery mode) :=
  ⟨rfl, rfl, rfl, fun _ _ => ⟨rfl, rfl, rfl, rfl⟩, fun _ _ => rfl⟩

theorem Mirrors.named (hp : p.Mirrors f) (hf : Fleet.Booted config delivery mode f) :
    p.fleet.Named := by
  unfold Fleet.Named
  rw [hp.members]
  exact hf.named

/-- The invariant of the process. -/
structure Inv (config : Config) (delivery : DeliveryConfig) (mode : ListenerMode) (p : Process) :
    Prop where
  mirrors : ∃ f, Fleet.Booted config delivery mode f ∧ p.Mirrors f
  placed : p.Placed
  unattended : p.Unattended

theorem inv_boot (config : Config) (delivery : DeliveryConfig) (mode : ListenerMode) :
    Inv config delivery mode (boot config delivery mode) := by
  constructor
  · exact ⟨_, ⟨[], rfl⟩, mirrors_boot config delivery mode⟩
  · exact fun _ _ l hl => absurd hl List.not_mem_nil
  · exact fun _ _ hl => absurd hl List.not_mem_nil

theorem Inv.step {e : ProcessEvent} (hi : Inv config delivery mode p) (h : p.step e = some p') :
    Inv config delivery mode p' := by
  obtain ⟨f, hf, hp⟩ := hi.mirrors
  constructor
  · obtain ⟨g, hg, rfl | ⟨e', he'⟩⟩ := hp.step h
    · exact ⟨_, hf, hg⟩
    · exact ⟨g, hf.later ⟨[e'], run_cons.mpr ⟨g, he', rfl⟩⟩, hg⟩
  · exact hi.placed.step hp hf h
  · exact hi.unattended.step (hp.named hf) h

theorem Booted.inv (hp : Booted config delivery mode p) : Inv config delivery mode p := by
  obtain ⟨es, hr⟩ := hp
  exact run_invariant (fun p e p' h hi => hi.step h) hr (inv_boot config delivery mode)

theorem Booted.later (hp : Booted config delivery mode p) (hr : ∃ es, run step p es = some p') :
    Booted config delivery mode p' := by
  obtain ⟨es, hes⟩ := hp
  obtain ⟨fs, hfs⟩ := hr
  exact ⟨es ++ fs, run_append hes hfs⟩

/-- In every state of the process the fleet is in a state of one of its own runs, but for the
statements that are still to be made. -/
theorem Booted.mirrors (hp : Booted config delivery mode p) :
    ∃ f, Fleet.Booted config delivery mode f ∧ p.Mirrors f := hp.inv.mirrors

theorem Booted.named (hp : Booted config delivery mode p) : p.fleet.Named := by
  obtain ⟨f, hf, hmirrors⟩ := hp.mirrors
  exact hmirrors.named hf

theorem Booted.declared (hp : Booted config delivery mode p) :
    p.fleet.Declared ((Fleet.spawned config delivery mode).map Member.name)
      (Fleet.required config mode) := by
  obtain ⟨f, hf, hmirrors⟩ := hp.mirrors
  have hd := hf.declared
  constructor
  · exact hmirrors.required.trans hd.required
  · rw [hmirrors.members]
    exact hd.names
  · intro name hname
    rw [hmirrors.others name (hd.names ▸ hname)]
    exact hd.disabled name hname

/-- Where the supervisor of a member stood, and what it had done, at the last statement under the
lock: where it was polled, as long as that statement is still to come. -/
def stood (p : Process) (l : Lock) (m : Member) : Pc × List Action :=
  if l ∈ (p.pending m.name).locks then ((p.pending m.name).pc, (p.pending m.name).log)
  else (m.pc, m.log)

/-- Every entry says where the supervisor stood, and what it had done, at the
last statement about it. -/
theorem Booted.tells (hp : Booted config delivery mode p) (hm : m ∈ p.fleet.members) (l : Lock) :
    Tells m.name p.fleet.health (p.stood l m).1 (p.stood l m).2 l := by
  obtain ⟨f, hf, hmirrors⟩ := hp.mirrors
  unfold stood
  split_ifs with hl
  · exact hp.inv.placed m.name (List.mem_map_of_mem hm) l hl
  · exact hmirrors.tells hf hm hl

def marked (p : Process) (m : Member) : Bool := (p.stood .running m).1.marked

def panics (p : Process) (m : Member) : ℕ := panicsSinceStable (p.stood .consecutiveFailures m).2

def off (p : Process) (m : Member) : Bool := switchedOff (p.stood .disabled m).2

/-- A task that runs is marked so. -/
theorem Booted.marked_of_running (hp : Booted config delivery mode p) (hm : m ∈ p.fleet.members)
    (hrun : .running ∈ m.workers.map Worker.child) : p.marked m = true := by
  obtain ⟨f, hf, hmirrors⟩ := hp.mirrors
  have hi := hf.inv (hmirrors.members ▸ hm)
  obtain ⟨c, hc⟩ := List.mem_iff_getElem?.mp hrun
  have hchild : m.pc.child? = some c := hi.child c hc
  unfold marked stood
  rw [if_neg fun hl => by rw [hp.inv.unattended m hm hl] at hchild; cases hchild]
  cases hpc : m.pc with
  | waiting _ _ _ => rfl
  | draining _ => rfl
  | _ =>
    rw [hpc] at hchild
    cases hchild

end
end Process
end Supervise
end StellarGate
