import Mathlib.Data.Finset.Prod
import Mathlib.Data.Nat.Count
import Mathlib.Order.Filter.AtTopBot.Basic
import Mathlib.Order.Filter.Finite
import StellarGate.Base.Progress
import StellarGate.Supervise.Probe

/-! The shutdown of the fleet: after `shutdown_tx.send(true)` of `main` every supervisor
returns, with its tasks ended, and no task begins more than one more cycle, and one for
each pause of no length. -/
namespace StellarGate
namespace Supervise
open Base

/-- How many steps a task has left at most, once it is told to stop. -/
def WorkerPc.left : WorkerPc → ℕ
  | .start => 2
  | .cycle => 1
  | .pause false => 3
  | .pause true => 2
  | .ended _ => 0

/-- How many cycles it may still begin. -/
def WorkerPc.owed : WorkerPc → ℕ
  | .start | .pause _ => 1
  | .cycle | .ended _ => 0

/-- How many steps a supervisor has left at most, with those of a task it may still spawn. -/
def Pc.left : Pc → ℕ
  | .returned => 0
  | .top | .joined _ | .draining _ | .sleeping true => 1
  | .sleeping false => 2
  | .waiting _ false false => 3
  | .waiting _ _ _ => 2
  | .spawning => 6

def Pc.owed : Pc → ℕ
  | .spawning => 1
  | _ => 0

namespace Member

def left (m : Member) : ℕ := m.pc.left + (m.workers.map fun w => w.pc.left).sum

def cycles (m : Member) : ℕ := (m.workers.map Worker.cycles).sum

def owed (m : Member) : ℕ := m.pc.owed + (m.workers.map fun w => w.pc.owed).sum

end Member

/-- What happens on the way out: nothing is sent any more. -/
def FleetEvent.afterwards : FleetEvent → Bool
  | .send _ | .close => false
  | _ => true

/-- Whether a task of the member goes into a pause of no length. -/
def FleetEvent.hurries (i : ℕ) : FleetEvent → Bool
  | .work j _ e => decide (j = i ∧ e = .finishes true)
  | _ => false

def WorkerEvent.due : WorkerEvent → Bool
  | .begins none | .finishes false | .observes => true
  | _ => false

/-- What is not to be put off: the polls, and what a task does of itself. -/
def FleetEvent.due : FleetEvent → Bool
  | .poll _ => true
  | .work _ _ e => e.due
  | _ => false

theorem FleetEvent.afterwards_of_due {e : FleetEvent} (h : e.due = true) :
    e.afterwards = true ∧ ∀ i, e.hurries i = false := by
  cases e with
  | work i k e =>
    refine ⟨rfl, fun j => decide_eq_false ?_⟩
    rintro ⟨-, rfl⟩
    cases h
  | send value | close => cases h
  | _ => exact ⟨rfl, fun _ => rfl⟩

namespace Fleet

def left (f : Fleet) : ℕ := (f.members.map Member.left).sum

/-- The fleet once it is told to stop. -/
structure Stopping (f : Fleet) : Prop where
  synced : f.Synced
  named : f.Named
  reachable : ∀ m ∈ f.members, Supervisor.Reachable m.name .default (m.under f.health)
  value : f.channel.value = true
  ready : f.channel.ready = true

section
variable {f g : Fleet} {e : FleetEvent} {i : ℕ} {m : Member}

theorem Worker.pausing_of_ready {w : Worker} (h : w.shutdown.ready = true) :
    w.pausing = { w with pc := .ended .shutdownRequested } := by
  unfold Worker.pausing
  rw [if_pos h]

/-- A step of a task that is told to stop brings its end nearer, unless it changes nothing. -/
theorem Worker.left_of_step {l : Loop} {w w' : Worker} {e : WorkerEvent} (h : w.step l e = some w')
    (hready : w.shutdown.ready = true) (he : e ≠ .finishes true) :
    w' = w ∨ w'.pc.left < w.pc.left := by
  cases Worker.turn_of_step h with
  | hurries => exact absurd rfl he
  | pauses hpc | finishes hpc =>
    right
    rw [pausing_of_ready hready, hpc]
    exact Nat.succ_pos _
  | @elapses b hpc =>
    cases b with
    | true => exact .inl (by rw [← hpc])
    | false => exact .inr (by rw [hpc]; exact Nat.lt_succ_self 2)
  | panics hpc => rcases hpc with hpc | hpc <;> exact .inr (by rw [hpc]; exact Nat.succ_pos _)
  | cycles hpc | wakes hpc => exact .inr (by rw [hpc]; exact Nat.lt_succ_self 1)
  | @observes b hpc => cases b <;> exact .inr (by rw [hpc]; exact Nat.succ_pos _)
  | _ hpc => exact .inr (by rw [hpc]; exact Nat.succ_pos _)

/-- Each cycle that is begun had been owed, and a pause of no length owes one more. -/
theorem Worker.owed_of_step {l : Loop} {w w' : Worker} {e : WorkerEvent} (h : w.step l e = some w')
    (hready : w.shutdown.ready = true) :
    w'.cycles + w'.pc.owed ≤ w.cycles + w.pc.owed + if e = .finishes true then 1 else 0 := by
  cases Worker.turn_of_step h with
  | hurries => exact Nat.add_le_add_right (Nat.le_add_right _ _) 1
  | pauses | finishes =>
    rw [pausing_of_ready hready]
    exact Nat.le_add_right _ _
  | cycles hpc | wakes hpc | elapses hpc =>
    rw [hpc]
    exact le_rfl
  | _ => exact Nat.le_add_right _ _

theorem Worker.ended_of_step {l : Loop} {w w' : Worker} {e : WorkerEvent}
    (h : w.step l e = some w') :
    ∀ o, w.pc ≠ .ended o := by
  intro o ho
  have hruns := Worker.child_of_step h
  unfold Worker.child at hruns
  rw [ho] at hruns
  cases hruns

theorem Stopping.told (hf : f.Stopping) (hm : m ∈ f.members) :
    m.shutdown.value = true ∧ (m.pc.active = true → m.shutdown.ready = true) := by
  refine ⟨(hf.synced.value m hm).trans hf.value, fun hactive => ?_⟩
  rw [hf.synced.active m hm hactive]
  exact hf.ready

theorem left_become {s : Supervisor} {workers : List Worker} (hw : workers = m.workers)
    (h : s.pc.left < m.pc.left) : (m.become s workers).left < m.left := by
  subst hw
  exact Nat.add_lt_add_right h _

theorem become_of_polled {h : TaskHealth} {t : Supervisor} {w : Worker} {workers : List Worker}
    (hpolled : Polled m.name .default (m.under h) t)
    (hworkers : workers = if m.pc = .spawning then m.workers ++ [w] else m.workers)
    (hw : w.pc = .start) (hvalue : m.shutdown.value = true)
    (hready : m.pc.active = true → m.shutdown.ready = true) :
    m.become t workers = m ∧ t.health = h ∨ (m.become t workers).left < m.left := by
  have hkeep : m.pc ≠ .spawning → workers = m.workers := fun hne => by rw [hworkers, if_neg hne]
  cases hpolled with
  | spawns hpc =>
    have hmpc : m.pc = .spawning := hpc
    right
    simp only [Member.become, Member.left, hworkers, hmpc, if_pos, List.map_append, List.map_cons,
      List.map_nil, List.sum_append, List.sum_cons, List.sum_nil, hw, Pc.left, WorkerPc.left]
    omega
  | drains hpc | returned hpc =>
    have hmpc : m.pc = _ := hpc
    rw [hkeep (by rw [hmpc]; exact fun h => by cases h)]
    exact .inl ⟨rfl, rfl⟩
  | stopsAtTop hpc | drained hpc | stopsAtJoin hpc =>
    have hmpc : m.pc = _ := hpc
    refine .inr (left_become (hkeep (by rw [hmpc]; exact fun h => by cases h)) ?_)
    rw [hmpc]
    exact Nat.succ_pos 0
  | @stopsAsleep elapsed hpc =>
    have hmpc : m.pc = _ := hpc
    refine .inr (left_become (hkeep (by rw [hmpc]; exact fun h => by cases h)) ?_)
    rw [hmpc]
    cases elapsed <;> exact Nat.succ_pos _
  | @observes child stable elapsed hpc =>
    have hmpc : m.pc = _ := hpc
    refine .inr (left_become (hkeep (by rw [hmpc]; exact fun h => by cases h)) ?_)
    rw [hmpc]
    cases stable <;> cases elapsed <;> exact Nat.lt_add_left _ (Nat.lt_succ_self 1)
  | marks hpc hno | ends hpc hno | switchesOff hpc hno | fatal hpc hno | panic hpc hno =>
    exact absurd (hno.symm.trans hvalue) Bool.false_ne_true
  | settles hpc hno | joins hpc hno | waits hpc hno | retries hpc hno | sleeps hpc hno =>
    have hmpc : m.pc = _ := hpc
    exact absurd (hno.symm.trans (hready (by rw [hmpc]; rfl))) Bool.false_ne_true

/-- On the way out a supervisor spawns the task it was about to spawn, and no other. -/
theorem spawned_of_polled {h : TaskHealth} {t : Supervisor}
    (hpolled : Polled m.name .default (m.under h) t) (hvalue : m.shutdown.value = true) :
    t.pc.owed = 0 := by
  cases hpolled with
  | marks hpc hno => exact absurd (hno.symm.trans hvalue) Bool.false_ne_true
  | drains hpc | returned hpc | waits hpc | sleeps hpc =>
    rw [hpc]
    rfl
  | _ hpc => rfl

/-- The task spawned on the way out owes the cycle that the supervisor did. -/
theorem owed_of_polled {h : TaskHealth} {t : Supervisor} {w : Worker} {workers : List Worker}
    (hpolled : Polled m.name .default (m.under h) t)
    (hworkers : workers = if m.pc = .spawning then m.workers ++ [w] else m.workers)
    (hw : w.pc = .start) (hcycles : w.cycles = 0) (hvalue : m.shutdown.value = true) :
    (m.become t workers).cycles + (m.become t workers).owed ≤ m.cycles + m.owed ∧
      (m.become t workers).workers.length + t.pc.owed ≤ m.workers.length + m.pc.owed := by
  have hnone := spawned_of_polled hpolled hvalue
  unfold Member.become Member.cycles Member.owed
  simp only [hnone]
  split_ifs at hworkers with hpc <;> subst hworkers
  · simp only [hpc, List.map_append, List.map_cons, List.map_nil, List.sum_append, List.sum_cons,
      List.sum_nil, hw, hcycles, Pc.owed, WorkerPc.owed, List.length_append, List.length_cons,
      List.length_nil]
    omega
  · omega

theorem left_of_member {m' : Member} (hm : f.members[i]? = some m)
    (hg : g.members = f.members.set i m') (h : m'.left < m.left) : g.left < f.left := by
  have hsum := sum_map_set (f := Member.left) (b := m') hm
  unfold left
  rw [hg]
  omega

theorem Stopping.worker_ready (hf : f.Stopping) (hm : f.members[i]? = some m) {w : Worker}
    (hw : w ∈ m.workers) :
    w.shutdown.ready = true := by
  rw [hf.synced.workers m (List.mem_of_getElem? hm) w hw]
  exact hf.ready

/-- A step on the way out brings the end nearer, unless it changes nothing. -/
theorem Stopping.left_step (hf : f.Stopping) (he : e.afterwards = true)
    (hcalm : ∀ i, e.hurries i = false) (h : f.step e = some g) : g = f ∨ g.left < f.left := by
  cases e with
  | poll i =>
    obtain ⟨m, hm, rfl⟩ := step_poll h
    obtain ⟨hvalue, hready⟩ := hf.told (List.mem_of_getElem? hm)
    have hpolled := polled m.name .default (m.under f.health)
    have hspawned : (Worker.spawn f.channel).pc = .start := rfl
    rcases become_of_polled hpolled rfl hspawned hvalue hready with ⟨hsame, hhealth⟩ | hless
    · left
      unfold Fleet.poll
      simp only
      rw [hsame, hhealth, set_self hm]
    · exact .inr (left_of_member hm rfl hless)
  | elapse i =>
    obtain ⟨m, pc, hm, rfl, -, hpc⟩ := step_elapse h
    have hless : pc.left < m.pc.left → ({ m with pc := pc } : Member).left < m.left := fun h =>
      Nat.add_lt_add_right h _
    rcases hpc with ⟨c, b, hold, rfl⟩ | ⟨b, hold, rfl⟩ <;> cases b
    · exact .inr (left_of_member hm rfl (hless (by rw [hold]; exact Nat.lt_succ_self 2)))
    · exact .inl (by rw [← hold, set_self hm])
    · exact .inr (left_of_member hm rfl (hless (by rw [hold]; exact Nat.lt_succ_self 1)))
    · exact .inl (by rw [← hold, set_self hm])
  | work i k ev =>
    obtain ⟨m, w, w', hm, hw, hw', rfl⟩ := step_work h
    have hready := hf.worker_ready hm (List.mem_of_getElem? hw)
    have hev : ev ≠ .finishes true := by
      rintro rfl
      have hno := hcalm i
      simp [FleetEvent.hurries] at hno
    rcases Worker.left_of_step hw' hready hev with rfl | hless
    · exact .inl (by rw [set_self hw, set_self hm])
    · have hsum := sum_map_set (f := fun w : Worker => w.pc.left) (b := w') hw
      refine .inr (left_of_member hm rfl ?_)
      unfold Member.left
      simp only
      omega
  | send value => cases he
  | close => cases he

theorem Stopping.step (hf : f.Stopping) (he : e.afterwards = true) (h : f.step e = some g) :
    g.Stopping := by
  obtain ⟨hsynced, hnamed, hreachable⟩ := reachable_of_run hf.synced hf.named hf.reachable
    (run_cons.mpr ⟨g, h, rfl⟩ : run Fleet.step f [e] = some g)
  have hchannel : g.channel = f.channel := by
    cases e with
    | poll i =>
      obtain ⟨m, -, rfl⟩ := step_poll h
      rfl
    | elapse i =>
      obtain ⟨m, pc, -, rfl, -⟩ := step_elapse h
      rfl
    | work i k ev =>
      obtain ⟨m, w, w', -, -, -, rfl⟩ := step_work h
      rfl
    | send value => cases he
    | close => cases he
  refine ⟨hsynced, hnamed, hreachable, ?_, ?_⟩
  · rw [hchannel]
    exact hf.value
  · rw [hchannel]
    exact hf.ready

/-- The cycles that each member has begun, or owes, grow with the pauses of no length only; the
tasks it has spawned, or is about to spawn, do not grow. -/
theorem Stopping.owed_step (hf : f.Stopping) (he : e.afterwards = true) (h : f.step e = some g)
    (hm : f.members[i]? = some m) : ∃ m', g.members[i]? = some m' ∧
      m'.cycles + m'.owed ≤ m.cycles + m.owed + (if e.hurries i then 1 else 0) ∧
      m'.workers.length + m'.pc.owed ≤ m.workers.length + m.pc.owed := by
  have hlt := (List.getElem?_eq_some_iff.mp hm).1
  have hsame : g.members[i]? = f.members[i]? → ∃ m', g.members[i]? = some m' ∧
      m'.cycles + m'.owed ≤ m.cycles + m.owed + (if e.hurries i then 1 else 0) ∧
      m'.workers.length + m'.pc.owed ≤ m.workers.length + m.pc.owed := fun hsame =>
    ⟨m, hsame.trans hm, Nat.le_add_right _ _, le_rfl⟩
  cases e with
  | poll j =>
    obtain ⟨p, hp, rfl⟩ := step_poll h
    by_cases hij : j = i
    · subst hij
      cases Option.some.inj (hm.symm.trans hp)
      obtain ⟨hvalue, -⟩ := hf.told (List.mem_of_getElem? hm)
      have hpolled := polled m.name .default (m.under f.health)
      have hspawned : (Worker.spawn f.channel).pc = .start := rfl
      obtain ⟨howed, hlength⟩ := owed_of_polled hpolled rfl hspawned rfl hvalue
      exact ⟨_, List.getElem?_set_self hlt, Nat.le_add_right_of_le howed, hlength⟩
    · exact hsame (List.getElem?_set_ne hij)
  | elapse j =>
    obtain ⟨p, pc, hp, rfl, -, hpc⟩ := step_elapse h
    by_cases hij : j = i
    · subst hij
      cases Option.some.inj (hm.symm.trans hp)
      have hnone : pc.owed = 0 := by rcases hpc with ⟨c, b, -, rfl⟩ | ⟨b, -, rfl⟩ <;> rfl
      refine ⟨_, List.getElem?_set_self hlt, ?_, ?_⟩
      · unfold Member.cycles Member.owed
        simp only [hnone]
        omega
      · simp only [hnone]
        omega
    · exact hsame (List.getElem?_set_ne hij)
  | work j k ev =>
    obtain ⟨p, w, w', hp, hw, hw', rfl⟩ := step_work h
    by_cases hij : j = i
    · subst hij
      cases Option.some.inj (hm.symm.trans hp)
      have howed := Worker.owed_of_step hw' (hf.worker_ready hm (List.mem_of_getElem? hw))
      have hcycles := sum_map_set (f := Worker.cycles) (b := w') hw
      have hsum := sum_map_set (f := fun w : Worker => w.pc.owed) (b := w') hw
      have hhurry : (FleetEvent.work j k ev).hurries j = decide (ev = .finishes true) := by
        simp only [FleetEvent.hurries, true_and]
      refine ⟨_, List.getElem?_set_self hlt, ?_, ?_⟩
      · rw [hhurry]
        simp only [decide_eq_true_eq]
        unfold Member.cycles Member.owed
        simp only
        omega
      · simp only [List.length_set]
        exact le_rfl
    · exact hsame (List.getElem?_set_ne hij)
  | send value => cases he
  | close => cases he

/-- A member that a step leaves elsewhere shows that the step changes something. -/
theorem moves_of_member {m' : Member} (h : f.step e = some g) (hm : f.members[i]? = some m)
    (hg : g.members = f.members.set i m') (hne : m' ≠ m) : Moves Fleet.step f e := by
  refine ⟨g, h, fun heq => ?_⟩
  have hlt := (List.getElem?_eq_some_iff.mp hm).1
  have hm' : f.members[i]? = some m' := by
    rw [← heq, hg]
    exact List.getElem?_set_self hlt
  exact hne (Option.some.inj (hm'.symm.trans hm))

/-- A task that is told to stop has a step of its own to take. -/
theorem Worker.due {w : Worker} (l : Loop) (hready : w.shutdown.ready = true)
    (hruns : w.child = .running) :
    ∃ ev w', WorkerEvent.due ev = true ∧ w.step l ev = some w' ∧ w'.pc ≠ w.pc := by
  cases hpc : w.pc with
  | start =>
    cases hd : l.disabled with
    | some reason =>
      refine ⟨.begins none, _, rfl, by simp only [Worker.step, hpc, hd]; rfl, ?_⟩
      exact fun h => by cases h
    | none =>
      refine ⟨.begins none, _, rfl, by simp only [Worker.step, hpc, hd]; rfl, ?_⟩
      rw [pausing_of_ready hready]
      cases l.cycleFirst <;> exact fun h => by cases h
  | cycle =>
    refine ⟨.finishes false, _, rfl, by simp only [Worker.step, hpc]; rfl, ?_⟩
    rw [pausing_of_ready hready]
    exact fun h => by cases h
  | pause b =>
    refine ⟨.observes, _, rfl, by simp only [Worker.step, hpc, hready, if_true]; rfl, ?_⟩
    exact fun h => by cases h
  | ended o =>
    unfold Worker.child at hruns
    rw [hpc] at hruns
    cases hruns

/-- A supervisor that is told to stop and awaits nothing goes on when it is polled. -/
theorem pc_of_polled {h : TaskHealth} {t : Supervisor}
    (hpolled : Polled m.name .default (m.under h) t) (hvalue : m.shutdown.value = true)
    (hready : m.pc.active = true → m.shutdown.ready = true) (hreturned : m.pc ≠ .returned)
    (hended : ∀ c, m.pc = .draining c → ∃ o, (m.under h).children[c]? = some (.ended o)) :
    t.pc ≠ m.pc := by
  cases hpolled with
  | returned hpc => exact absurd hpc hreturned
  | @drains c hpc hruns =>
    obtain ⟨o, ho⟩ := hended c hpc
    exact absurd ho (hruns o)
  | marks hpc hno | ends hpc hno | switchesOff hpc hno | fatal hpc hno | panic hpc hno =>
    exact absurd (hno.symm.trans hvalue) Bool.false_ne_true
  | settles hpc hno | joins hpc hno | waits hpc hno | retries hpc hno | sleeps hpc hno =>
    have hmpc : m.pc = _ := hpc
    exact absurd (hno.symm.trans (hready (by rw [hmpc]; rfl))) Bool.false_ne_true
  | _ hpc =>
    have hmpc : m.pc = _ := hpc
    rw [hmpc]
    exact fun h => by cases h

/-- As long as a member has not returned something due changes the fleet. -/
theorem Stopping.progress (hf : f.Stopping) (hm : f.members[i]? = some m)
    (hreturned : m.pc ≠ .returned) :
    ∃ ev, ev.due = true ∧ Moves Fleet.step f ev := by
  have hin := List.mem_of_getElem? hm
  obtain ⟨hvalue, hready⟩ := hf.told hin
  by_cases hended : ∀ c, m.pc = .draining c → ∃ o, (m.under f.health).children[c]? = some (.ended o)
  · have hpc := pc_of_polled (polled m.name .default (m.under f.health))
      hvalue hready hreturned hended
    have hstep : f.step (.poll i) = some (f.poll i m) := by simp only [Fleet.step, hm]
    exact ⟨.poll i, rfl, moves_of_member hstep hm rfl fun heq => hpc (congrArg Member.pc heq)⟩
  · -- its task is still on its way
    simp only [not_forall, not_exists] at hended
    obtain ⟨c, hpc, hno⟩ := hended
    have hi := inv_of_reachable (by decide) (hf.reachable m hin)
    have hlength := hi.exits.child c (by show m.pc.child? = some c; rw [hpc]; rfl)
    have hlt : c < m.workers.length := by
      have hmap : (m.under f.health).children.length = m.workers.length := List.length_map _
      omega
    obtain ⟨w, hw⟩ : ∃ w, m.workers[c]? = some w := ⟨_, List.getElem?_eq_getElem hlt⟩
    have hruns : w.child = .running := by
      cases hchild : w.child with
      | running => rfl
      | ended o =>
        refine absurd ?_ (hno o)
        show (m.workers.map Worker.child)[c]? = some (.ended o)
        rw [List.getElem?_map, hw, Option.map_some, hchild]
    obtain ⟨ev, w', hdue, hw', hne⟩ :=
        Worker.due m.loop (hf.worker_ready hm (List.mem_of_getElem? hw)) hruns
    refine ⟨.work i c ev, hdue, ?_⟩
    have hstep : f.step (.work i c ev) =
        some { f with members := f.members.set i { m with workers := m.workers.set c w' } } := by
      simp only [Fleet.step, hm, hw, hw']
    refine moves_of_member hstep hm rfl fun heq => hne ?_
    have hworkers := congrArg (fun m : Member => m.workers[c]?) heq
    simp only [List.getElem?_set_self hlt, hw, Option.some.injEq] at hworkers
    rw [hworkers]

theorem sum_owed_le (workers : List Worker) :
    (workers.map fun w => w.pc.owed).sum ≤ (workers.map Worker.child).count .running := by
  induction workers with
  | nil => exact le_rfl
  | cons w workers ih =>
    rw [List.map_cons, List.map_cons, List.sum_cons]
    cases hpc : w.pc with
    | ended o =>
      have hchild : w.child = .ended o := by
        unfold Worker.child
        rw [hpc]
      rw [hchild, List.count_cons_of_ne (by simp)]
      exact (Nat.zero_add _).trans_le ih
    | _ =>
      have hchild : w.child = .running := by
        unfold Worker.child
        rw [hpc]
      rw [hchild, List.count_cons_self, Nat.add_comm]
      exact Nat.add_le_add ih (by first | exact le_rfl | exact Nat.zero_le 1)

/-- A supervisor has one task at a time, and none while it spawns one. -/
theorem Stopping.owed_le_one (hf : f.Stopping) (hm : m ∈ f.members) : m.owed ≤ 1 := by
  have hi := inv_of_reachable (by decide) (hf.reachable m hm)
  have hsum := sum_owed_le m.workers
  have hone : (m.workers.map Worker.child).count .running ≤ 1 := hi.oneChild
  unfold Member.owed
  by_cases hpc : m.pc = .spawning
  · have hnone : (m.workers.map Worker.child).count .running = 0 := by
      rw [List.count_eq_zero]
      intro hmem
      obtain ⟨i, hrun⟩ := List.mem_iff_getElem?.mp hmem
      have hchild : m.pc.child? = some i := hi.child i hrun
      rw [hpc] at hchild
      cases hchild
    rw [hpc]
    exact Nat.add_le_add_left (hsum.trans hnone.le) 1
  · have hzero : m.pc.owed = 0 := by
      unfold Pc.owed
      split
      · contradiction
      · rfl
    omega

theorem stopping_of_send (hs : f.Synced) (hn : f.Named)
    (hr : ∀ m ∈ f.members, Supervisor.Reachable m.name .default (m.under f.health))
    (h : f.step (.send true) = some g) : g.Stopping := by
  obtain ⟨hsynced, hnamed, hreachable⟩ := reachable_of_run hs hn hr
    (run_cons.mpr ⟨g, h, rfl⟩ : run Fleet.step f [.send true] = some g)
  obtain ⟨-, rfl⟩ := step_send h
  exact ⟨hsynced, hnamed, hreachable, rfl, rfl⟩

end

section
variable {config : Config} {delivery : DeliveryConfig} {mode : ListenerMode} {f g : Fleet}
  {s : ℕ → Fleet} {e : ℕ → FleetEvent}

theorem Stopping.endless (hg : (s 0).Stopping) (hrun : Endless Fleet.step s e)
    (hafter : ∀ n, (e n).afterwards = true) (n : ℕ) : (s n).Stopping :=
  hrun.invariant (fun n _ hs hstep => hs.step (hafter n) hstep) hg n

theorem Stopping.owed_le (hg : (s 0).Stopping) (hrun : Endless Fleet.step s e)
    (hafter : ∀ n, (e n).afterwards = true) {i : ℕ} {m : Member} (hm : (s 0).members[i]? = some m)
    (n : ℕ) :
    ∃ m', (s n).members[i]? = some m' ∧
      m'.cycles + m'.owed ≤ m.cycles + m.owed + Nat.count (fun j => (e j).hurries i = true) n ∧
      m'.workers.length + m'.pc.owed ≤ m.workers.length + m.pc.owed := by
  induction n with
  | zero => exact ⟨m, hm, le_rfl, le_rfl⟩
  | succ n ih =>
    obtain ⟨m', hm', hle, hlength⟩ := ih
    obtain ⟨m'', hm'', hstep, hlength'⟩ :=
      (hg.endless hrun hafter n).owed_step (hafter n) (hrun n) hm'
    refine ⟨m'', hm'', ?_, hlength'.trans hlength⟩
    rw [Nat.count_succ]
    omega

def Ended (f : Fleet) (i k : ℕ) : Prop :=
  ∃ m w o, f.members[i]? = some m ∧ m.workers[k]? = some w ∧ w.pc = .ended o

theorem Ended.step {i k : ℕ} {ev : FleetEvent} (hf : f.Ended i k) (he : ev.afterwards = true)
    (h : f.step ev = some g) : g.Ended i k := by
  obtain ⟨m, w, o, hm, hw, hpc⟩ := hf
  have hlt := (List.getElem?_eq_some_iff.mp hm).1
  have hsame : g.members[i]? = f.members[i]? → g.Ended i k :=
      fun hsame => ⟨m, w, o, hsame.trans hm, hw, hpc⟩
  cases ev with
  | poll j =>
    obtain ⟨p, hp, rfl⟩ := step_poll h
    by_cases hij : j = i
    · subst hij
      cases Option.some.inj (hm.symm.trans hp)
      refine ⟨_, w, o, List.getElem?_set_self hlt, ?_, hpc⟩
      simp only [Member.become]
      split_ifs
      · rw [List.getElem?_append_left (List.getElem?_eq_some_iff.mp hw).1]
        exact hw
      · exact hw
    · exact hsame (List.getElem?_set_ne hij)
  | elapse j =>
    obtain ⟨p, pc, hp, rfl, -⟩ := step_elapse h
    by_cases hij : j = i
    · subst hij
      cases Option.some.inj (hm.symm.trans hp)
      exact ⟨_, w, o, List.getElem?_set_self hlt, hw, hpc⟩
    · exact hsame (List.getElem?_set_ne hij)
  | work j l ev =>
    obtain ⟨p, x, x', hp, hx, hx', rfl⟩ := step_work h
    by_cases hij : j = i
    · subst hij
      cases Option.some.inj (hm.symm.trans hp)
      have hkl : l ≠ k := by
        rintro rfl
        cases Option.some.inj (hw.symm.trans hx)
        exact Worker.ended_of_step hx' o hpc
      exact ⟨_, w, o, List.getElem?_set_self hlt, (List.getElem?_set_ne hkl).trans hw, hpc⟩
    · exact hsame (List.getElem?_set_ne hij)
  | send value => cases he
  | close => cases he

theorem Ended.later {i k n j : ℕ} (hn : (s n).Ended i k) (hrun : Endless Fleet.step s e)
    (hafter : ∀ n, (e n).afterwards = true) (hnj : n ≤ j) : (s j).Ended i k := by
  induction j, hnj using Nat.le_induction with
  | base => exact hn
  | succ j hnj ih => exact ih.step (hafter j) (hrun j)

/-- A task that sees the shutdown in some select, if it goes on for ever from one pause of no length
to the next, has a last such pause. -/
theorem unhurried_of_select {i k : ℕ} (hrun : Endless Fleet.step s e)
    (hafter : ∀ n, (e n).afterwards = true)
    (hselect : (∀ n, ∃ j, n ≤ j ∧ e j = .work i k (.finishes true)) →
      ∃ j, e j = .work i k .observes) :
    ∀ᶠ n in Filter.atTop, e n ≠ .work i k (.finishes true) := by
  by_contra hno
  have hoften : ∀ n, ∃ j, n ≤ j ∧ e j = .work i k (.finishes true) := by
    simpa only [Filter.eventually_atTop, not_exists, not_forall, not_not, exists_prop] using hno
  obtain ⟨j, hj⟩ := hselect hoften
  obtain ⟨n, hn, hen⟩ := hoften (j + 1)
  have hobserves := hrun j
  rw [hj] at hobserves
  obtain ⟨m, w, w', hm, hw, hw', hs⟩ := step_work hobserves
  obtain ⟨o, ho⟩ : ∃ o, w'.pc = .ended o := by
    cases Worker.turn_of_step hw' with
    | observes => exact ⟨_, rfl⟩
  have hended : (s (j + 1)).Ended i k := by
    rw [hs]
    exact ⟨_, w', o, List.getElem?_set_self (List.getElem?_eq_some_iff.mp hm).1,
      List.getElem?_set_self (List.getElem?_eq_some_iff.mp hw).1, ho⟩
  -- a task that has ended takes no step
  obtain ⟨m, w, o, hm, hw, hpc⟩ := hended.later hrun hafter hn
  have hstep := hrun n
  rw [hen] at hstep
  obtain ⟨m', x, x', hm', hx, hx', -⟩ := step_work hstep
  cases Option.some.inj (hm.symm.trans hm')
  cases Option.some.inj (hw.symm.trans hx)
  exact Worker.ended_of_step hx' o hpc

/-- There are no more tasks than have been spawned, or are about to be, so one pause of
no length is the last. -/
theorem Stopping.unhurried (hg : (s 0).Stopping) (hrun : Endless Fleet.step s e)
    (hafter : ∀ n, (e n).afterwards = true)
    (hselect : ∀ i k, (∀ n, ∃ j, n ≤ j ∧ e j = .work i k (.finishes true)) →
      ∃ j, e j = .work i k .observes) :
    ∃ N, ∀ n, N ≤ n → ∀ i, (e n).hurries i = false := by
  let room := ((s 0).members.map fun m => m.workers.length + m.pc.owed).sum
  have hall : ∀ᶠ n in Filter.atTop, ∀ x ∈ Finset.range (s 0).members.length ×ˢ Finset.range room,
      e n ≠ .work x.1 x.2 (.finishes true) :=
    (Filter.eventually_all_finset _).mpr fun x _ => unhurried_of_select hrun hafter
    (hselect x.1 x.2)
  obtain ⟨N, hN⟩ := Filter.eventually_atTop.mp hall
  have hlength : ∀ n, (s n).members.length = (s 0).members.length := fun n =>
    hrun.invariant (I := fun f => f.members.length = (s 0).members.length) (fun n t hn hstep => by
      have hnames := congrArg List.length (step_names hstep)
      rw [List.length_map, List.length_map] at hnames
      exact hnames.trans hn) rfl n
  refine ⟨N, fun n hn i => Bool.eq_false_iff.mpr fun hhurry => ?_⟩
  obtain ⟨k, hev⟩ : ∃ k, e n = .work i k (.finishes true) := by
    unfold FleetEvent.hurries at hhurry
    split at hhurry
    · rename_i j k ev hev
      obtain ⟨rfl, rfl⟩ := of_decide_eq_true hhurry
      exact ⟨k, hev⟩
    · cases hhurry
  have hstep := hrun n
  rw [hev] at hstep
  obtain ⟨m, w, w', hm, hw, -, -⟩ := step_work hstep
  have hi : i < (s 0).members.length := hlength n ▸ (List.getElem?_eq_some_iff.mp hm).1
  obtain ⟨m₀, hm₀⟩ : ∃ m₀, (s 0).members[i]? = some m₀ := ⟨_, List.getElem?_eq_getElem hi⟩
  obtain ⟨m', hm', -, hroom⟩ := hg.owed_le hrun hafter hm₀ n
  cases Option.some.inj (hm.symm.trans hm')
  have hk := (List.getElem?_eq_some_iff.mp hw).1
  have hle : m₀.workers.length + m₀.pc.owed ≤ room :=
    List.le_sum_of_mem (List.mem_map_of_mem (f := fun m : Member => m.workers.length + m.pc.owed)
      (List.mem_of_getElem? hm₀))
  refine hN n hn (i, k) (Finset.mem_product.mpr ⟨Finset.mem_range.mpr hi, Finset.mem_range.mpr ?_⟩)
    hev
  show k < room
  omega

/-- After `shutdown_tx.send(true)`, where nothing due is put off for ever, nor in a select that is
entered again and again, all supervisors return in the end, with all their tasks ended. No task
begins more than one more cycle until then, and one for each pause of no length. -/
theorem shutdown_drains (hf : Booted config delivery mode f)
    (hsend : f.step (.send true) = some (s 0)) (hrun : Endless Fleet.step s e)
    (hafter : ∀ n, (e n).afterwards = true) (hfair : Fair Fleet.step (fun ev => ev.due = true) s e)
    (hselect : ∀ i k, (∀ n, ∃ j, n ≤ j ∧ e j = .work i k (.finishes true)) →
      ∃ j, e j = .work i k .observes) :
    (∃ n, ∀ k, n ≤ k → s k = s n ∧
      ∀ m ∈ (s k).members, m.pc = .returned ∧ ∀ w ∈ m.workers, ∃ o, w.pc = .ended o) ∧
    ∀ (n i : ℕ) (m : Member), f.members[i]? = some m → ∃ m', (s n).members[i]? = some m' ∧
      m'.cycles ≤ m.cycles + 1 + Nat.count (fun j => (e j).hurries i = true) n := by
  have hg : (s 0).Stopping :=
      stopping_of_send hf.synced hf.named (fun m hm => hf.reachable hm) hsend
  have hstopping := hg.endless hrun hafter
  refine ⟨?_, fun n i m hm => ?_⟩
  · obtain ⟨N, hN⟩ := hg.unhurried hrun hafter hselect
    obtain ⟨n, hn⟩ := @Fair.done _ _ _ _ _ left _ (fun f => ∀ m ∈ f.members, m.pc = .returned)
      (hfair.shift N) (hrun.shift N)
      (fun n => (hstopping (N + n)).left_step (hafter _) (hN _ (Nat.le_add_right N n)) (hrun _))
      fun n hdone => by
        simp only [not_forall] at hdone
        obtain ⟨m, hm, hpc⟩ := hdone
        obtain ⟨i, hi⟩ := List.mem_iff_getElem?.mp hm
        exact (hstopping _).progress hi hpc
    refine ⟨N + n, fun k hk => ?_⟩
    obtain ⟨d, rfl⟩ := Nat.exists_eq_add_of_le (Nat.le_of_add_right_le hk)
    obtain ⟨hsame, hdone⟩ := hn d (by omega)
    refine ⟨hsame, fun m hm => ⟨hdone m hm, fun w hw => ?_⟩⟩
    have hi := inv_of_reachable (by decide) ((hstopping _).reachable m hm)
    cases hchild : w.child with
    | ended o => exact ⟨o, Worker.pc_of_child hchild⟩
    | running =>
      obtain ⟨j, hj⟩ := List.mem_iff_getElem?.mp (List.mem_map_of_mem (f := Worker.child) hw)
      rw [hchild] at hj
      have hawaited : m.pc.child? = some j := hi.child j hj
      rw [hdone m hm] at hawaited
      cases hawaited
  · obtain ⟨-, hs⟩ := step_send hsend
    have hm' : (s 0).members[i]? = some (m.notify (·.send true)) := by
      rw [hs, notify, List.getElem?_map, hm]
      rfl
    obtain ⟨m', hget, hle, -⟩ := hg.owed_le hrun hafter hm' n
    have hone := hg.owed_le_one (List.mem_of_getElem? hm')
    have hcycles : (m.notify (·.send true)).cycles = m.cycles := by
      unfold Member.notify Member.cycles
      rw [List.map_map]
      rfl
    exact ⟨m', hget, by omega⟩

end

namespace Sample

def polling : Config :=
  ⟨"testnet", "GBBD47IF6LWK7P7MDEVSCWR7DPUWV3NY3DTQEVFL4NAT4AQH3ZLLFLA5", [⟨"XLM", none⟩], 3,
    ["https"], 3600, 100⟩

/-- The poller is in its first cycle, and the sweeper has been spawned. -/
def begun : List FleetEvent :=
  [.poll 0, .poll 0, .work 0 0 (.begins none), .work 0 0 .elapses, .work 0 0 .wakes,
    .poll 1, .poll 1]

/-- The cycle is answered with a `Retry-After` of zero, and the poller begins another one. -/
def drained : List FleetEvent :=
  [.work 0 0 (.finishes true), .work 0 0 .wakes, .work 0 0 (.finishes false), .poll 0,
    .poll 0, .poll 1, .work 1 0 (.begins none), .poll 1, .poll 2, .poll 3]

end Sample

/-- A run in which the poller hurries once, and nothing happens after the last return. -/
theorem shutdown_drains_hurried : ∃ (f : Fleet) (s : ℕ → Fleet) (e : ℕ → FleetEvent),
    run step (boot Sample.polling Process.Sample.keepsAll .poll) Sample.begun = some f ∧
      f.step (.send true) = some (s 0) ∧ e 0 = .work 0 0 (.finishes true) ∧
      (∃ n, ∀ k, n ≤ k → s k = s n ∧
        ∀ m ∈ (s k).members, m.pc = .returned ∧ ∀ w ∈ m.workers, ∃ o, w.pc = .ended o) ∧
      ∀ (n i : ℕ) (m : Member), f.members[i]? = some m → ∃ m', (s n).members[i]? = some m' ∧
        m'.cycles ≤ m.cycles + 1 + Nat.count (fun j => (e j).hurries i = true) n := by
  obtain ⟨f, g, h, hf, hg, hh, hstay, hleft⟩ : ∃ f g h,
      run step (boot Sample.polling Process.Sample.keepsAll .poll) Sample.begun = some f ∧
      f.step (.send true) = some g ∧ run step g Sample.drained = some h ∧
      h.step (.poll 0) = some h ∧
      h.left = 0 :=
    ⟨_, _, _, rfl, rfl, rfl, rfl, rfl⟩
  obtain ⟨s, rfl, hlast, hrun⟩ := endless_of_run hh hstay
  have hbooted : Booted Sample.polling Process.Sample.keepsAll .poll f := ⟨_, hf⟩
  have hafter : ∀ n, (Sample.drained.getD n (.poll 0)).afterwards = true := by
    have hall : ∀ ev ∈ Sample.drained, ev.afterwards = true := by decide
    intro n
    rw [List.getD_eq_getElem?_getD]
    cases hn : Sample.drained[n]? with
    | none => rfl
    | some ev => exact hall ev (List.mem_of_getElem? hn)
  refine ⟨f, s, _, hf, hg, rfl, shutdown_drains hbooted hg hrun hafter ?_ ?_⟩
  · -- after the last return nothing due would change anything
    intro ev hdue n hmoves
    obtain ⟨t, ht, hne⟩ := hmoves (max n Sample.drained.length) (le_max_left _ _)
    have hstopping := (stopping_of_send hbooted.synced hbooted.named
      (fun m hm => hbooted.reachable hm) hg).endless hrun hafter (max n Sample.drained.length)
    obtain ⟨hev, hcalm⟩ := FleetEvent.afterwards_of_due hdue
    rcases hstopping.left_step hev hcalm ht with hsame | hless
    · exact absurd hsame hne
    · rw [hlast _ (le_max_right _ _), hleft] at hless
      exact absurd hless (Nat.not_lt_zero _)
  · intro i k hoften
    obtain ⟨j, hj, hev⟩ := hoften Sample.drained.length
    rw [List.getD_eq_getElem?_getD, List.getElem?_eq_none hj] at hev
    cases hev

end Fleet
end Supervise
end StellarGate
