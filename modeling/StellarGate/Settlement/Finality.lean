import StellarGate.Settlement.Soundness

/-! Terminal states are final and announced once. -/
namespace StellarGate
open Base

inductive PaymentStatus.Moves : PaymentStatus → PaymentStatus → Prop
  | refl {s : PaymentStatus} : Moves s s
  | underpaid : Moves .pending .underpaid
  | terminal {s t : PaymentStatus} (hs : s.watchable = true) (ht : t.watchable = false) : Moves s t

theorem PaymentStatus.Moves.trans {s t u : PaymentStatus} (h : Moves s t) (h' : Moves t u) :
    Moves s u := by
  cases h with
  | refl => exact h'
  | underpaid =>
    cases h' with
    | refl => exact .underpaid
    | terminal hs ht => exact .terminal rfl ht
  | terminal hs ht =>
    cases h' with
    | refl => exact .terminal hs ht
    | underpaid => cases ht
    | terminal hs' _ =>
      rw [ht] at hs'
      cases hs'

structure Payment.Evolves (p q : Payment) : Prop where
  id : q.id = p.id
  moves : p.status.Moves q.status
  frozen : p.status.watchable = false →
    q.status = p.status ∧ q.txHash = p.txHash ∧ q.paidAmount = p.paidAmount

theorem Payment.Evolves.refl (p : Payment) : p.Evolves p := ⟨rfl, .refl, fun _ => ⟨rfl, rfl, rfl⟩⟩

theorem Payment.Evolves.trans {p q r : Payment} (h : p.Evolves q) (h' : q.Evolves r) :
    p.Evolves r := by
  refine ⟨h'.id.trans h.id, h.moves.trans h'.moves, fun hw => ?_⟩
  obtain ⟨hs, ht, hp⟩ := h.frozen hw
  obtain ⟨hs', ht', hp'⟩ := h'.frozen (hs ▸ hw)
  exact ⟨hs'.trans hs, ht'.trans ht, hp'.trans hp⟩

theorem RowStep.evolves {env : Env} {now : ℤ} {r : Reply} {db : Db} {c : Call} {p q : Payment}
    (h : RowStep env now r db c p q) : p.Evolves q := by
  have hclosed : p.status.watchable = true → p.status.watchable = false → False := by
    intro h h'
    rw [h] at h'
    cases h'
  cases h with
  | same => exact .refl p
  | settle call id watchable =>
    refine ⟨rfl, ?_, fun hw => (hclosed watchable hw).elim⟩
    simp only [Db.settleRow, settlementOf]
    split_ifs
    · exact .terminal watchable rfl
    · exact .terminal watchable rfl
    · cases hs : p.status with
      | pending => exact .underpaid
      | underpaid => exact .refl
      | completed =>
        rw [hs] at watchable
        cases watchable
      | expired =>
        rw [hs] at watchable
        cases watchable
  | expire call overdue selected =>
    have hw : p.status.watchable = true := (Bool.and_eq_true _ _ ▸ overdue).1
    exact ⟨rfl, .terminal hw rfl, fun h => (hclosed hw h).elim⟩

/-- The payment and the event a call of `dispatch` announces. -/
def Dispatch.key (d : Dispatch) : String × WebhookEvent := (d.payment.id, d.event)

/-- The calls of `dispatch` a call has committed to and not yet made. -/
def Call.undispatched : Call → List Dispatch
  | .reconcile _ (.notify d .start) => [d]
  | .sweep (.notify current .start later _) => (current :: later).map Sweep.dispatchOf
  | .sweep (.notify _ _ later _) => later.map Sweep.dispatchOf
  | _ => []

def Call.owed (c : Call) : List (String × WebhookEvent) := c.undispatched.map Dispatch.key

section Owed
variable {env : Env} {now : ℤ} {r : Reply} {db : Db} {c : Call}

theorem Dispatch.step_ne_start (d : Dispatch) (pc : DispatchPc) :
    (d.step env now r pc db).1 ≠ .start := by
  cases pc with
  | start =>
    simp only [Dispatch.step]
    split <;> simp
  | connect id =>
    simp only [Dispatch.step]
    split <;> simp
  | post id k =>
    simp only [Dispatch.step]
    split_ifs <;> simp
  | finish id status n => simp [Dispatch.step]
  | done => simp [Dispatch.step]

theorem Dispatch.fail_ne_start (d : Dispatch) (pc : DispatchPc) : d.fail r pc ≠ .start := by
  cases pc with
  | start =>
    simp only [Dispatch.fail]
    split_ifs <;> simp
  | _ => simp [Dispatch.fail]

theorem undispatched_notifyNext {hp : HorizonPayment} {d : Dispatch} {pc : DispatchPc}
    (h : pc ≠ .start) : (Call.reconcile hp (Reconcile.notifyNext d pc)).undispatched = [] := by
  cases pc with
  | start => exact absurd rfl h
  | _ => rfl

theorem undispatched_announce {count : ℕ} {later : List Payment} :
    (Call.sweep (Sweep.announce count later)).undispatched = later.map Sweep.dispatchOf := by
  cases later <;> rfl

theorem undispatched_sweep_notifyNext {current : Payment} {pc : DispatchPc} {later : List Payment}
    {count : ℕ} (h : pc ≠ .start) :
    (Call.sweep (Sweep.notifyNext current pc later count)).undispatched =
      later.map Sweep.dispatchOf := by
  cases pc with
  | start => exact absurd rfl h
  | done => exact undispatched_announce
  | _ => rfl

theorem settled_terms (p : Payment) (s : Settlement) (txHash : String) :
    (Reconcile.settled p s txHash).terms = p.terms := rfl

theorem Db.expireOverdue_known {db' : Db} {rows : List Payment} {batch : ℤ} {tie : String → ℕ}
    (h : db.expireOverdue now batch tie = (rows, db')) {p : Payment} (hp : p ∈ rows) :
    Known db' p := by
  have hperm := db.expireOverdue_perm now batch tie
  rw [h] at hperm
  obtain ⟨q, hq, rfl⟩ := List.mem_map.mp (hperm.mem_iff.mp hp)
  obtain ⟨hq, hsel⟩ := List.mem_filter.mp hq
  obtain ⟨t, rfl, hrows⟩ := Db.expireOverdue_db h
  refine ⟨Db.expireRow now q, ?_, rfl⟩
  simp only [hrows]
  exact List.mem_map.mpr ⟨q, hq, if_pos (by simpa using hsel)⟩

variable (env now r) in
/-- A step makes the calls of `dispatch` it stood before, and takes on those of the
transitions it commits. -/
theorem Call.step_undispatched {handed : List HorizonPayment} (hc : c.Sound db handed) :
    ∃ new, (c.step env now r db).dispatched ++ (c.step env now r db).next.undispatched =
        c.undispatched ++ new ∧ new.map Dispatch.key = (c.step env now r db).committed ∧
      ∀ d ∈ new, Known (c.step env now r db).db d.payment := by
  cases c with
  | reconcile hp pc =>
    cases pc with
    | find memo =>
      simp only [Call.step, Reconcile.step]
      split <;> exact ⟨[], rfl, rfl, by simp⟩
    | sumBefore p =>
      simp only [Call.step, Reconcile.step]
      split
      · exact ⟨[], rfl, rfl, by simp⟩
      · split_ifs <;> exact ⟨[], rfl, rfl, by simp⟩
    | record p n =>
      simp only [Call.step, Reconcile.step]
      split <;> exact ⟨[], rfl, rfl, by simp⟩
    | sumAfter p =>
      simp only [Call.step, Reconcile.step]
      split <;> exact ⟨[], rfl, rfl, by simp⟩
    | update p total =>
      have hw : Writes env now r db (.reconcile hp (.update p total)) _ := Call.step_writes _
      have hk := hc.2.1.mono (hw.grows hc)
      simp only [Call.step, Reconcile.step] at hk ⊢
      split
      · exact ⟨[], rfl, rfl, by simp⟩
      · next db' h =>
        refine ⟨[Reconcile.dispatchOf p total hp.hash], rfl, rfl, fun d hd => ?_⟩
        rw [List.mem_singleton.mp hd]
        simp only [h] at hk
        obtain ⟨q, hq, ht⟩ := hk
        exact ⟨q, hq, ht.trans (settled_terms p _ _).symm⟩
    | notify d pc =>
      refine ⟨[], ?_, rfl, by simp⟩
      simp only [Call.step, Reconcile.step, undispatched_notifyNext (d.step_ne_start pc)]
      cases pc <;> rfl
    | done result => exact ⟨[], rfl, rfl, by simp⟩
  | sweep pc =>
    cases pc with
    | expire =>
      cases h : db.expireOverdue now env.config.expiryBatchSize r.tie with
      | mk rows db' =>
        simp only [Call.step, Sweep.step, h, undispatched_announce]
        refine ⟨rows.map Sweep.dispatchOf, rfl, by simp [Sweep.dispatchOf, Dispatch.key], ?_⟩
        intro d hd
        obtain ⟨p, hp, rfl⟩ := List.mem_map.mp hd
        exact Db.expireOverdue_known h hp
    | notify current pc later count =>
      refine ⟨[], ?_, rfl, by simp⟩
      simp only [Call.step, Sweep.step,
        undispatched_sweep_notifyNext (Dispatch.step_ne_start _ pc)]
      cases pc <;> simp [Call.undispatched]
    | done result => exact ⟨[], rfl, rfl, by simp⟩
  | create req pc => exact ⟨[], rfl, rfl, by simp⟩
  | lost => exact ⟨[], rfl, rfl, by simp⟩

/-- A call of `reconcile_payment` has committed to nothing when it starts. -/
theorem Reconcile.start_undispatched (hp : HorizonPayment) :
    (Call.reconcile hp (Reconcile.start hp)).undispatched = [] := by
  unfold Reconcile.start
  split <;> rfl

theorem Call.fail_undispatched :
    (c.fail r).2 ++ (c.fail r).1.undispatched = c.undispatched := by
  cases c with
  | reconcile hp pc =>
    cases pc with
    | notify d pc =>
      simp only [Call.fail, Reconcile.fail, undispatched_notifyNext (d.fail_ne_start pc)]
      cases pc <;> rfl
    | _ => rfl
  | sweep pc =>
    cases pc with
    | notify current pc later count =>
      simp only [Call.fail, Sweep.fail,
        undispatched_sweep_notifyNext (Dispatch.fail_ne_start _ pc)]
      cases pc <;> simp [Call.undispatched]
    | _ => rfl
  | create req pc => rfl
  | lost => rfl

variable (env now r) in
/-- A step announces what it owed, and owes what it has just committed. -/
theorem Call.step_owed {handed : List HorizonPayment} (hc : c.Sound db handed) :
    (c.step env now r db).dispatched.map Dispatch.key ++ (c.step env now r db).next.owed =
      c.owed ++ (c.step env now r db).committed := by
  obtain ⟨new, heq, hkey, -⟩ := Call.step_undispatched env now r hc
  have := congrArg (List.map Dispatch.key) heq
  rwa [List.map_append, List.map_append, hkey] at this

theorem Call.fail_owed : (c.fail r).2.map Dispatch.key ++ (c.fail r).1.owed = c.owed := by
  have := congrArg (List.map Dispatch.key) (Call.fail_undispatched (r := r) (c := c))
  rwa [List.map_append] at this

theorem Call.cut_undispatched : c.cut.undispatched = c.undispatched ∨ c.cut.undispatched = [] := by
  unfold Call.cut
  split_ifs
  · exact .inl rfl
  · exact .inr rfl

end Owed

/-- The announcement of the end of the intent `id`. -/
def terminalFor (id : String) (k : String × WebhookEvent) : Bool := k.1 = id && k.2.terminal

def Commit.key (c : Commit) : String × WebhookEvent := (c.paymentId, c.event)

section Commits
variable {env : Env} {now : ℤ} {r : Reply} {db db' : Db} {c : Call} {id : String}

theorem settlementOf_terminal {payment : Payment} {total : ℤ} :
    (settlementOf payment total).event.terminal = true ↔
      (settlementOf payment total).status.watchable = false := by
  simp only [settlementOf]
  split_ifs <;> simp [WebhookEvent.terminal, PaymentStatus.watchable]

variable (env now r db c) in
theorem Call.step_committed :
    (c.step env now r db).committed = [] ∨
    (∃ hp p total, c = .reconcile hp (.update p total) ∧
      db.updatePaymentStatus now p.id (settlementOf p total).status hp.hash
        (settlementOf p total).paidAmount = (true, (c.step env now r db).db) ∧
      (c.step env now r db).committed = [(p.id, (settlementOf p total).event)]) ∨
    ∃ rows, c = .sweep .expire ∧
      db.expireOverdue now env.config.expiryBatchSize r.tie = (rows, (c.step env now r db).db) ∧
      (c.step env now r db).committed = rows.map fun p => (p.id, .expired) := by
  cases c with
  | reconcile hp pc =>
    cases pc with
    | update p total =>
      simp only [Call.step, Reconcile.step]
      split
      · exact .inl rfl
      · next db' h => exact .inr (.inl ⟨hp, p, total, rfl, h, rfl⟩)
    | find memo =>
      simp only [Call.step, Reconcile.step]
      split <;> exact .inl rfl
    | sumBefore p =>
      simp only [Call.step, Reconcile.step]
      split
      · exact .inl rfl
      · split_ifs <;> exact .inl rfl
    | record p n =>
      simp only [Call.step, Reconcile.step]
      split <;> exact .inl rfl
    | sumAfter p =>
      simp only [Call.step, Reconcile.step]
      split <;> exact .inl rfl
    | notify d pc => exact .inl rfl
    | done result => exact .inl rfl
  | sweep pc =>
    cases pc with
    | expire => exact .inr (.inr ⟨_, rfl, rfl, rfl⟩)
    | notify current pc later count => exact .inl rfl
    | done result => exact .inl rfl
  | create req pc => exact .inl rfl
  | lost => exact .inl rfl

/-- A sweep announces exactly the intents it expires. -/
theorem Db.expireOverdue_count {rows : List Payment} {batch : ℤ} {tie : String → ℕ}
    (h : db.expireOverdue now batch tie = (rows, db')) :
    (rows.map fun p => (p.id, WebhookEvent.expired)).countP (terminalFor id) =
      db.payments.rows.countP fun p => decide (p.id = id) &&
      decide (p.id ∈ db.expireIds now batch tie) := by
  have hp := db.expireOverdue_perm now batch tie
  rw [h] at hp
  rw [List.countP_map, hp.countP_eq, List.countP_map, List.countP_filter]
  apply List.countP_congr
  intro p _
  simp only [Function.comp_apply, terminalFor, WebhookEvent.terminal, Bool.and_true,
    rowToPayment_id]
  rfl

variable (env now r db c) in
/-- A step ends an intent at most once, and only while it is open. -/
theorem Call.step_terminal (id : String) :
    (c.step env now r db).committed.countP (terminalFor id) = 0 ∨
      (c.step env now r db).committed.countP (terminalFor id) = 1 ∧
      (∃ p ∈ db.payments.rows, p.id = id ∧ p.status.watchable = true) ∧
      ∃ q ∈ (c.step env now r db).db.payments.rows, q.id = id ∧ q.status.watchable = false := by
  rcases Call.step_committed env now r db c with
    h | ⟨hp, p, total, -, hu, h⟩ | ⟨rows, -, hx, h⟩
  · exact .inl (by simp [h])
  · obtain ⟨⟨q, hq, hid, hw⟩, t, hdb, hrows⟩ := Db.updatePaymentStatus_true hu
    by_cases ht : terminalFor id (p.id, (settlementOf p total).event) = true
    · have hpid : p.id = id ∧ (settlementOf p total).event.terminal = true := by
        simpa [terminalFor] using ht
      refine .inr ⟨by simp [h, ht], ⟨q, hq, hid.trans hpid.1, hw⟩, ?_⟩
      rw [hdb]
      refine ⟨Db.settleRow now (settlementOf p total).status hp.hash
        (settlementOf p total).paidAmount q, ?_, hid.trans hpid.1, settlementOf_terminal.mp hpid.2⟩
      simp only [hrows]
      exact List.mem_map.mpr ⟨q, hq, if_pos hid⟩
    · exact .inl (by simp [h, ht])
  · rw [h, Db.expireOverdue_count hx]
    obtain ⟨t, hdb, hrows⟩ := Db.expireOverdue_db hx
    rcases Nat.eq_zero_or_pos (db.payments.rows.countP fun p => decide (p.id = id) &&
      decide (p.id ∈ db.expireIds now env.config.expiryBatchSize r.tie)) with hz | hpos
    · exact .inl hz
    · obtain ⟨p, hp, hit⟩ := List.countP_pos_iff.mp hpos
      simp only [Bool.and_eq_true, decide_eq_true_eq] at hit
      have hover := Db.overdue_of_mem_expireIds hp hit.2
      simp only [Db.overdue, Bool.and_eq_true] at hover
      refine .inr ⟨le_antisymm ?_ hpos, ⟨p, hp, hit.1, hover.1⟩, ?_⟩
      · exact Table.countP_key_le_one (k := Payment.id) (by simp) id fun q hq => by simp_all
      · rw [hdb]
        refine ⟨Db.expireRow now p, ?_, hit.1, rfl⟩
        simp only [hrows]
        exact List.mem_map.mpr ⟨p, hp, if_pos hit.2⟩

end Commits

/-- Every announcement that was made or is owed stands for a committed transition, and
the end of an intent is committed once, which closes it. -/
structure World.Announcing (w : World) (id : String) : Prop where
  sound : w.Sound
  announced : (w.dispatched.map Dispatch.key).countP (terminalFor id) +
    (w.calls.map fun c => c.owed.countP (terminalFor id)).sum ≤
      (w.committed.map Commit.key).countP (terminalFor id)
  once : (w.committed.map Commit.key).countP (terminalFor id) ≤ 1
  closed : 0 < (w.committed.map Commit.key).countP (terminalFor id) →
    ∃ p ∈ w.db.payments.rows, p.id = id ∧ p.status.watchable = false

namespace World
variable {env : Env} {w t : World} {e : Event} {es es₀ : List Event} {now : ℤ} {id : String}

theorem Announcing.init : (init now).Announcing id :=
  ⟨Sound.init, by simp [World.init], by simp [World.init], by simp [World.init]⟩

theorem Announcing.start {c : Call} {handed : List HorizonPayment} (h : w.Announcing id)
    (hs : World.Sound { w.start c with handed }) (hc : c.owed = []) :
    World.Announcing { w.start c with handed } id := by
  refine ⟨hs, ?_, h.once, h.closed⟩
  simpa [World.start, hc] using h.announced

theorem Announcing.exec {i : ℕ} {r : Reply} {c : Call} (h : w.Announcing id)
    (hc : w.calls[i]? = some c) : (w.exec env i r c).Announcing id := by
  have hw : Writes env w.now r w.db c (c.step env w.now r w.db).db := c.step_writes
  have hcom : ((w.exec env i r c).committed.map Commit.key) =
      w.committed.map Commit.key ++ (c.step env w.now r w.db).committed := by
    simp [World.exec, Commit.key, Function.comp_def]
  have howed := congrArg (List.countP (terminalFor id))
    (Call.step_owed env w.now r
      (h.sound.calls c (List.mem_of_getElem? hc)))
  rw [List.countP_append, List.countP_append] at howed
  have hsum := sum_map_set (f := fun c => c.owed.countP (terminalFor id))
    (b := (c.step env w.now r w.db).next) hc
  have hann := h.announced
  refine ⟨h.sound.exec hc, ?_, ?_, ?_⟩
  · rw [hcom, List.countP_append]
    simp only [World.exec, List.map_append, List.countP_append]
    omega
  · rw [hcom, List.countP_append]
    rcases Call.step_terminal env w.now r w.db c id with
      hz | ⟨hone, ⟨p, hp, hid, hopen⟩, -⟩
    · have := h.once
      omega
    · have hzero : (w.committed.map Commit.key).countP (terminalFor id) = 0 := by
        by_contra hne
        obtain ⟨q, hq, hqid, hclosed⟩ := h.closed (Nat.pos_of_ne_zero hne)
        cases Db.eq_of_id hp hq (hid.trans hqid.symm)
        rw [hclosed] at hopen
        cases hopen
      omega
  · rw [hcom, List.countP_append]
    intro hpos
    rcases Call.step_terminal env w.now r w.db c id with
      hz | ⟨-, -, hclosed⟩
    · obtain ⟨p, hp, hid, hclosed⟩ := h.closed (by omega)
      exact ⟨p, hw.row_closed hp hclosed, hid, hclosed⟩
    · exact hclosed

theorem sum_cut_le {P : String × WebhookEvent → Bool} (calls : List Call) :
    ((calls.map Call.cut).map fun c => c.owed.countP P).sum ≤
      (calls.map fun c => c.owed.countP P).sum := by
  rw [List.map_map]
  apply List.sum_le_sum
  intro c _
  simp only [Function.comp_apply]
  rcases c.cut_undispatched with h | h <;> simp [Call.owed, h]

theorem Announcing.step (hs : step env w e = some t) (h : w.Announcing id) : t.Announcing id := by
  have hann := h.announced
  have hsound := h.sound.step hs
  cases e with
  | advance secs =>
    cases hs
    exact ⟨hsound, h.announced, h.once, h.closed⟩
  | reconcile hp =>
    cases hs
    exact h.start hsound (congrArg (List.map Dispatch.key) (Reconcile.start_undispatched hp))
  | sweep =>
    cases hs
    exact h.start hsound rfl
  | create req =>
    cases hs
    exact h.start hsound rfl
  | exec i r =>
    obtain ⟨c, hc, -, rfl⟩ := step_exec hs
    exact h.exec hc
  | fail i r =>
    obtain ⟨c, hc, -, rfl⟩ := step_fail hs
    refine ⟨hsound, ?_, h.once, h.closed⟩
    have howed := congrArg (List.countP (terminalFor id)) (Call.fail_owed (r := r) (c := c))
    rw [List.countP_append] at howed
    have hsum := sum_map_set (f := fun c => c.owed.countP (terminalFor id)) (b := (c.fail r).1) hc
    simp only [World.failCall, List.map_append, List.countP_append]
    omega
  | kill i =>
    obtain ⟨c, hc, rfl⟩ := step_kill hs
    refine ⟨hsound, ?_, h.once, h.closed⟩
    have hle : c.cut.owed.countP (terminalFor id) ≤ c.owed.countP (terminalFor id) := by
      rcases c.cut_undispatched with h | h <;> simp [Call.owed, h]
    have hsum := sum_map_set (f := fun c => c.owed.countP (terminalFor id)) (b := c.cut) hc
    simp only
    omega
  | crash =>
    cases hs
    refine ⟨hsound, ?_, h.once, h.closed⟩
    have := sum_cut_le (P := terminalFor id) w.calls
    simp only
    omega

theorem step_evolves (hs : step env w e = some t) :
    (∀ p ∈ w.db.payments.rows, ∃ q ∈ t.db.payments.rows, p.Evolves q) ∧
    ∀ q ∈ t.db.payments.rows, (∀ p ∈ w.db.payments.rows, p.id ≠ q.id) → q.status = .pending := by
  rcases step_db hs with hdb | ⟨i, r, c, -, hc, rfl⟩
  · rw [hdb]
    exact ⟨fun p hp => ⟨p, hp, .refl p⟩, fun q hq hne => absurd rfl (hne q hq)⟩
  · have hw : Writes env w.now r w.db c (c.step env w.now r w.db).db := c.step_writes
    constructor
    · intro p hp
      obtain ⟨q, hq, hstep⟩ := hw.row hp
      exact ⟨q, hq, hstep.evolves⟩
    · intro q hq hne
      rcases hw.row_inv hq with ⟨p, hp, hstep⟩ | hnew
      · exact absurd hstep.id.symm (hne p hp)
      · exact hnew.status

theorem evolves_of_reaches (h : Reaches env w es t) :
    ∀ p ∈ w.db.payments.rows, ∃ q ∈ t.db.payments.rows, p.Evolves q :=
  run_relation (I := fun _ => True)
    (R := fun w t => ∀ p ∈ w.db.payments.rows, ∃ q ∈ t.db.payments.rows, p.Evolves q)
    (fun _ p hp => ⟨p, hp, .refl p⟩)
    (fun _ _ _ h h' p hp => by
      obtain ⟨q, hq, hpq⟩ := h p hp
      obtain ⟨r, hr, hqr⟩ := h' q hq
      exact ⟨r, hr, hpq.trans hqr⟩)
    (fun _ _ _ hs _ => ⟨(step_evolves hs).1, trivial⟩) h trivial

/-- Between any two states of a run a status only moves forward, a terminal row keeps
its status, hash and amount, rows start as pending, and the end of an intent is
announced at most once. -/
theorem terminal_final_once (h₀ : Reaches env (init now) es₀ w) (h : Reaches env w es t) :
    (∀ p ∈ w.db.payments.rows, ∃ q ∈ t.db.payments.rows, q.id = p.id ∧
      p.status.Moves q.status ∧ (p.status = .completed ∨ p.status = .expired →
        q.status = p.status ∧ q.txHash = p.txHash ∧ q.paidAmount = p.paidAmount)) ∧
    (∀ e u, step env t e = some u → ∀ q ∈ u.db.payments.rows,
      (∀ p ∈ t.db.payments.rows, p.id ≠ q.id) → q.status = .pending) ∧
    ∀ id, t.dispatched.countP (fun d => d.payment.id = id &&
      (d.event = .completed || d.event = .overpaid || d.event = .expired)) ≤ 1 := by
  refine ⟨fun p hp => ?_, fun e u hs => (step_evolves hs).2, fun id => ?_⟩
  · obtain ⟨q, hq, hpq⟩ := evolves_of_reaches h p hp
    refine ⟨q, hq, hpq.id, hpq.moves, fun hend => hpq.frozen ?_⟩
    rcases hend with hend | hend <;> rw [hend] <;> rfl
  · have ha : t.Announcing id := run_invariant (I := fun w => w.Announcing id)
      (fun _ _ _ => Announcing.step) (run_append h₀ h) Announcing.init
    have hle := ha.announced
    have hone := ha.once
    have hcount : t.dispatched.countP (fun d => d.payment.id = id &&
        (d.event = .completed || d.event = .overpaid || d.event = .expired)) =
        (t.dispatched.map Dispatch.key).countP (terminalFor id) := by
      rw [List.countP_map]
      apply List.countP_congr
      intro d _
      cases hd : d.event <;> simp [terminalFor, Dispatch.key, WebhookEvent.terminal, hd]
    omega

/-- An intent is completed while a second call holds the same record, and swept later. -/
theorem terminal_final_once_sample :
    let hp := Sample.record "11" "10.0000000" "TXA" "1"
    let es₀ := Sample.create ++ [.reconcile hp, .reconcile hp] ++ Sample.turns 20
      [1, 2, 2, 2, 1, 2, 2, 2]
    let es := .advance 7200 :: .sweep :: Sample.turns 40 [3, 1, 1]
    ∃ w t, Reaches Sample.env (init 0) es₀ w ∧ Reaches Sample.env w es t ∧
      (∃ p ∈ w.db.payments.rows, p.status = .completed) ∧
      (∀ p ∈ w.db.payments.rows, ∃ q ∈ t.db.payments.rows, q.id = p.id ∧
        p.status.Moves q.status ∧ (p.status = .completed ∨ p.status = .expired →
          q.status = p.status ∧ q.txHash = p.txHash ∧ q.paidAmount = p.paidAmount)) ∧
      (∀ e u, step Sample.env t e = some u → ∀ q ∈ u.db.payments.rows,
        (∀ p ∈ t.db.payments.rows, p.id ≠ q.id) → q.status = .pending) ∧
      ∀ id, t.dispatched.countP (fun d => d.payment.id = id &&
        (d.event = .completed || d.event = .overpaid || d.event = .expired)) ≤ 1 := by
  intro hp es₀ es
  obtain ⟨w, hw, hc, hrun⟩ := exists_of_run (step Sample.env) (init 0) es₀
    (P := fun w => (∃ p ∈ w.db.payments.rows, p.status = .completed) ∧
      (run (step Sample.env) w es).any (fun t => decide (t.now = 7200)) = true) (by decide)
  obtain ⟨t, ht, -⟩ := exists_of_run _ _ _ hrun
  exact ⟨w, t, hw, ht, hc, terminal_final_once hw ht⟩

end World
end StellarGate
