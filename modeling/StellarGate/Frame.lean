import StellarGate.System

/-! What a step of the service can do to the payments and to the ledger, and
to the calls in flight. -/
namespace StellarGate
open Base

/-- The write a step of a call makes to the payments or to the ledger. -/
inductive Writes (env : Env) (now : ℤ) (r : Reply) (db : Db) : Call → Db → Prop
  | none {c : Call} {db' : Db} (payments : db'.payments = db.payments)
      (ledger : db'.processedTransactions = db.processedTransactions) : Writes env now r db c db'
  | credit {hp : HorizonPayment} {payment : Payment} {n : ℤ} {db' : Db}
      (h : db.recordProcessedTx now payment.id hp.hash n = (true, db')) :
      Writes env now r db (.reconcile hp (.record payment n)) db'
  | settle {hp : HorizonPayment} {payment : Payment} {total : ℤ} {db' : Db}
      (h : db.updatePaymentStatus now payment.id (settlementOf payment total).status hp.hash
        (settlementOf payment total).paidAmount = (true, db')) :
      Writes env now r db (.reconcile hp (.update payment total)) db'
  | expire {rows : List Payment} {db' : Db}
      (h : db.expireOverdue now env.config.expiryBatchSize r.tie = (rows, db')) :
      Writes env now r db (.sweep .expire) db'
  | insert {req : CreateRequest} {id memo : String} {db' : Db}
      (h : db.insertPayment now (Create.newPayment env req id memo) = some db') :
      Writes env now r db (.create req (.insert id memo)) db'

section Statements
variable {env : Env} {now : ℤ} {r : Reply} {db db' : Db}

/-- A call of `dispatch` writes to the deliveries only. -/
theorem Dispatch.step_frame {d : Dispatch} {pc : DispatchPc} :
    (d.step env now r pc db).2.payments = db.payments ∧
      (d.step env now r pc db).2.processedTransactions = db.processedTransactions ∧
      (d.step env now r pc db).2.idempotencyKeys = db.idempotencyKeys := by
  cases pc with
  | start =>
    simp only [Dispatch.step]
    cases d.payment.webhookUrl with
    | none => exact ⟨rfl, rfl, rfl⟩
    | some url =>
      simp only [Db.saveWebhookDelivery]
      cases db.webhookDeliveries.insert _ <;> exact ⟨rfl, rfl, rfl⟩
  | _ => exact ⟨rfl, rfl, rfl⟩

theorem Create.step_frame {req : CreateRequest} {pc : CreatePc}
    (h : ∀ id memo, pc ≠ .insert id memo) :
    (Create.step env now r req pc db).2.payments = db.payments ∧
      (Create.step env now r req pc db).2.processedTransactions = db.processedTransactions ∧
      (Create.step env now r req pc db).2.webhookDeliveries = db.webhookDeliveries := by
  cases pc with
  | insert id memo => exact absurd rfl (h id memo)
  | lookup key =>
    simp only [Create.step]
    split <;> exact ⟨rfl, rfl, rfl⟩
  | getExisting key id =>
    simp only [Create.step]
    split <;> exact ⟨rfl, rfl, rfl⟩
  | waitWinner id n =>
    simp only [Create.step]
    split <;> exact ⟨rfl, rfl, rfl⟩
  | reread id =>
    simp only [Create.step]
    split <;> exact ⟨rfl, rfl, rfl⟩
  | mint key => cases key <;> exact ⟨rfl, rfl, rfl⟩
  | _ => exact ⟨rfl, rfl, rfl⟩

end Statements

section Steps
variable {env : Env} {now : ℤ} {r : Reply} {db : Db}

theorem Reconcile.step_writes (hp : HorizonPayment) (pc : ReconcilePc) :
    Writes env now r db (.reconcile hp pc) (Reconcile.step env now r hp pc db).db := by
  cases pc with
  | find memo =>
    simp only [Reconcile.step]
    split <;> exact .none rfl rfl
  | sumBefore payment =>
    simp only [Reconcile.step]
    split
    · exact .none rfl rfl
    · split_ifs <;> exact .none rfl rfl
  | record payment n =>
    simp only [Reconcile.step]
    split
    · next h =>
      obtain ⟨rfl, -⟩ := Db.recordProcessedTx_false h
      exact .none rfl rfl
    · next h => exact .credit h
  | sumAfter payment =>
    simp only [Reconcile.step]
    split <;> exact .none rfl rfl
  | update payment total =>
    simp only [Reconcile.step]
    split
    · next h =>
      obtain ⟨rfl, -⟩ := Db.updatePaymentStatus_false h
      exact .none rfl rfl
    · next h => exact .settle h
  | notify d pc => exact .none Dispatch.step_frame.1 Dispatch.step_frame.2.1
  | done result => exact .none rfl rfl

theorem Sweep.step_writes (pc : SweepPc) :
    Writes env now r db (.sweep pc) (Sweep.step env now r pc db).db := by
  cases pc with
  | expire => exact .expire rfl
  | notify current pc later count => exact .none Dispatch.step_frame.1 Dispatch.step_frame.2.1
  | done result => exact .none rfl rfl

theorem Create.step_writes (req : CreateRequest) (pc : CreatePc) :
    Writes env now r db (.create req pc) (Create.step env now r req pc db).2 := by
  by_cases h : ∀ id memo, pc ≠ .insert id memo
  · exact .none (Create.step_frame h).1 (Create.step_frame h).2.1
  · push Not at h
    obtain ⟨id, memo, rfl⟩ := h
    simp only [Create.step]
    split
    · exact .none rfl rfl
    · next h => exact .insert h

theorem Call.step_writes (c : Call) : Writes env now r db c (c.step env now r db).db := by
  cases c with
  | reconcile hp pc => exact Reconcile.step_writes hp pc
  | sweep pc => exact Sweep.step_writes pc
  | create req pc => exact Create.step_writes req pc
  | lost => exact .none rfl rfl

theorem Call.step_returned {c : Call} (h : c.returned = true) :
    c.step env now r db = ⟨c, db, [], []⟩ := by
  cases c with
  | reconcile hp pc =>
    cases pc with
    | done result => rfl
    | _ => cases h
  | sweep pc =>
    cases pc with
    | done result => rfl
    | _ => cases h
  | create req pc =>
    cases pc with
    | done response => rfl
    | _ => cases h
  | lost => rfl

end Steps

/-- What a step of the call `c` makes of the row `p` of `db`. -/
inductive RowStep (env : Env) (now : ℤ) (r : Reply) (db : Db) (c : Call) (p : Payment) :
    Payment → Prop
  | same : RowStep env now r db c p p
  | settle {hp : HorizonPayment} {payment : Payment} {total : ℤ}
      (call : c = .reconcile hp (.update payment total)) (id : p.id = payment.id)
      (watchable : p.status.watchable = true) :
      RowStep env now r db c p (Db.settleRow now (settlementOf payment total).status hp.hash
        (settlementOf payment total).paidAmount p)
  | expire (call : c = .sweep .expire) (overdue : Db.overdue now p = true)
      (selected : p.id ∈ db.expireIds now env.config.expiryBatchSize r.tie) :
      RowStep env now r db c p (Db.expireRow now p)

/-- The row `q` was just inserted by the call `c`, under an id no row of `db` has. -/
structure RowNew (db : Db) (c : Call) (q : Payment) : Prop where
  call : ∃ req memo, c = .create req (.insert q.id memo)
  fresh : ∀ p ∈ db.payments.rows, p.id ≠ q.id
  status : q.status = .pending
  txHash : q.txHash = none
  paidAmount : q.paidAmount = none
  priced : ∃ n, 0 < n ∧ n ≤ i64Max ∧ q.amount = stroopsToString n

section
variable {env : Env} {now : ℤ} {r : Reply} {db : Db} {c : Call} {p q : Payment}

theorem RowStep.terms (h : RowStep env now r db c p q) : q.terms = p.terms := by
  cases h <;> rfl

theorem RowStep.id (h : RowStep env now r db c p q) : q.id = p.id :=
  Payment.id_eq_of_terms h.terms

theorem RowStep.times (h : RowStep env now r db c p q) :
    q.createdAt = p.createdAt ∧ q.expiresAt = p.expiresAt := by
  cases h <;> exact ⟨rfl, rfl⟩

end

theorem Db.insertPayment_eq_some {now : ℤ} {new : Db.NewPayment} {db db' : Db}
    (h : db.insertPayment now new = some db') :
    ∃ n expiresAt t, parseStroops new.amount = some n ∧ db' = { db with payments := t } ∧
      t.rows = db.payments.rows ++ [new.row now expiresAt (stroopsToString n)] ∧
      (∀ p ∈ db.payments.rows, p.id ≠ new.id) ∧ expiresAt = strftime (now + new.ttlSecs) := by
  obtain ⟨n, hn, h⟩ := Option.bind_eq_some_iff.mp h
  obtain ⟨expiresAt, hexpires, h⟩ := Option.bind_eq_some_iff.mp h
  have hexpires : expiresAt = strftime (now + new.ttlSecs) := by
    unfold strftimeChecked at hexpires
    split_ifs at hexpires
    exact (Option.some.inj hexpires).symm
  obtain ⟨t, ht, rfl⟩ := Option.map_eq_some_iff.mp h
  obtain ⟨hrows, hfresh⟩ := Table.insert_eq_some ht
  refine ⟨n, expiresAt, t, hn, rfl, hrows, fun p hp he => ?_, hexpires⟩
  exact hfresh Payment.id (by simp) (List.mem_map.mpr ⟨p, hp, he⟩)

section Deliveries
variable {env : Env} {now : ℤ} {r : Reply} {db : Db}

theorem Create.step_deliveries (req : CreateRequest) (pc : CreatePc) :
    (Create.step env now r req pc db).2.webhookDeliveries = db.webhookDeliveries := by
  by_cases h : ∀ id memo, pc ≠ .insert id memo
  · exact (Create.step_frame h).2.2
  · push Not at h
    obtain ⟨id, memo, rfl⟩ := h
    simp only [Create.step]
    split
    · rfl
    · next db' h =>
      obtain ⟨n, expiresAt, t, -, rfl, -, -⟩ := Db.insertPayment_eq_some h
      rfl

variable (env now r db) in
theorem Call.step_deliveries (c : Call) :
    ((c.step env now r db).db.webhookDeliveries = db.webhookDeliveries ∧
      (c.step env now r db).dispatched = []) ∨
      ∃ d pc, (c.step env now r db).db = (d.step env now r pc db).2 ∧
        (c.step env now r db).dispatched = if pc = .start then [d] else [] := by
  cases c with
  | reconcile hp pc =>
    cases pc with
    | notify d pc => exact .inr ⟨d, pc, rfl, rfl⟩
    | find memo =>
      simp only [Call.step, Reconcile.step]
      split <;> exact .inl ⟨rfl, rfl⟩
    | sumBefore p =>
      simp only [Call.step, Reconcile.step]
      split
      · exact .inl ⟨rfl, rfl⟩
      · split_ifs <;> exact .inl ⟨rfl, rfl⟩
    | record p n =>
      simp only [Call.step, Reconcile.step]
      split
      · next h =>
        obtain ⟨rfl, -⟩ := Db.recordProcessedTx_false h
        exact .inl ⟨rfl, rfl⟩
      · next h =>
        obtain ⟨t, rfl, -⟩ := Db.recordProcessedTx_true h
        exact .inl ⟨rfl, rfl⟩
    | sumAfter p =>
      simp only [Call.step, Reconcile.step]
      split <;> exact .inl ⟨rfl, rfl⟩
    | update p total =>
      simp only [Call.step, Reconcile.step]
      split
      · next h =>
        obtain ⟨rfl, -⟩ := Db.updatePaymentStatus_false h
        exact .inl ⟨rfl, rfl⟩
      · next h =>
        obtain ⟨-, t, rfl, -⟩ := Db.updatePaymentStatus_true h
        exact .inl ⟨rfl, rfl⟩
    | done result => exact .inl ⟨rfl, rfl⟩
  | sweep pc =>
    cases pc with
    | expire => exact .inl ⟨rfl, rfl⟩
    | notify current pc later count => exact .inr ⟨_, pc, rfl, rfl⟩
    | done result => exact .inl ⟨rfl, rfl⟩
  | create req pc => exact .inl ⟨Create.step_deliveries req pc, rfl⟩
  | lost => exact .inl ⟨rfl, rfl⟩

end Deliveries

section Rows
variable {env : Env} {now : ℤ} {r : Reply} {db db' : Db} {c : Call}

theorem Writes.row {p : Payment} (h : Writes env now r db c db') (hp : p ∈ db.payments.rows) :
    ∃ q ∈ db'.payments.rows, RowStep env now r db c p q := by
  cases h with
  | none payments _ => exact ⟨p, payments ▸ hp, .same⟩
  | credit h =>
    obtain ⟨t, rfl, -, -⟩ := Db.recordProcessedTx_true h
    exact ⟨p, hp, .same⟩
  | settle h =>
    obtain ⟨⟨q, hq, hid, hw⟩, t, rfl, hrows⟩ := Db.updatePaymentStatus_true h
    simp only [hrows]
    by_cases he : p.id = q.id
    · cases Db.eq_of_id hp hq he
      exact ⟨_, List.mem_map.mpr ⟨p, hp, if_pos hid⟩, .settle rfl hid hw⟩
    · exact ⟨p, List.mem_map.mpr ⟨p, hp, if_neg (hid ▸ he)⟩, .same⟩
  | expire h =>
    obtain ⟨t, rfl, hrows⟩ := Db.expireOverdue_db h
    simp only [hrows]
    by_cases hi : p.id ∈ db.expireIds now env.config.expiryBatchSize r.tie
    · exact ⟨_, List.mem_map.mpr ⟨p, hp, if_pos hi⟩,
        .expire rfl (Db.overdue_of_mem_expireIds hp hi) hi⟩
    · exact ⟨p, List.mem_map.mpr ⟨p, hp, if_neg hi⟩, .same⟩
  | insert h =>
    obtain ⟨n, expiresAt, t, -, rfl, hrows, -⟩ := Db.insertPayment_eq_some h
    exact ⟨p, by simp [hrows, hp], .same⟩

/-- A completed or expired row is never written again. -/
theorem Writes.row_closed {p : Payment} (h : Writes env now r db c db')
    (hp : p ∈ db.payments.rows) (hw : p.status.watchable = false) : p ∈ db'.payments.rows := by
  obtain ⟨q, hq, hs⟩ := h.row hp
  cases hs with
  | same => exact hq
  | settle call id watchable =>
    rw [hw] at watchable
    cases watchable
  | expire call overdue selected =>
    simp only [Db.overdue, hw, Bool.false_and] at overdue
    cases overdue

/-- Every row after a step comes from one before it, or was just inserted. -/
theorem Writes.row_inv {q : Payment} (h : Writes env now r db c db')
    (hq : q ∈ db'.payments.rows) :
    (∃ p ∈ db.payments.rows, RowStep env now r db c p q) ∨ RowNew db c q := by
  by_cases hold : ∃ p ∈ db.payments.rows, p.id = q.id
  · obtain ⟨p, hp, hid⟩ := hold
    obtain ⟨q', hq', hs⟩ := h.row hp
    cases Db.eq_of_id hq hq' (hid.symm.trans hs.id.symm)
    exact .inl ⟨p, hp, hs⟩
  · right
    push Not at hold
    cases h with
    | none payments _ => exact absurd rfl (hold q (payments ▸ hq))
    | credit h =>
      obtain ⟨t, rfl, -, -⟩ := Db.recordProcessedTx_true h
      exact absurd rfl (hold q hq)
    | settle h =>
      obtain ⟨-, t, rfl, hrows⟩ := Db.updatePaymentStatus_true h
      simp only [hrows, List.mem_map] at hq
      obtain ⟨p, hp, rfl⟩ := hq
      refine absurd ?_ (hold p hp)
      split_ifs <;> rfl
    | expire h =>
      obtain ⟨t, rfl, hrows⟩ := Db.expireOverdue_db h
      simp only [hrows, List.mem_map] at hq
      obtain ⟨p, hp, rfl⟩ := hq
      refine absurd ?_ (hold p hp)
      split_ifs <;> rfl
    | insert h =>
      obtain ⟨n, expiresAt, t, hn, rfl, hrows, -⟩ := Db.insertPayment_eq_some h
      simp only [hrows, List.mem_append, List.mem_singleton] at hq
      rcases hq with hq | rfl
      · exact absurd rfl (hold q hq)
      · exact ⟨⟨_, _, rfl⟩, hold, rfl, rfl, rfl, n, (parseStroops_bounds hn).1,
          (parseStroops_bounds hn).2, rfl⟩

/-- A row that a step inserts is the one its request asks for. -/
theorem Writes.new {q : Payment} (h : Writes env now r db c db') (hq : q ∈ db'.payments.rows)
    (hnew : RowNew db c q) :
    ∃ req memo expires amount, c = .create req (.insert q.id memo) ∧
      q = (Create.newPayment env req q.id memo).row now (strftime expires) amount := by
  obtain ⟨req, memo, rfl⟩ := hnew.call
  cases h with
  | none payments _ => exact absurd rfl (hnew.fresh q (payments ▸ hq))
  | insert h =>
    obtain ⟨n, expiresAt, t, -, rfl, hrows, -, hexpires⟩ := Db.insertPayment_eq_some h
    simp only [hrows, List.mem_append, List.mem_singleton] at hq
    rcases hq with hq | hq
    · exact absurd rfl (hnew.fresh q hq)
    · exact ⟨req, memo, _, stroopsToString n, rfl, hexpires ▸ hq⟩

theorem Writes.createdAt {q : Payment} (h : Writes env now r db c db') (hq : q ∈ db'.payments.rows)
    (hnew : RowNew db c q) : q.createdAt = strftime now := by
  obtain ⟨req, memo, expires, amount, -, hrow⟩ := h.new hq hnew
  rw [hrow]
  rfl

theorem Writes.ledger (h : Writes env now r db c db') :
    db'.processedTransactions = db.processedTransactions ∨
      ∃ hp payment n, c = .reconcile hp (.record payment n) ∧
        db.recordProcessedTx now payment.id hp.hash n = (true, db') := by
  cases h with
  | none _ ledger => exact .inl ledger
  | credit h => exact .inr ⟨_, _, _, rfl, h⟩
  | settle h =>
    obtain ⟨-, t, rfl, -⟩ := Db.updatePaymentStatus_true h
    exact .inl rfl
  | expire h =>
    obtain ⟨t, rfl, -⟩ := Db.expireOverdue_db h
    exact .inl rfl
  | insert h =>
    obtain ⟨n, expiresAt, t, -, rfl, -, -⟩ := Db.insertPayment_eq_some h
    exact .inl rfl

end Rows

/-! The events of the service. -/

/-- The event is no step of the call `i`. -/
def Event.spares (i : ℕ) : Event → Prop
  | .exec j _ | .fail j _ | .kill j => j ≠ i
  | .crash => False
  | .advance _ | .reconcile _ | .sweep | .create _ => True

namespace World
variable {env : Env} {w t : World} {e : Event} {i : ℕ} {r : Reply}

theorem step_exec (h : step env w (.exec i r) = some t) :
    ∃ c, w.calls[i]? = some c ∧ r.uuid ∉ w.minted ∧ t = w.exec env i r c := by
  simp only [step] at h
  split at h
  · cases h
  · next c hc =>
    split_ifs at h with hm
    cases h
    exact ⟨c, hc, hm, rfl⟩

theorem step_fail (h : step env w (.fail i r) = some t) :
    ∃ c, w.calls[i]? = some c ∧ r.uuid ∉ w.minted ∧ t = w.failCall i r c := by
  simp only [step] at h
  split at h
  · cases h
  · next c hc =>
    split_ifs at h with hm
    cases h
    exact ⟨c, hc, hm, rfl⟩

theorem step_kill (h : step env w (.kill i) = some t) :
    ∃ c, w.calls[i]? = some c ∧ t = { w with calls := w.calls.set i c.cut } := by
  simp only [step] at h
  split at h
  · cases h
  · next c hc =>
    cases h
    exact ⟨c, hc, rfl⟩

/-- What every call starts with and keeps, whatever the database, holds of all calls. -/
theorem forall_calls_step {J : Call → Prop}
    (hreconcile : ∀ hp, J (.reconcile hp (Reconcile.start hp))) (hsweep : J (.sweep .expire))
    (hcreate : ∀ req, J (.create req (Create.start env req)))
    (hexec : ∀ now r db c, J c → J (c.step env now r db).next) (hfail : ∀ r c, J c → J (c.fail r).1)
    (hcut : ∀ c : Call, J c → J c.cut) (h : step env w e = some t) (hw : ∀ c ∈ w.calls, J c) :
    ∀ c ∈ t.calls, J c := by
  have hstart : ∀ d, J d → ∀ c ∈ w.calls ++ [d], J c := by
    intro d hd c hc
    rcases List.mem_append.mp hc with hc | hc
    · exact hw c hc
    · rw [List.mem_singleton.mp hc]
      exact hd
  have hset : ∀ i d, J d → ∀ c ∈ w.calls.set i d, J c := by
    intro i d hd c hc
    rcases List.mem_or_eq_of_mem_set hc with hc | rfl
    · exact hw c hc
    · exact hd
  cases e with
  | advance secs =>
    cases h
    exact hw
  | reconcile hp =>
    cases h
    exact hstart _ (hreconcile hp)
  | sweep =>
    cases h
    exact hstart _ hsweep
  | create req =>
    cases h
    exact hstart _ (hcreate req)
  | exec i r =>
    obtain ⟨c, hc, -, rfl⟩ := step_exec h
    exact hset i _ (hexec _ r _ c (hw c (List.mem_of_getElem? hc)))
  | fail i r =>
    obtain ⟨c, hc, -, rfl⟩ := step_fail h
    exact hset i _ (hfail r c (hw c (List.mem_of_getElem? hc)))
  | kill i =>
    obtain ⟨c, hc, rfl⟩ := step_kill h
    exact hset i _ (hcut c (hw c (List.mem_of_getElem? hc)))
  | crash =>
    cases h
    intro d hd
    obtain ⟨c, hc, rfl⟩ := List.mem_map.mp hd
    exact hcut c (hw c hc)

theorem step_db (h : step env w e = some t) :
    t.db = w.db ∨ ∃ i r c, e = .exec i r ∧ w.calls[i]? = some c ∧ t = w.exec env i r c := by
  cases e with
  | advance secs | reconcile hp | sweep | create req | crash =>
    cases h
    exact .inl rfl
  | exec i r =>
    obtain ⟨c, hc, -, rfl⟩ := step_exec h
    exact .inr ⟨i, r, c, rfl, hc, rfl⟩
  | fail i r =>
    obtain ⟨c, -, -, rfl⟩ := step_fail h
    exact .inl rfl
  | kill i =>
    obtain ⟨c, -, rfl⟩ := step_kill h
    exact .inl rfl

/-- Only the clock changes the time, and only a new call is handed a record. -/
theorem step_frame (hs : step env w e = some t) :
    (t.now = w.now ∨ ∃ secs : ℕ, e = .advance secs ∧ t.now = w.now + secs) ∧
      ∀ hp ∈ t.handed, hp ∈ w.handed ∨ e = .reconcile hp := by
  cases e with
  | advance secs =>
    cases hs
    exact ⟨.inr ⟨secs, rfl, rfl⟩, fun _ h => .inl h⟩
  | reconcile hp =>
    cases hs
    refine ⟨.inl rfl, fun x hx => ?_⟩
    rcases List.mem_cons.mp hx with rfl | hx
    · exact .inr rfl
    · exact .inl hx
  | sweep | create req | crash =>
    cases hs
    exact ⟨.inl rfl, fun _ h => .inl h⟩
  | exec i r =>
    obtain ⟨c, -, -, rfl⟩ := step_exec hs
    exact ⟨.inl rfl, fun _ h => .inl h⟩
  | fail i r =>
    obtain ⟨c, -, -, rfl⟩ := step_fail hs
    exact ⟨.inl rfl, fun _ h => .inl h⟩
  | kill i =>
    obtain ⟨c, -, rfl⟩ := step_kill hs
    exact ⟨.inl rfl, fun _ h => .inl h⟩

/-- A call stands still while others take their steps. -/
theorem step_spares {c : Call} (hs : step env w e = some t) (he : e.spares i)
    (hc : w.calls[i]? = some c) : t.calls[i]? = some c := by
  have hstart (d : Call) : (w.calls ++ [d])[i]? = some c := by
    rw [List.getElem?_append_left (List.getElem?_eq_some_iff.mp hc).1]
    exact hc
  cases e with
  | advance secs =>
    cases hs
    exact hc
  | reconcile hp | sweep | create req =>
    cases hs
    exact hstart _
  | exec j r =>
    obtain ⟨d, -, -, rfl⟩ := step_exec hs
    exact (List.getElem?_set_ne he).trans hc
  | fail j r =>
    obtain ⟨d, -, -, rfl⟩ := step_fail hs
    exact (List.getElem?_set_ne he).trans hc
  | kill j =>
    obtain ⟨d, -, rfl⟩ := step_kill hs
    exact (List.getElem?_set_ne he).trans hc
  | crash => exact he.elim

theorem step_row {q : Payment} (hs : step env w e = some t) (hq : q ∈ t.db.payments.rows) :
    (∃ p ∈ w.db.payments.rows, q.terms = p.terms ∧ q.createdAt = p.createdAt ∧
      q.expiresAt = p.expiresAt) ∨ q.createdAt = strftime w.now := by
  rcases step_db hs with hdb | ⟨i, r, c, -, hc, rfl⟩
  · exact .inl ⟨q, hdb ▸ hq, rfl, rfl, rfl⟩
  · have hw : Writes env w.now r w.db c (c.step env w.now r w.db).db := c.step_writes
    rcases hw.row_inv hq with ⟨p, hp, hstep⟩ | hnew
    · exact .inl ⟨p, hp, hstep.terms, hstep.times⟩
    · exact .inr (hw.createdAt hq hnew)

end World
end StellarGate
