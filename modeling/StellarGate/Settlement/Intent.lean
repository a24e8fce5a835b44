import StellarGate.Settlement.Soundness

/-! One intent among the calls in flight: which of them have credited it and have
still to write its status. -/
namespace StellarGate
open Base

def Event.faultless : Event → Bool
  | .fail _ _ | .kill _ | .crash => false
  | _ => true

/-- The call has credited the intent `id` and has still to write a status for it; `P` is
what holds of its total once it has read one. -/
def Call.Busy (id : String) (P : ℤ → Prop) : Call → Prop
  | .reconcile _ (.sumAfter p) => p.id = id
  | .reconcile _ (.update p total) => p.id = id ∧ P total
  | _ => False

def World.Busy (w : World) (id : String) (P : ℤ → Prop) : Prop := ∃ c ∈ w.calls, c.Busy id P

/-- The call runs `record_processed_tx` for the intent next. -/
def Call.atRecord (id : String) : Call → Bool
  | .reconcile _ (.record p _) => p.id = id
  | _ => false

/-! The steps of a call on an intent, one equation each. -/
section Equations
variable {env : Env} {now : ℤ} {r : Reply} {db db' : Db} {hp : HorizonPayment} {p q : Payment}
  {total : ℤ} {id : String}

theorem Reconcile.step_find (hq : q ∈ db.payments.rows) (hw : q.status.watchable = true)
    (he : strftime now < q.expiresAt) :
    Reconcile.step env now r hp (.find q.memo) db = ⟨.sumBefore (rowToPayment q), db, [], []⟩ := by
  simp only [Reconcile.step, Db.findPendingByMemo_of_mem hq hw he]

theorem Reconcile.step_sumBefore (hid : p.id = id) (hle : db.creditSum id ≤ i64Max)
    (hpays : Pays p hp) (hprice : (parseStroops p.amount).isSome) :
    Reconcile.step env now r hp (.sumBefore p) db =
      ⟨.record p (hp.stroops.getD 0), db, [], []⟩ := by
  have hn : (verify p hp (db.creditSum id)).isNone = false := by
    rw [Option.isNone_eq_false_iff]
    exact verify_isSome_iff.mpr ⟨hpays.1, hpays.2, hprice⟩
  simp only [Reconcile.step, Db.sumProcessedStroops, hid, if_pos hle, hn]
  rfl

/-- A total beyond `i64` ends a call with an error. -/
theorem Reconcile.step_overflow (hid : p.id = id) (h : ¬ db.creditSum id ≤ i64Max) :
    Reconcile.step env now r hp (.sumBefore p) db = ⟨.done .err, db, [], []⟩ ∧
      Reconcile.step env now r hp (.sumAfter p) db = ⟨.done .err, db, [], []⟩ := by
  have hsum : db.sumProcessedStroops p.id = none := by
    rw [hid]
    exact if_neg h
  simp only [Reconcile.step, hsum, and_self]

theorem Reconcile.step_record {n : ℤ} (h : db.recordProcessedTx now p.id hp.hash n = (true, db')) :
    Reconcile.step env now r hp (.record p n) db = ⟨.sumAfter p, db', [], []⟩ := by
  simp only [Reconcile.step, h]

theorem Reconcile.step_record_seen {n : ℤ} (h : ∃ x ∈ db.credits p.id, x.txHash = hp.hash) :
    Reconcile.step env now r hp (.record p n) db = ⟨.done (.ok false), db, [], []⟩ := by
  cases hrec : db.recordProcessedTx now p.id hp.hash n with
  | mk added db' =>
    cases added with
    | false =>
      obtain ⟨rfl, -⟩ := Db.recordProcessedTx_false hrec
      simp only [Reconcile.step, hrec]
    | true =>
      obtain ⟨t, -, -, hfresh⟩ := Db.recordProcessedTx_true hrec
      obtain ⟨x, hx, hhash⟩ := h
      obtain ⟨hx, hid⟩ := Db.mem_credits.mp hx
      exact absurd (by rw [ProcessedTx.key, hid, hhash]) (hfresh x hx)

variable (env now r db hp p) in
/-- After its insert the transaction is credited, by this call or by an earlier one. -/
theorem Reconcile.credits_of_record (n : ℤ) :
    ∃ x ∈ (Reconcile.step env now r hp (.record p n) db).db.credits p.id, x.txHash = hp.hash := by
  by_cases hseen : ∃ x ∈ db.credits p.id, x.txHash = hp.hash
  · rw [Reconcile.step_record_seen hseen]
    exact hseen
  · cases hrec : db.recordProcessedTx now p.id hp.hash n with
    | mk added db' =>
      cases added with
      | false => exact absurd (Db.recordProcessedTx_false hrec).2 hseen
      | true =>
        rw [Reconcile.step_record hrec]
        obtain ⟨t, rfl, hrows, -⟩ := Db.recordProcessedTx_true hrec
        exact ⟨⟨p.id, hp.hash, n, strftime now⟩, by simp [Db.mem_credits, hrows], rfl⟩

theorem Reconcile.step_sumAfter (hid : p.id = id) (hle : db.creditSum id ≤ i64Max) :
    Reconcile.step env now r hp (.sumAfter p) db = ⟨.update p (db.creditSum id), db, [], []⟩ := by
  simp only [Reconcile.step, Db.sumProcessedStroops, hid, if_pos hle]

variable (env now r hp total) in
/-- The guarded update of a row that is no longer watchable. -/
theorem Reconcile.step_update_closed (hq : q ∈ db.payments.rows) (hid : p.id = q.id)
    (hw : q.status.watchable = false) :
    Reconcile.step env now r hp (.update p total) db = ⟨.done (.ok false), db, [], []⟩ := by
  simp only [Reconcile.step]
  split
  · next db' h =>
    obtain ⟨rfl, -⟩ := Db.updatePaymentStatus_false h
    rfl
  · next h =>
    obtain ⟨⟨q', hq', hid', hw'⟩, -⟩ := Db.updatePaymentStatus_true h
    cases Db.eq_of_id hq hq' (hid.symm.trans hid'.symm)
    rw [hw] at hw'
    cases hw'

variable (env now r db hp total) in
theorem Reconcile.step_update_rows (hq : q ∈ db.payments.rows) (hid : p.id = q.id)
    (hw : q.status.watchable = true) :
    ∃ t, (t.rows = db.payments.rows.map fun x => if x.id = p.id then
        Db.settleRow now (settlementOf p total).status hp.hash (stroopsToString total) x else x) ∧
      Reconcile.step env now r hp (.update p total) db =
        ⟨.notify (Reconcile.dispatchOf p total hp.hash) .start, { db with payments := t }, [],
          [(p.id, (settlementOf p total).event)]⟩ := by
  simp only [Reconcile.step]
  split
  · next h =>
    obtain ⟨-, hall⟩ := Db.updatePaymentStatus_false h
    rw [hall q hq hid.symm] at hw
    cases hw
  · next db' h =>
    obtain ⟨-, t, rfl, hrows⟩ := Db.updatePaymentStatus_true h
    rw [settlementOf_paidAmount] at hrows
    exact ⟨t, hrows, rfl⟩

variable (env now r hp total) in
theorem Reconcile.step_update_open (hq : q ∈ db.payments.rows) (hid : p.id = q.id)
    (hw : q.status.watchable = true) :
    ∃ db', Db.settleRow now (settlementOf p total).status hp.hash (stroopsToString total) q ∈
        db'.payments.rows ∧ db'.processedTransactions = db.processedTransactions ∧
      Reconcile.step env now r hp (.update p total) db =
        ⟨.notify (Reconcile.dispatchOf p total hp.hash) .start, db', [],
          [(p.id, (settlementOf p total).event)]⟩ := by
  obtain ⟨t, hrows, hstep⟩ := Reconcile.step_update_rows env now r db hp total hq hid hw
  refine ⟨{ db with payments := t }, ?_, rfl, hstep⟩
  simp only [hrows]
  exact List.mem_map.mpr ⟨q, hq, if_pos hid.symm⟩

end Equations

section Calls
variable {env : Env} {now : ℤ} {r : Reply} {db db' : Db} {hp : HorizonPayment} {q : Payment}
  {id : String} {P : ℤ → Prop} {c : Call}

theorem Call.step_reconcile {pc : ReconcilePc} {s : StepResult ReconcilePc}
    (h : Reconcile.step env now r hp pc db = s) :
    (Call.reconcile hp pc).step env now r db =
      ⟨.reconcile hp s.next, s.db, s.dispatched, s.committed⟩ := by
  simp only [Call.step, h]

theorem Call.Busy.not_returned (h : c.Busy id P) : c.returned = false := by
  unfold Call.Busy at h
  split at h
  · rfl
  · rfl
  · exact h.elim

theorem Call.Busy.mono {Q : ℤ → Prop} (hPQ : ∀ n, P n → Q n) (h : c.Busy id P) : c.Busy id Q := by
  unfold Call.Busy at h ⊢
  split at h
  · exact h
  · exact ⟨h.1, hPQ _ h.2⟩
  · exact h

theorem Call.Busy.cases (h : c.Busy id P) :
    (∃ hp p, c = .reconcile hp (.sumAfter p) ∧ p.id = id) ∨
      ∃ hp p total, c = .reconcile hp (.update p total) ∧ p.id = id ∧ P total := by
  unfold Call.Busy at h
  split at h
  · exact .inl ⟨_, _, rfl, h⟩
  · exact .inr ⟨_, _, _, rfl, h⟩
  · exact h.elim

/-- Only a call before its status update, or a sweep past the expiry, changes
the row of an intent. -/
theorem Writes.row_eq (h : Writes env now r db c db') (hq : q ∈ db.payments.rows)
    (hb : ¬ c.Busy q.id fun _ => True) (he : strftime now < q.expiresAt ∨ c ≠ .sweep .expire) :
    q ∈ db'.payments.rows := by
  obtain ⟨q', hq', hs⟩ := h.row hq
  cases hs with
  | same => exact hq'
  | settle call id watchable => exact absurd (by simp [call, Call.Busy, id]) hb
  | expire call overdue selected =>
    rcases he with he | he
    · simp only [Db.overdue, Bool.and_eq_true, decide_eq_true_eq] at overdue
      exact absurd he (String.not_lt.mpr overdue.2)
    · exact absurd call he

variable (env now r db c id) in
/-- The total of the intent changes only by a credit to it, which leaves the
call before its re-sum. -/
theorem Call.step_creditSum :
    (c.step env now r db).db.creditSum id = db.creditSum id ∨
      c.atRecord id = true ∧ ∀ P, (c.step env now r db).next.Busy id P := by
  have hw : Writes env now r db c (c.step env now r db).db := c.step_writes
  rcases hw.ledger with hl | ⟨hp, x, n, rfl, hrec⟩
  · exact .inl (Db.creditSum_congr hl)
  · by_cases hid : x.id = id
    · refine .inr ⟨by simp [Call.atRecord, hid], fun P => ?_⟩
      rw [Call.step_reconcile (Reconcile.step_record hrec)]
      exact hid
    · left
      rw [Db.creditSum_record hrec, if_neg hid, add_zero]

end Calls

namespace World
variable {env : Env} {w : World} {i : ℕ} {r : Reply} {c : Call} {id : String} {P : ℤ → Prop}

theorem Busy.exec (hc : w.calls[i]? = some c) (h : w.Busy id P) :
    c.Busy id P ∨ (w.exec env i r c).Busy id P := by
  obtain ⟨d, hd, hb⟩ := h
  rcases mem_set_of_mem (b := (c.step env w.now r w.db).next) hc hd with rfl | hd
  · exact .inl hb
  · exact .inr ⟨d, hd, hb⟩

theorem busy_of_sumAfter {hp : HorizonPayment} {x : Payment}
    (hc : w.calls[i]? = some (.reconcile hp (.sumAfter x))) (hid : x.id = id)
    (hmax : w.db.creditSum id ≤ i64Max) (hP : P (w.db.creditSum id)) :
    (w.exec env i r (.reconcile hp (.sumAfter x))).Busy id P := by
  refine ⟨_, mem_set_self hc, ?_⟩
  rw [Call.step_reconcile (Reconcile.step_sumAfter hid hmax)]
  exact ⟨hid, hP⟩

theorem Busy.start {d : Call} (h : w.Busy id P) : (w.start d).Busy id P := by
  obtain ⟨c, hc, hb⟩ := h
  exact ⟨c, List.mem_append_left _ hc, hb⟩

theorem quiet.not_busy (hq : w.quiet) : ¬ w.Busy id P := by
  rintro ⟨c, hc, hb⟩
  have := hb.not_returned
  rw [hq c hc] at this
  cases this

end World
end StellarGate
