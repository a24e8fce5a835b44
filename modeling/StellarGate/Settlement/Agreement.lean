import StellarGate.Horizon.Verdict
import StellarGate.Settlement.Finality
import StellarGate.Settlement.Sequential

/-! `verify` and `reconcile_payment` agree: what the pure function answers before the insert is what
the call persists and announces from the sum after it. -/
namespace StellarGate
open Base

namespace Verdict

def status : Verdict → PaymentStatus
  | .completed _ _ => .completed
  | .overpaid _ _ => .completed
  | .underpaid _ _ => .underpaid

def event : Verdict → WebhookEvent
  | .completed _ _ => .completed
  | .overpaid _ _ => .overpaid
  | .underpaid _ _ => .underpaid

def txHash : Verdict → String
  | .completed h _ => h
  | .overpaid h _ => h
  | .underpaid h _ => h

def paidAmount : Verdict → String
  | .completed _ a => a
  | .overpaid _ a => a
  | .underpaid _ a => a

end Verdict

/-- An `i64` holds the number. -/
def InI64 (n : ℤ) : Prop := -i64Max - 1 ≤ n ∧ n ≤ i64Max

instance (n : ℤ) : Decidable (InI64 n) := inferInstanceAs (Decidable (_ ∧ _))

structure Awaits (db : Db) (now : ℤ) (hp : HorizonPayment) (p : Payment) : Prop where
  mem : p ∈ db.payments.rows
  watchable : p.status.watchable = true
  memo : hp.memo = some p.memo
  unexpired : strftime now < p.expiresAt

namespace Reconcile

/-- The calls of `dispatch` that the steps of `alone` make. -/
def aloneSends (env : Env) (hp : HorizonPayment) :
    List (ℤ × Reply) → ReconcilePc × Db → List Dispatch
  | [], _ => []
  | (now, r) :: feed, (pc, db) =>
    let s := step env now r hp pc db
    s.dispatched ++ aloneSends env hp feed (s.next, s.db)

section
variable {env : Env} {db db' : Db} {hp : HorizonPayment} {p : Payment} {f : ℤ × Reply}
  {feed : List (ℤ × Reply)} {pc pc' : ReconcilePc}

theorem aloneSends_step {ds : List Dispatch} {cs : List (String × WebhookEvent)}
    (h : step env f.1 f.2 hp pc db = ⟨pc', db', ds, cs⟩) :
    aloneSends env hp (f :: feed) (pc, db) = ds ++ aloneSends env hp feed (pc', db') := by
  simp only [aloneSends, h]

variable (env hp feed db) in
theorem alone_done (result : ReconcileResult) :
    alone env hp feed (.done result, db) = (.done result, db) ∧
      aloneSends env hp feed (.done result, db) = [] := by
  induction feed with
  | nil => exact ⟨rfl, rfl⟩
  | cons f feed ih => exact ih

/-- The webhook of a settlement is on its way, or the call has returned `true`. -/
def Notifying (pc : ReconcilePc) : Prop :=
  pc = .done (.ok true) ∨ ∃ d dpc, pc = .notify d dpc ∧ dpc ≠ .start

variable (env db) in
theorem notifying_next (d : Dispatch) (now : ℤ) (r : Reply) (dpc : DispatchPc) :
    Notifying (notifyNext d (d.step env now r dpc db).1) := by
  unfold notifyNext
  split_ifs
  · exact .inl rfl
  · exact .inr ⟨_, _, rfl, d.step_ne_start dpc⟩

variable (env hp feed db) in
theorem alone_notifying (h : Notifying pc) :
    Notifying (alone env hp feed (pc, db)).1 ∧ aloneSends env hp feed (pc, db) = [] := by
  induction feed generalizing pc db with
  | nil => exact ⟨h, rfl⟩
  | cons f feed ih =>
    obtain rfl | ⟨d, dpc, rfl, hne⟩ := h
    · exact ih db (.inl rfl)
    · let s := d.step env f.1 f.2 dpc db
      have hnext := ih s.2 (notifying_next env db d f.1 f.2 dpc)
      refine ⟨hnext.1, ?_⟩
      have hsends : aloneSends env hp (f :: feed) (.notify d dpc, db) =
          [] ++ aloneSends env hp feed (notifyNext d s.1, s.2) := by
        simp only [aloneSends, step, if_neg hne]
        rfl
      rw [hsends, hnext.2]
      rfl

end
end Reconcile

section Verdicts
variable {p : Payment} {hp : HorizonPayment} {v : Verdict} {already : ℤ}

/-- The verdict of `verify` is what `reconcile_payment` makes of the new total. -/
theorem verify_eq_some (hv : verify p hp already = some v)
    (hfits : InI64 (already + hp.stroops.getD 0)) :
    v.status = (settlementOf p (already + hp.stroops.getD 0)).status ∧
      v.event = (settlementOf p (already + hp.stroops.getD 0)).event ∧ v.txHash = hp.hash ∧
      v.paidAmount = stroopsToString (already + hp.stroops.getD 0) := by
  have hsome : (verify p hp already).isSome := by
    rw [hv]
    rfl
  obtain ⟨hm, hnew, hprice⟩ := verify_isSome_iff.mp hsome
  obtain ⟨new, hnew⟩ := Option.isSome_iff_exists.mp hnew
  obtain ⟨expected, hprice⟩ := Option.isSome_iff_exists.mp hprice
  obtain ⟨raw, hraw, hparse⟩ := Option.bind_eq_some_iff.mp hnew
  have hadd : i64Add already new = already + new := by
    rw [hnew, Option.getD_some] at hfits
    unfold InI64 i64Max at hfits
    unfold i64Add
    exact Int.bmod_eq_of_le (by omega) (by omega)
  rw [verify_eq_of_matches hm hraw hparse hprice, hadd] at hv
  have hv' := Option.some.inj hv
  rw [hnew, Option.getD_some, ← hv']
  unfold verdictOf settlementOf expectedStroops
  rw [hprice, Option.getD_some]
  simp only
  split_ifs <;> exact ⟨rfl, rfl, rfl, rfl⟩

end Verdicts

/-! What a call that runs alone does, in the words of `verify`. -/

/-- The call returned `false`, changed no row and sent nothing. -/
structure LeftAlone (db : Db) (out : ReconcilePc × Db) (sent : List Dispatch) : Prop where
  returned : out.1 = .done (.ok false)
  db : out.2 = db
  sent : sent = []

/-- The call credited the record, settled the intent by the verdict, and announced it. -/
structure Applied (db : Db) (hp : HorizonPayment) (p : Payment) (v : Verdict)
    (out : ReconcilePc × Db) (sent : List Dispatch) : Prop where
  returned : out.1 = .done (.ok true)
  ledger : ∃ createdAt, out.2.processedTransactions.rows =
    db.processedTransactions.rows ++ [⟨p.id, hp.hash, hp.stroops.getD 0, createdAt⟩]
  rows : ∃ now, out.2.payments.rows = db.payments.rows.map fun q =>
    if q.id = p.id then Db.settleRow now v.status v.txHash v.paidAmount q else q
  paid : v.paidAmount = stroopsToString (out.2.creditSum p.id)
  sent : ∃ d, sent = [d] ∧ d.event = v.event ∧ d.payment.terms = p.terms ∧
    d.payment.status = v.status ∧
    d.payment.txHash = some v.txHash ∧ d.payment.paidAmount = some v.paidAmount

section Agreement
variable {env : Env} {db : Db} {hp : HorizonPayment} {p : Payment} {v : Verdict}
  {f f₂ f₃ f₄ f₅ f₆ : ℤ × Reply} {feed : List (ℤ × Reply)}
open Reconcile

theorem Awaits.start_eq (h : Awaits db f.1 hp p) : start hp = .find p.memo := by
  unfold start
  rw [h.memo]

theorem Awaits.step_find (h : Awaits db f.1 hp p) :
    step env f.1 f.2 hp (.find p.memo) db = ⟨.sumBefore (rowToPayment p), db, [], []⟩ :=
  Reconcile.step_find h.mem h.watchable h.unexpired

/-- Without an intent that waits for the record the call does nothing. -/
theorem leftAlone_of_not_awaits (h : ∀ p, ¬ Awaits db f.1 hp p) :
    LeftAlone db (alone env hp (f :: feed) (start hp, db))
      (aloneSends env hp (f :: feed) (start hp, db)) := by
  cases hm : hp.memo with
  | none =>
    have hstart : start hp = .done (.ok false) := by
      unfold start
      rw [hm]
    obtain ⟨h₁, h₂⟩ := alone_done env db hp (f :: feed) (.ok false)
    rw [hstart]
    exact ⟨by rw [h₁], by rw [h₁], h₂⟩
  | some memo =>
    have hstart : start hp = .find memo := by
      unfold start
      rw [hm]
    have hfind : db.findPendingByMemo f.1 memo = none := by
      cases hf : db.findPendingByMemo f.1 memo with
      | none => rfl
      | some q =>
        obtain ⟨p, hp', -, hmemo, hw, he⟩ := Db.findPendingByMemo_eq_some hf
        exact absurd ⟨hp', hw, by rw [hm, hmemo], he⟩ (h p)
    have hs : step env f.1 f.2 hp (.find memo) db = ⟨.done (.ok false), db, [], []⟩ := by
      simp only [step, hfind]
    obtain ⟨h₁, h₂⟩ := alone_done env db hp feed (.ok false)
    rw [hstart, alone_step hs, aloneSends_step hs, List.nil_append]
    exact ⟨by rw [h₁], by rw [h₁], h₂⟩

/-- A record that `verify` refuses, or whose transaction is recorded already, changes nothing. -/
theorem leftAlone_of_awaits (h : Awaits db f.1 hp p) (hle : db.creditSum p.id ≤ i64Max)
    (hno : verify p hp (db.creditSum p.id) = none ∨ Credited db p hp) :
    LeftAlone db (alone env hp (f :: f₂ :: f₃ :: feed) (start hp, db))
      (aloneSends env hp (f :: f₂ :: f₃ :: feed) (start hp, db)) := by
  have hsum : db.sumProcessedStroops (rowToPayment p).id = some (db.creditSum p.id) := if_pos hle
  have hverify : verify (rowToPayment p) hp (db.creditSum p.id) = verify p hp (db.creditSum p.id) :=
    verify_congr (rowToPayment_terms p) hp _
  rw [h.start_eq, alone_step h.step_find, aloneSends_step h.step_find, List.nil_append]
  cases hv : verify p hp (db.creditSum p.id) with
  | none =>
    have hs : step env f₂.1 f₂.2 hp (.sumBefore (rowToPayment p)) db =
        ⟨.done (.ok false), db, [], []⟩ := by
      simp only [step, hsum, hverify, hv, Option.isNone_none, if_true]
    obtain ⟨h₁, h₂⟩ := alone_done env db hp (f₃ :: feed) (.ok false)
    rw [alone_step hs, aloneSends_step hs, List.nil_append]
    exact ⟨by rw [h₁], by rw [h₁], h₂⟩
  | some v =>
    have hc : Credited db (rowToPayment p) hp := by
      obtain hnone | hc := hno
      · rw [hv] at hnone
        cases hnone
      · exact hc
    have hs : step env f₂.1 f₂.2 hp (.sumBefore (rowToPayment p)) db =
        ⟨.record (rowToPayment p) (hp.stroops.getD 0), db, [], []⟩ := by
      simp only [step, hsum, hverify, hv, Option.isNone_some, Bool.false_eq_true, if_false]
    have hs' : step env f₃.1 f₃.2 hp (.record (rowToPayment p) (hp.stroops.getD 0)) db =
        ⟨.done (.ok false), db, [], []⟩ := step_record_seen hc
    obtain ⟨h₁, h₂⟩ := alone_done env db hp feed (.ok false)
    rw [alone_step hs, aloneSends_step hs, List.nil_append, alone_step hs', aloneSends_step hs',
      List.nil_append]
    exact ⟨by rw [h₁], by rw [h₁], h₂⟩

variable (f₂ f₃ f₄ f₅) in
/-- A new record that `verify` accepts: five statements credit it and write the row, and the call
stands before the webhook. -/
theorem settles_of_awaits (h : Awaits db f.1 hp p) (hfits : InI64 (db.creditSum p.id))
    (hfits' : InI64 (db.creditSum p.id + hp.stroops.getD 0))
    (hsome : (verify p hp (db.creditSum p.id)).isSome) (hn : ¬ Credited db p hp) :
    let total := db.creditSum p.id + hp.stroops.getD 0
    let d := dispatchOf (rowToPayment p) total hp.hash
    ∃ db', (db'.processedTransactions.rows =
        db.processedTransactions.rows ++ [⟨p.id, hp.hash, hp.stroops.getD 0, strftime f₃.1⟩]) ∧
      (db'.payments.rows = db.payments.rows.map fun q => if q.id = p.id then
        Db.settleRow f₅.1 (settlementOf (rowToPayment p) total).status hp.hash
          (stroopsToString total) q else q) ∧
      db'.creditSum p.id = total ∧
      ∀ rest, alone env hp (f :: f₂ :: f₃ :: f₄ :: f₅ :: rest) (start hp, db) =
          alone env hp rest (.notify d .start, db') ∧
        aloneSends env hp (f :: f₂ :: f₃ :: f₄ :: f₅ :: rest) (start hp, db) =
          aloneSends env hp rest (.notify d .start, db') := by
  intro total d
  obtain ⟨hm, hnew, hprice⟩ := verify_isSome_iff.mp hsome
  have hpays : Pays (rowToPayment p) hp := Pays.of_terms (rowToPayment_terms p).symm ⟨hm, hnew⟩
  have hbefore : step env f₂.1 f₂.2 hp (.sumBefore (rowToPayment p)) db =
      ⟨.record (rowToPayment p) (hp.stroops.getD 0), db, [], []⟩ :=
    step_sumBefore rfl hfits.2 hpays hprice
  -- the insert: the transaction is new
  cases hrec : db.recordProcessedTx f₃.1 p.id hp.hash (hp.stroops.getD 0) with
  | mk added db₁ =>
    cases added with
    | false => exact absurd (Db.recordProcessedTx_false hrec).2 hn
    | true =>
      have hrecord : step env f₃.1 f₃.2 hp (.record (rowToPayment p) (hp.stroops.getD 0)) db =
          ⟨.sumAfter (rowToPayment p), db₁, [], []⟩ := step_record hrec
      have hsum : db₁.creditSum p.id = total := by simpa using Db.creditSum_record hrec p.id
      have hafter : step env f₄.1 f₄.2 hp (.sumAfter (rowToPayment p)) db₁ =
          ⟨.update (rowToPayment p) (db₁.creditSum p.id), db₁, [], []⟩ :=
        step_sumAfter (rowToPayment_id p) (hsum ▸ hfits'.2)
      obtain ⟨t, rfl, hledger, -⟩ := Db.recordProcessedTx_true hrec
      -- the update: the row is still open
      obtain ⟨u, hrows, hupdate⟩ :=
        step_update_rows env f₅.1 f₅.2 { db with processedTransactions := t } hp total h.mem
          (rowToPayment_id p) h.watchable
      refine ⟨{ db with processedTransactions := t, payments := u }, hledger, hrows, hsum,
        fun rest => ⟨?_, ?_⟩⟩
      · rw [h.start_eq, alone_step h.step_find, alone_step hbefore, alone_step hrecord,
          alone_step hafter, hsum, alone_step hupdate]
      · rw [h.start_eq, aloneSends_step h.step_find, aloneSends_step hbefore,
          aloneSends_step hrecord, aloneSends_step hafter, hsum, aloneSends_step hupdate]
        rfl

/-- Before the webhook the call sends it, and no more. -/
theorem aloneSends_notify (d : Dispatch) (db : Db) :
    aloneSends env hp (f :: feed) (.notify d .start, db) = [d] ∧
      Notifying (alone env hp (f :: feed) (.notify d .start, db)).1 := by
  let s := d.step env f.1 f.2 .start db
  have hstep : step env f.1 f.2 hp (.notify d .start) db = ⟨notifyNext d s.1, s.2, [d], []⟩ := rfl
  obtain ⟨hnotifying, hquiet⟩ :=
      alone_notifying env s.2 hp feed (notifying_next env db d f.1 f.2 .start)
  rw [aloneSends_step hstep, alone_step hstep, hquiet]
  exact ⟨rfl, hnotifying⟩

/-- A new record that `verify` accepts is applied by its verdict. -/
theorem applied_of_awaits (h : Awaits db f.1 hp p) (hfits : InI64 (db.creditSum p.id))
    (hfits' : InI64 (db.creditSum p.id + hp.stroops.getD 0))
    (hv : verify p hp (db.creditSum p.id) = some v) (hn : ¬ Credited db p hp)
    (hlen : maxSteps env ≤ (f :: f₂ :: f₃ :: f₄ :: f₅ :: f₆ :: feed).length) :
    Applied db hp p v (alone env hp (f :: f₂ :: f₃ :: f₄ :: f₅ :: f₆ :: feed) (start hp, db))
      (aloneSends env hp (f :: f₂ :: f₃ :: f₄ :: f₅ :: f₆ :: feed) (start hp, db)) := by
  obtain ⟨hstatus, hevent, hhash, hpaid⟩ := verify_eq_some hv hfits'
  have hcopy : settlementOf p (db.creditSum p.id + hp.stroops.getD 0) =
      settlementOf (rowToPayment p) (db.creditSum p.id + hp.stroops.getD 0) := by
    unfold settlementOf
    rw [expectedStroops_of_terms (rowToPayment_terms p)]
  rw [hcopy] at hstatus hevent
  have hsome : (verify p hp (db.creditSum p.id)).isSome := by
    rw [hv]
    rfl
  obtain ⟨db', hledger, hrows, hsum, hruns⟩ := settles_of_awaits f₂ f₃ f₄ f₅ h hfits hfits' hsome hn
  obtain ⟨halone, hsends⟩ := hruns (f₆ :: feed)
  let d := dispatchOf (rowToPayment p) (db.creditSum p.id + hp.stroops.getD 0) hp.hash
  obtain ⟨hsent, hnotifying⟩ := aloneSends_notify d db'
  obtain ⟨hpayments, hprocessed⟩ := alone_late env hp (f₆ :: feed) (.notify d .start, db') rfl
  have hreturned : (alone env hp (f₆ :: feed) (.notify d .start, db')).1 = .done (.ok true) := by
    obtain ⟨result, hdone⟩ : ∃ result, (alone env hp (f :: f₂ :: f₃ :: f₄ :: f₅ :: f₆ :: feed)
        (start hp, db)).1 = .done result := alone_returns hlen
    rw [halone] at hdone
    obtain htrue | ⟨d', dpc, hpc, -⟩ := hnotifying
    · exact htrue
    · rw [hpc] at hdone
      cases hdone
  rw [halone, hsends]
  refine ⟨hreturned, ⟨strftime f₃.1, ?_⟩, ⟨f₅.1, ?_⟩, ?_, d, hsent, hevent.symm,
    rowToPayment_terms p, hstatus.symm, ?_, ?_⟩
  · rw [hprocessed]
    exact hledger
  · rw [hpayments, hstatus, hhash, hpaid]
    exact hrows
  · rw [hpaid, Db.creditSum_congr hprocessed]
    exact congrArg stroopsToString hsum.symm
  · exact congrArg some hhash.symm
  · rw [hpaid]
    exact congrArg some (settlementOf_paidAmount _ _)

/-- A call of `reconcile_payment` that runs alone with totals within `i64` does what `verify` says:
it leaves everything as it is, or applies the verdict. -/
theorem reconcile_agrees (env : Env) (db : Db) (hp : HorizonPayment) (f : ℤ × Reply)
    (feed : List (ℤ × Reply)) (hlen : maxSteps env ≤ (f :: feed).length)
    (hfits : ∀ p, Awaits db f.1 hp p →
      InI64 (db.creditSum p.id) ∧ InI64 (db.creditSum p.id + hp.stroops.getD 0)) :
    let out := alone env hp (f :: feed) (start hp, db)
    let sent := aloneSends env hp (f :: feed) (start hp, db)
    (((∀ p, ¬ Awaits db f.1 hp p) ∨ ∃ p, Awaits db f.1 hp p ∧
        (verify p hp (db.creditSum p.id) = none ∨ Credited db p hp)) → LeftAlone db out sent) ∧
    ∀ p v, Awaits db f.1 hp p → verify p hp (db.creditSum p.id) = some v → ¬ Credited db p hp →
      Applied db hp p v out sent := by
  obtain ⟨f₂, f₃, f₄, f₅, f₆, feed, rfl⟩ : ∃ f₂ f₃ f₄ f₅ f₆ rest, feed = f₂ :: f₃ :: f₄ :: f₅ ::
      f₆ :: rest := by
    have hmany : 5 ≤ feed.length := by
      unfold maxSteps at hlen
      rw [List.length_cons] at hlen
      omega
    match feed, hmany with
    | f₂ :: f₃ :: f₄ :: f₅ :: f₆ :: rest, _ => exact ⟨f₂, f₃, f₄, f₅, f₆, rest, rfl⟩
  refine ⟨?_, ?_⟩
  · rintro (hno | ⟨p, hp', hno⟩)
    · exact leftAlone_of_not_awaits hno
    · exact leftAlone_of_awaits hp' (hfits p hp').1.2 hno
  · intro p v hp' hv hn
    exact applied_of_awaits hp' (hfits p hp').1 (hfits p hp').2 hv hn hlen

/-- A first part payment. -/
theorem reconcile_agrees_sample :
    let hp := Sample.record "11" "4.0000000" "TXA" "1"
    let feed := List.replicate 11 ((0 : ℤ), Sample.reply 30)
    ∃ w p, World.Reaches Sample.env (.init 0) Sample.create w ∧ p ∈ w.db.payments.rows ∧
      Applied w.db hp p (.underpaid "TXA" "4") (alone Sample.env hp feed (start hp, w.db))
        (aloneSends Sample.env hp feed (start hp, w.db)) := by
  intro hp feed
  obtain ⟨w, hw, hfits, p, hmem, hwatch, hmemo, he, hv, hcred⟩ := exists_of_run
    (World.step Sample.env) (.init 0) Sample.create
    (P := fun w => (∀ q ∈ w.db.payments.rows,
        InI64 (w.db.creditSum q.id) ∧ InI64 (w.db.creditSum q.id + hp.stroops.getD 0)) ∧
      ∃ p ∈ w.db.payments.rows, p.status.watchable = true ∧ hp.memo = some p.memo ∧
      strftime 0 < p.expiresAt ∧
        verify p hp (w.db.creditSum p.id) = some (.underpaid "TXA" "4") ∧ w.db.credits p.id = [])
    (by decide +kernel)
  have hnew : ¬ Credited w.db p hp := by
    unfold Credited
    rw [hcred]
    rintro ⟨x, hx, -⟩
    cases hx
  have hagrees := reconcile_agrees Sample.env w.db hp (0, Sample.reply 30)
    (List.replicate 10 ((0 : ℤ), Sample.reply 30)) (by decide) (fun q hq => hfits q hq.mem)
  exact ⟨w, p, hw, hmem, hagrees.2 p _ ⟨hmem, hwatch, hmemo, he⟩ hv hnew⟩

end Agreement
end StellarGate
