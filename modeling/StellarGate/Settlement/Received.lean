import StellarGate.Settlement.Intent

/-! The `paid_amount` column and the ledger: in which runs no credited amount is
missing from the column. -/
namespace StellarGate
open Base

/-- The amount in the `paid_amount` column, zero when it is NULL. -/
def paidStroops (p : Payment) : ℤ := (p.paidAmount.bind parseStroops).getD 0

/-- The call has read a total for the intent and runs `update_payment_status` next. -/
def Call.atUpdate (id : String) : Call → Bool
  | .reconcile _ (.update p _) => p.id = id
  | _ => false

def Call.atSumAfter (id : String) : Call → Bool
  | .reconcile _ (.sumAfter p) => p.id = id
  | _ => false

def Faultless (id : String) (w : World) (e : Event) : Prop :=
  e.faultless = true ∧ w.db.creditSum id ≤ i64Max

/-- The intent has not expired and, while it is open, no call stands between its re-sum
and its status update. -/
def Creditable (id : String) (w : World) : Prop :=
  ∀ p ∈ w.db.payments.rows, p.id = id → p.status ≠ .expired ∧
    (p.status.watchable = true → ∀ d ∈ w.calls, d.atUpdate id = false)

/-- A credit is inserted for the intent only before it expires and, while it is open,
never between the re-sum and the status update of another call. -/
def CreditsInTurn (id : String) (w : World) : Event → Prop :=
  Event.onExec fun i _ => ∀ c ∈ w.calls[i]?, c.atRecord id = true → Creditable id w

/-- A sweep expires the intent only while no call that has credited it has
still to write its status. -/
def SweepsInTurn (env : Env) (id : String) (w : World) : Event → Prop :=
  Event.onExec fun i r => w.calls[i]? = some (.sweep .expire) →
    id ∈ w.db.expireIds w.now env.config.expiryBatchSize r.tie →
    ∀ d ∈ w.calls, d.atSumAfter id = false ∧ d.atUpdate id = false

/-- A credit is inserted for the intent only before it is completed. -/
def CreditsWhileOpen (id : String) (w : World) : Event → Prop :=
  Event.onExec fun i _ => ∀ c ∈ w.calls[i]?, c.atRecord id = true →
    ∀ p ∈ w.db.payments.rows, p.id = id → p.status ≠ .completed

def Unexpired (id : String) (w : World) : Prop :=
  ∀ p ∈ w.db.payments.rows, p.id = id → strftime w.now < p.expiresAt

instance (id : String) (w : World) (e : Event) : Decidable (Faultless id w e) := by
  unfold Faultless
  infer_instance

instance (id : String) (w : World) : Decidable (Creditable id w) := by
  unfold Creditable
  infer_instance

instance (id : String) (w : World) (e : Event) : Decidable (CreditsInTurn id w e) := by
  unfold CreditsInTurn
  infer_instance

instance (env : Env) (id : String) (w : World) (e : Event) :
    Decidable (SweepsInTurn env id w e) := by
  unfold SweepsInTurn
  infer_instance

instance (id : String) (w : World) (e : Event) : Decidable (CreditsWhileOpen id w e) := by
  unfold CreditsWhileOpen
  infer_instance

instance (id : String) (w : World) : Decidable (Unexpired id w) := by
  unfold Unexpired
  infer_instance

/-- What a run in turn keeps of the intent. -/
structure InTurn (id : String) (w : World) : Prop where
  sound : w.Sound
  current : ∀ p ∈ w.db.payments.rows, p.id = id → p.status.watchable = true →
    ∀ hp x total, .reconcile hp (.update x total) ∈ w.calls → x.id = id →
      total = w.db.creditSum id
  opened : ∀ p ∈ w.db.payments.rows, p.id = id → p.status.watchable = true →
    (w.db.creditSum id < expectedStroops p ∧ paidStroops p = w.db.creditSum id) ∨
      w.Busy id fun _ => True
  expired : ∀ p ∈ w.db.payments.rows, p.id = id → p.status = .expired →
    w.db.creditSum id < expectedStroops p ∧ paidStroops p = w.db.creditSum id

section
variable {env : Env} {now : ℤ} {r : Reply} {db : Db} {c : Call} {id : String} {p q : Payment}

theorem Call.Busy.of_at (h : c.Busy id fun _ => True) :
    c.atSumAfter id = true ∨ c.atUpdate id = true := by
  rcases h.cases with ⟨hp, x, rfl, hid⟩ | ⟨hp, x, total, rfl, hid, -⟩
  · exact .inl (by simp [Call.atSumAfter, hid])
  · exact .inr (by simp [Call.atUpdate, hid])

theorem Call.next_update {hp : HorizonPayment} {x : Payment} {total : ℤ}
    (h : (c.step env now r db).next = .reconcile hp (.update x total)) :
    c = .reconcile hp (.sumAfter x) ∧ total = db.creditSum x.id ∧
      (c.step env now r db).db = db := by
  cases c with
  | reconcile hp' pc =>
    simp only [Call.step] at h ⊢
    obtain ⟨rfl, h⟩ := Call.reconcile.inj h
    cases pc with
    | sumAfter y =>
      simp only [Reconcile.step] at h ⊢
      split at h
      · cases h
      · next n hn =>
        obtain ⟨rfl, -⟩ := Db.sumProcessedStroops_eq_some hn
        cases h
        exact ⟨rfl, rfl, rfl⟩
    | find memo =>
      simp only [Reconcile.step] at h
      split at h <;> cases h
    | sumBefore y =>
      simp only [Reconcile.step] at h
      split at h
      · cases h
      · split at h <;> cases h
    | record y n =>
      simp only [Reconcile.step] at h
      split at h <;> cases h
    | update y n =>
      simp only [Reconcile.step] at h
      split at h <;> cases h
    | notify d pc =>
      simp only [Reconcile.step, Reconcile.notifyNext] at h
      split at h <;> cases h
    | done result => cases h
  | sweep pc => cases h
  | create req pc => cases h
  | lost => cases h

/-- The column reads back what `update_payment_status` wrote. -/
theorem paidStroops_settleRow {status : PaymentStatus} {hash : String} {total : ℤ}
    (hpos : 0 < total) (hmax : total ≤ i64Max) :
    paidStroops (Db.settleRow now status hash (stroopsToString total) p) = total := by
  simp [paidStroops, Db.settleRow, parseStroops_stroopsToString hpos hmax]

theorem RowNew.creditSum {handed : List HorizonPayment} (hb : Backed db handed)
    (h : RowNew db c q) : db.creditSum q.id = 0 := by
  have hnone : db.credits q.id = [] := by
    rw [List.eq_nil_iff_forall_not_mem]
    intro r hr
    obtain ⟨hr, hid⟩ := Db.mem_credits.mp hr
    obtain ⟨p, hp, hpid, -⟩ := hb r hr
    exact h.fresh p hp (hpid.trans hid)
  simp [Db.creditSum, hnone]

end

namespace InTurn
variable {env : Env} {w t : World} {e : Event} {i : ℕ} {r : Reply} {c : Call} {id : String}

theorem exec_current (h : InTurn id w) (hc : w.calls[i]? = some c)
    (hcredit : CreditsInTurn id w (.exec i r)) {q : Payment}
    (hq : q ∈ (w.exec env i r c).db.payments.rows) (hid : q.id = id)
    (hw : q.status.watchable = true) {hp : HorizonPayment} {x : Payment} {total : ℤ}
    (hd : .reconcile hp (.update x total) ∈ (w.exec env i r c).calls) (hx : x.id = id) :
    total = (w.exec env i r c).db.creditSum id := by
  have hwr : Writes env w.now r w.db c (c.step env w.now r w.db).db := c.step_writes
  rcases List.mem_or_eq_of_mem_set hd with hd | hd
  · have hbusy : (Call.reconcile hp (.update x total)).atUpdate id = true := by
      simp [Call.atUpdate, hx]
    rcases hwr.row_inv hq with ⟨p, hp', hstep⟩ | hnew
    · have hpid : p.id = id := hstep.id.symm.trans hid
      have hopen : p.status.watchable = true := by
        cases hstep with
        | same => exact hw
        | settle call id watchable => exact watchable
        | expire call overdue selected => cases hw
      rcases Call.step_creditSum env w.now r w.db id c with hsum | ⟨hrec, -⟩
      · exact (h.current p hp' hpid hopen hp x total hd hx).trans hsum.symm
      · have := (hcredit c hc hrec p hp' hpid).2 hopen _ hd
        rw [hbusy] at this
        cases this
    · obtain ⟨-, ⟨y, hy, hterms⟩, -⟩ := h.sound.calls _ hd
      exact absurd ((Payment.id_eq_of_terms hterms).trans (hx.trans hid.symm)) (hnew.fresh y hy)
  · obtain ⟨-, htotal, hdb⟩ := Call.next_update hd.symm
    simp only [World.exec, hdb]
    exact hx ▸ htotal

/-- The status update of a call in turn writes the ledger's total. -/
theorem exec_update (h : InTurn id w) {hp : HorizonPayment} {x p q : Payment} {total : ℤ}
    (hc : w.calls[i]? = some (.reconcile hp (.update x total))) (hx : x.id = id)
    (hp' : p ∈ w.db.payments.rows) (hpid : p.id = id) (hw : p.status.watchable = true)
    (hq : q ∈ (w.exec env i r (.reconcile hp (.update x total))).db.payments.rows)
    (hid : q.id = id) :
    total = w.db.creditSum id ∧ q = Db.settleRow w.now (settlementOf p total).status hp.hash
      (stroopsToString total) p ∧ settlementOf x total = settlementOf p total ∧
      paidStroops q = w.db.creditSum id := by
  have hmem := List.mem_of_getElem? hc
  have htotal := h.current p hp' hpid hw hp x total hmem hx
  obtain ⟨-, hk, -, hpos, -, hmax⟩ := h.sound.calls _ hmem
  have hset : settlementOf x total = settlementOf p total := by
    simp only [settlementOf, expectedStroops_of_terms (hk.eq_of_id hp' (hpid.trans hx.symm))]
  obtain ⟨db', hrow, -, hs⟩ := Reconcile.step_update_open env w.now r hp total hp'
    (hx.trans hpid.symm) hw
  have hq' : q ∈ db'.payments.rows := by
    simpa only [World.exec, Call.step_reconcile hs] using hq
  have heq := Db.eq_of_id hq' hrow (hid.trans hpid.symm)
  rw [hset] at heq
  refine ⟨htotal, heq, hset, ?_⟩
  rw [heq, paidStroops_settleRow hpos hmax, htotal]

theorem exec_opened (h : InTurn id w) (hc : w.calls[i]? = some c)
    (hmax : w.db.creditSum id ≤ i64Max) {q : Payment}
    (hq : q ∈ (w.exec env i r c).db.payments.rows) (hid : q.id = id)
    (hw : q.status.watchable = true) :
    ((w.exec env i r c).db.creditSum id < expectedStroops q ∧
        paidStroops q = (w.exec env i r c).db.creditSum id) ∨
      (w.exec env i r c).Busy id fun _ => True := by
  have hwr : Writes env w.now r w.db c (c.step env w.now r w.db).db := c.step_writes
  rcases Call.step_creditSum env w.now r w.db id c with hsum | ⟨-, hbusy⟩
  swap
  · exact .inr ⟨_, mem_set_self hc, hbusy _⟩
  have hsum' : (w.exec env i r c).db.creditSum id = w.db.creditSum id := hsum
  rcases hwr.row_inv hq with ⟨p, hp, hstep⟩ | hnew
  · have hpid : p.id = id := hstep.id.symm.trans hid
    by_cases hb : c.Busy id fun _ => True
    · rcases hb.cases with ⟨rec, x, rfl, hx⟩ | ⟨rec, x, total, rfl, hx, -⟩
      · exact .inr (World.busy_of_sumAfter hc hx hmax trivial)
      · left
        rw [hsum']
        have hopen : p.status.watchable = true := by
          by_contra hclosed
          have hsame := hwr.row_closed hp (Bool.eq_false_iff.mpr hclosed)
          cases Db.eq_of_id hq hsame (hid.trans hpid.symm)
          exact hclosed hw
        obtain ⟨htotal, hrow, -, hpaid⟩ := h.exec_update hc hx hp hpid hopen hq hid
        refine ⟨?_, hpaid⟩
        rw [hrow] at hw ⊢
        simp only [Db.settleRow, settlementOf] at hw
        split_ifs at hw with h1 h2
        · cases hw
        · cases hw
        · rw [← htotal]
          exact lt_of_le_of_ne (not_lt.mp h2) h1
    · have hsame : q = p := by
        cases hstep with
        | same => rfl
        | settle call hx watchable => exact absurd (by simp [call, Call.Busy, hx, hpid.symm]) hb
        | expire call overdue selected => cases hw
      subst hsame
      rw [hsum']
      refine (h.opened q hp hid hw).imp_right fun hbusy => ?_
      exact (hbusy.exec hc).resolve_left hb
  · left
    have hzero := hnew.creditSum h.sound.backed
    rw [hid] at hzero
    rw [hsum', hzero]
    exact ⟨(parseStroops_bounds (hnew.sound w.db).priced).1, by
      simp [paidStroops, hnew.paidAmount]⟩

theorem exec_expired (h : InTurn id w) (hc : w.calls[i]? = some c)
    (hcredit : CreditsInTurn id w (.exec i r)) (hsweep : SweepsInTurn env id w (.exec i r))
    {q : Payment} (hq : q ∈ (w.exec env i r c).db.payments.rows) (hid : q.id = id)
    (hx : q.status = .expired) :
    (w.exec env i r c).db.creditSum id < expectedStroops q ∧
      paidStroops q = (w.exec env i r c).db.creditSum id := by
  have hwr : Writes env w.now r w.db c (c.step env w.now r w.db).db := c.step_writes
  rcases hwr.row_inv hq with ⟨p, hp, hstep⟩ | hnew
  · have hpid : p.id = id := hstep.id.symm.trans hid
    cases hstep with
    | same =>
      rcases Call.step_creditSum env w.now r w.db id c with hsum | ⟨hrec, -⟩
      · have hsum' : (w.exec env i r c).db.creditSum id = w.db.creditSum id := hsum
        rw [hsum']
        exact h.expired q hp hid hx
      · exact absurd hx (hcredit c hc hrec q hp hid).1
    | settle call hy watchable =>
      simp only [Db.settleRow, settlementOf] at hx
      split_ifs at hx
    | expire call overdue selected =>
      subst call
      have hnone := hsweep hc (hpid ▸ selected)
      have hw : p.status.watchable = true := (Bool.and_eq_true _ _ ▸ overdue).1
      have hidle : ¬ w.Busy id fun _ => True := by
        rintro ⟨d, hd, hb⟩
        obtain ⟨h1, h2⟩ := hnone d hd
        rcases hb.of_at with hat | hat
        · rw [h1] at hat
          cases hat
        · rw [h2] at hat
          cases hat
      have hl : (w.exec env i r (.sweep .expire)).db.creditSum id = w.db.creditSum id := by
        rcases hwr.ledger with hl | ⟨_, _, _, hne, -⟩
        · exact Db.creditSum_congr hl
        · cases hne
      rw [hl]
      exact (h.opened p hp hpid hw).resolve_right hidle
  · rw [hnew.status] at hx
    cases hx

theorem init {now : ℤ} : InTurn id (.init now) :=
  ⟨World.Sound.init, fun _ h => absurd h List.not_mem_nil, fun _ h => absurd h List.not_mem_nil,
    fun _ h => absurd h List.not_mem_nil⟩

theorem start (h : InTurn id w) {handed : List HorizonPayment}
    (hh : ∀ hp ∈ w.handed, hp ∈ handed) (hs : c.Sound w.db handed)
    (hc : ∀ hp x total, c ≠ .reconcile hp (.update x total)) :
    InTurn id { w.start c with handed } := by
  refine ⟨h.sound.start hh hs, fun p hp hid hw rec x total hd => ?_,
    fun p hp hid hw => ?_, h.expired⟩
  · rcases List.mem_append.mp hd with hd | hd
    · exact h.current p hp hid hw rec x total hd
    · exact absurd (List.mem_singleton.mp hd).symm (hc rec x total)
  · exact (h.opened p hp hid hw).imp_right fun hb => hb.start

theorem step (hf : Faultless id w e) (hcredit : CreditsInTurn id w e)
    (hsweep : SweepsInTurn env id w e) (hs : World.step env w e = some t) (h : InTurn id w) :
    InTurn id t := by
  obtain ⟨hf, hmax⟩ := hf
  cases e with
  | advance secs =>
    cases hs
    exact ⟨h.sound.step (show World.step env w (.advance secs) = some _ from rfl), h.current,
      h.opened, h.expired⟩
  | reconcile hp =>
    cases hs
    refine h.start (fun _ h => List.mem_cons_of_mem _ h) ⟨List.mem_cons_self, ?_⟩ ?_
    · unfold Reconcile.start
      split <;> trivial
    · intro rec x total
      unfold Reconcile.start
      split <;> simp
  | sweep =>
    cases hs
    exact h.start (fun _ h => h) trivial (by simp)
  | create req =>
    cases hs
    exact h.start (fun _ h => h) trivial (by simp)
  | exec i r =>
    obtain ⟨c, hc, -, rfl⟩ := World.step_exec hs
    exact ⟨h.sound.exec hc,
      fun q hq hid hw rec x total hd hx => h.exec_current hc hcredit hq hid hw hd hx,
      fun q hq hid hw => h.exec_opened hc hmax hq hid hw,
      fun q hq hid hx => h.exec_expired hc hcredit hsweep hq hid hx⟩
  | fail i r => cases hf
  | kill i => cases hf
  | crash => cases hf

end InTurn

/-- The call of `dispatch` announces that the intent was overpaid by `excess`. -/
def AnnouncesExcess (id : String) (excess : ℤ) (d : Dispatch) : Prop :=
  d.payment.id = id ∧ d.event = .overpaid ∧ d.delta = some (stroopsToString excess)

structure FullyPaid (id : String) (w : World) (p : Payment) : Prop where
  paid : p.paidAmount = some (stroopsToString (w.db.creditSum id))
  excess : expectedStroops p < w.db.creditSum id →
    (∃ d ∈ w.dispatched, AnnouncesExcess id (w.db.creditSum id - expectedStroops p) d) ∨
      ∃ hp d, .reconcile hp (.notify d .start) ∈ w.calls ∧
        AnnouncesExcess id (w.db.creditSum id - expectedStroops p) d

theorem settlementOf_overpaid {p : Payment} {total : ℤ} (h : expectedStroops p < total) :
    settlementOf p total = ⟨.completed, stroopsToString total, .overpaid,
      some (stroopsToString (total - expectedStroops p))⟩ := by
  simp only [settlementOf, if_neg h.ne', if_pos h]

namespace FullyPaid
variable {env : Env} {w t : World} {e : Event} {i : ℕ} {r : Reply} {c : Call} {id : String}
  {p q : Payment}

theorem exec_same (h : FullyPaid id w p) (hc : w.calls[i]? = some c)
    (hsum : (w.exec env i r c).db.creditSum id = w.db.creditSum id) :
    FullyPaid id (w.exec env i r c) p := by
  refine ⟨hsum ▸ h.paid, fun hlt => ?_⟩
  rw [hsum] at hlt ⊢
  rcases h.excess hlt with ⟨d, hd, hx⟩ | ⟨hp, d, hd, hx⟩
  · exact .inl ⟨d, List.mem_append_left _ hd, hx⟩
  · rcases mem_set_of_mem (b := (c.step env w.now r w.db).next) hc hd with rfl | hd
    · exact .inl ⟨d, List.mem_append_right _ (by simp [Call.step, Reconcile.step]), hx⟩
    · exact .inr ⟨hp, d, hd, hx⟩

theorem exec_update (h : InTurn id w) {hp : HorizonPayment} {x : Payment} {total : ℤ}
    (hc : w.calls[i]? = some (.reconcile hp (.update x total))) (hx : x.id = id)
    (hp' : p ∈ w.db.payments.rows) (hpid : p.id = id) (hw : p.status.watchable = true)
    (hq : q ∈ (w.exec env i r (.reconcile hp (.update x total))).db.payments.rows)
    (hid : q.id = id) : FullyPaid id (w.exec env i r (.reconcile hp (.update x total))) q := by
  obtain ⟨htotal, hrow, hset, -⟩ := h.exec_update hc hx hp' hpid hw hq hid
  obtain ⟨db', -, hledger, hs⟩ := Reconcile.step_update_open env w.now r hp total hp'
    (hx.trans hpid.symm) hw
  have hs := Call.step_reconcile hs
  have hsum : (w.exec env i r (.reconcile hp (.update x total))).db.creditSum id =
      w.db.creditSum id := by
    simp only [World.exec, hs]
    exact Db.creditSum_congr hledger
  have hexp : expectedStroops q = expectedStroops p := by rw [hrow]; rfl
  refine ⟨by rw [hsum, hrow, ← htotal]; rfl, fun hlt => .inr ?_⟩
  rw [hsum, hexp, ← htotal] at hlt ⊢
  refine ⟨hp, Reconcile.dispatchOf x total hp.hash, ?_, hx, ?_⟩
  · simp only [World.exec, hs]
    exact mem_set_self hc
  · rw [Reconcile.dispatchOf, hset, settlementOf_overpaid hlt]
    exact ⟨rfl, rfl⟩

theorem exec (h : InTurn id w) (hc : w.calls[i]? = some c)
    (hopen : CreditsWhileOpen id w (.exec i r))
    (hall : ∀ p ∈ w.db.payments.rows, p.id = id → p.status = .completed → FullyPaid id w p)
    (hq : q ∈ (w.exec env i r c).db.payments.rows) (hid : q.id = id)
    (hcomp : q.status = .completed) : FullyPaid id (w.exec env i r c) q := by
  have hwr : Writes env w.now r w.db c (c.step env w.now r w.db).db := c.step_writes
  rcases hwr.row_inv hq with ⟨p, hp, hstep⟩ | hnew
  · have hpid : p.id = id := hstep.id.symm.trans hid
    cases hstep with
    | same =>
      rcases Call.step_creditSum env w.now r w.db id c with hsum | ⟨hrec, -⟩
      · exact (hall q hp hid hcomp).exec_same hc hsum
      · exact absurd hcomp (hopen c hc hrec q hp hid)
    | settle call hx watchable =>
      subst call
      exact exec_update h hc (hx.symm.trans hpid) hp hpid watchable hq hid
    | expire call overdue selected => cases hcomp
  · rw [hnew.status] at hcomp
    cases hcomp

end FullyPaid

/-- What a run in turn keeps when credits come only while the intent is open. -/
structure Received (id : String) (w : World) : Prop where
  inTurn : InTurn id w
  completed : ∀ p ∈ w.db.payments.rows, p.id = id → p.status = .completed → FullyPaid id w p

theorem Unexpired.sweepsInTurn {env : Env} {id : String} {w : World} (h : Unexpired id w)
    (e : Event) : SweepsInTurn env id w e := by
  cases e with
  | exec i r =>
    intro _ hsel
    obtain ⟨p, hp, hpid⟩ : ∃ p ∈ w.db.payments.rows, p.id = id := by
      obtain ⟨q, hq, he⟩ := List.mem_map.mp hsel
      have hq' := List.mem_filter.mp ((List.mem_insertionSort _).mp (Db.mem_limit hq))
      exact ⟨q, hq'.1, he⟩
    have hover := Db.overdue_of_mem_expireIds hp (hpid ▸ hsel)
    simp only [Db.overdue, Bool.and_eq_true, decide_eq_true_eq] at hover
    exact absurd (h p hp hpid) (String.not_lt.mpr hover.2)
  | _ => trivial

namespace Received
variable {env : Env} {w t : World} {e : Event} {id : String}

theorem step (hf : Faultless id w e) (hcredit : CreditsInTurn id w e)
    (hopen : CreditsWhileOpen id w e) (hexp : Unexpired id w) (hs : World.step env w e = some t)
    (h : Received id w) : Received id t := by
  refine ⟨h.inTurn.step hf hcredit (hexp.sweepsInTurn e) hs, ?_⟩
  have hkeep : ∀ {u : World}, u.db = w.db → (∀ c ∈ w.calls, c ∈ u.calls) →
      u.dispatched = w.dispatched → ∀ p ∈ u.db.payments.rows, p.id = id → p.status = .completed →
        FullyPaid id u p := by
    intro u hdb hcalls hdis p hp hid hc
    rw [hdb] at hp
    have hfull := h.completed p hp hid hc
    refine ⟨hdb ▸ hfull.paid, ?_⟩
    rw [hdb, hdis]
    intro hlt
    exact (hfull.excess hlt).imp_right fun ⟨rec, d, hd, hx⟩ => ⟨rec, d, hcalls _ hd, hx⟩
  obtain ⟨hf, -⟩ := hf
  cases e with
  | advance secs =>
    cases hs
    exact hkeep rfl (fun _ h => h) rfl
  | reconcile hp =>
    cases hs
    exact hkeep rfl (fun _ h => List.mem_append_left _ h) rfl
  | sweep =>
    cases hs
    exact hkeep rfl (fun _ h => List.mem_append_left _ h) rfl
  | create req =>
    cases hs
    exact hkeep rfl (fun _ h => List.mem_append_left _ h) rfl
  | exec i r =>
    obtain ⟨c, hc, -, rfl⟩ := World.step_exec hs
    exact fun q hq hid hcomp => FullyPaid.exec h.inTurn hc hopen h.completed hq hid hcomp
  | fail i r => cases hf
  | kill i => cases hf
  | crash => cases hf

theorem init {now : ℤ} : Received id (.init now) :=
  ⟨InTurn.init, fun _ h => absurd h List.not_mem_nil⟩

end Received

section Paid
variable {env : Env} {w : World} {es : List Event} {now : ℤ} {id : String} {p : Payment}

theorem paidAmount_eq (hs : p.Sound w.db) {n : ℤ} (hn : 0 < n) (h : paidStroops p = n) :
    p.paidAmount = some (stroopsToString n) := by
  rcases hs.paid with hp | ⟨t, hpos, -, hmax, hp⟩
  · simp [paidStroops, hp] at h
    omega
  · simp only [paidStroops, hp, Option.bind_some, parseStroops_stroopsToString hpos hmax,
      Option.getD_some] at h
    rw [hp, h]

/-- In a run without expiry whose credits come in turn and while the intent is open, once
every call has returned `paid_amount` is the total of the ledger, and an excess over the
requested amount was announced. -/
theorem paidAmount_eq_creditSum (hr : World.Reaches env (.init now) es w)
    (hok : Along (World.step env) (fun w e => Faultless id w e ∧ CreditsInTurn id w e ∧
      CreditsWhileOpen id w e ∧ Unexpired id w) (.init now) es)
    (hquiet : w.quiet) (hp : p ∈ w.db.payments.rows) (hid : p.id = id)
    (hne : w.db.credits id ≠ []) :
    p.paidAmount = some (stroopsToString (w.db.creditSum id)) ∧
      ∃ expected, parseStroops p.amount = some expected ∧ (expected < w.db.creditSum id →
        ∃ d ∈ w.dispatched, d.payment.id = id ∧ d.event = .overpaid ∧
          d.delta = some (stroopsToString (w.db.creditSum id - expected))) := by
  have h : Received id w := hok.invariant
    (fun _ _ _ ho hs hi => hi.step ho.1 ho.2.1 ho.2.2.1 ho.2.2.2 hs) hr Received.init
  have hs := h.inTurn.sound.rows p hp
  obtain ⟨x, hx⟩ := List.exists_mem_of_ne_nil _ hne
  have hpos : 0 < w.db.creditSum id := h.inTurn.sound.backed.creditSum_pos hx
  have hshort : w.db.creditSum id < expectedStroops p ∧ paidStroops p = w.db.creditSum id →
      p.paidAmount = some (stroopsToString (w.db.creditSum id)) ∧
      ∃ expected, parseStroops p.amount = some expected ∧ (expected < w.db.creditSum id →
        ∃ d ∈ w.dispatched, d.payment.id = id ∧ d.event = .overpaid ∧
          d.delta = some (stroopsToString (w.db.creditSum id - expected))) := fun ⟨hlt, hpaid⟩ =>
    ⟨paidAmount_eq hs hpos hpaid, _, hs.priced, fun hgt => absurd hgt hlt.asymm⟩
  have hopen : p.status.watchable = true →
      w.db.creditSum id < expectedStroops p ∧ paidStroops p = w.db.creditSum id := fun hw =>
    (h.inTurn.opened p hp hid hw).resolve_right hquiet.not_busy
  cases hst : p.status with
  | pending => exact hshort (hopen (by rw [hst]; rfl))
  | underpaid => exact hshort (hopen (by rw [hst]; rfl))
  | expired => exact hshort (h.inTurn.expired p hp hid hst)
  | completed =>
    have hfull := h.completed p hp hid hst
    refine ⟨hfull.paid, _, hs.priced, fun hlt => (hfull.excess hlt).resolve_right ?_⟩
    rintro ⟨rec, d, hd, -⟩
    have := hquiet _ hd
    cases this

/-- Payments of 4 and 9 to an intent over 10, one call after the other up to
the first notification. -/
theorem paidAmount_eq_creditSum_sample :
    let es := Sample.create ++ [.reconcile (Sample.record "11" "4.0000000" "TXA" "1"),
      .reconcile (Sample.record "11" "9.0000000" "TXB" "2")] ++
      Sample.turns 20 [1, 2, 2, 1, 1, 1, 1, 2, 2, 2, 1, 2]
    ∃ w p, World.Reaches Sample.env (.init 0) es w ∧ w.quiet ∧ p ∈ w.db.payments.rows ∧
      w.db.credits "10" ≠ [] ∧ p.paidAmount = some (stroopsToString (w.db.creditSum "10")) ∧
      ∃ expected, parseStroops p.amount = some expected ∧ (expected < w.db.creditSum "10" →
        ∃ d ∈ w.dispatched, d.payment.id = "10" ∧ d.event = .overpaid ∧
          d.delta = some (stroopsToString (w.db.creditSum "10" - expected))) := by
  intro es
  obtain ⟨w, hw, hquiet, hne, p, hp, hid⟩ := exists_of_run (World.step Sample.env) (.init 0) es
    (P := fun w => w.quiet ∧ w.db.credits "10" ≠ [] ∧
      ∃ p ∈ w.db.payments.rows, p.id = "10") (by decide +kernel)
  exact ⟨w, p, hw, hquiet, hp, hne, paidAmount_eq_creditSum hw (by decide +kernel)
    hquiet hp hid hne⟩

/-- Payments of 4 and 3 to an intent over 10: the second call credits, re-sums and writes
between the re-sum and the write of the first, whose older total then overwrites it. -/
theorem paidAmount_lost_update :
    let es := Sample.create ++ [.reconcile (Sample.record "11" "4.0000000" "TXA" "1"),
      .reconcile (Sample.record "11" "3.0000000" "TXB" "2")] ++
      Sample.turns 20 [1, 1, 1, 1, 2, 2, 2, 2, 2, 2, 1, 1]
    ∃ w p, World.Reaches Sample.env (.init 0) es w ∧
      Along (World.step Sample.env) (fun w e => Faultless "10" w e ∧ Unexpired "10" w)
        (.init 0) es ∧
      w.quiet ∧ p ∈ w.db.payments.rows ∧ p.id = "10" ∧ w.db.creditSum "10" = 70000000 ∧
      p.paidAmount = some "4" ∧ p.paidAmount ≠ some (stroopsToString (w.db.creditSum "10")) := by
  intro es
  obtain ⟨w, hw, hquiet, p, hp, hx⟩ := exists_of_run (World.step Sample.env) (.init 0) es
    (P := fun w => w.quiet ∧ ∃ p ∈ w.db.payments.rows, p.id = "10" ∧
      w.db.creditSum "10" = 70000000 ∧ p.paidAmount = some "4" ∧
      p.paidAmount ≠ some (stroopsToString (w.db.creditSum "10"))) (by decide +kernel)
  exact ⟨w, p, hw, by decide, hquiet, hp, hx⟩

end Paid

section Expired
variable {env : Env} {w : World} {es : List Event} {now : ℤ} {id : String} {p : Payment}

/-- In a run whose credits and sweeps come in turn, an expired intent was credited less
than its amount, and its `paid_amount` shows all of it. -/
theorem expired_hides_nothing (hr : World.Reaches env (.init now) es w)
    (hok : Along (World.step env) (fun w e => Faultless id w e ∧ CreditsInTurn id w e ∧
      SweepsInTurn env id w e) (.init now) es)
    (hp : p ∈ w.db.payments.rows) (hid : p.id = id) (hx : p.status = .expired) :
    ∃ expected, parseStroops p.amount = some expected ∧ w.db.creditSum id < expected ∧
      w.db.creditSum id = paidStroops p := by
  have h : InTurn id w := hok.invariant (fun _ _ _ ho hs hi => hi.step ho.1 ho.2.1 ho.2.2 hs) hr
    InTurn.init
  obtain ⟨hlt, hpaid⟩ := h.expired p hp hid hx
  exact ⟨_, (h.sound.rows p hp).priced, hlt, hpaid.symm⟩

/-- An intent over 10 is paid 4, then expires. -/
theorem expired_hides_nothing_sample :
    let es := Sample.create ++ .reconcile (Sample.record "11" "4.0000000" "TXA" "1") ::
      Sample.turns 20 [1, 1, 1, 1, 1, 1] ++ .advance 7200 :: .sweep :: Sample.turns 40 [2, 2]
    ∃ w p, World.Reaches Sample.env (.init 0) es w ∧ p ∈ w.db.payments.rows ∧
      p.status = .expired ∧ ∃ expected, parseStroops p.amount = some expected ∧
      w.db.creditSum "10" < expected ∧ w.db.creditSum "10" = paidStroops p := by
  intro es
  obtain ⟨w, hw, p, hp, hid, hx⟩ := exists_of_run (World.step Sample.env) (.init 0) es
    (P := fun w => ∃ p ∈ w.db.payments.rows, p.id = "10" ∧ p.status = .expired)
    (by decide +kernel)
  exact ⟨w, p, hw, hp, hx, expired_hides_nothing hw (by decide +kernel) hp hid hx⟩

/-- A sweep between the look-up and the ledger insert of a call: the intent expires, and
the full amount is credited to it all the same. -/
theorem expired_hides_credit :
    let es := Sample.create ++ .reconcile (Sample.record "11" "10.0000000" "TXA" "1") ::
      Sample.turns 20 [1, 1] ++ .advance 7200 :: .sweep :: Sample.turns 40 [2, 2, 1, 1, 1]
    ∃ w p, World.Reaches Sample.env (.init 0) es w ∧ (∀ e ∈ es, e.faultless = true) ∧ w.quiet ∧
      p ∈ w.db.payments.rows ∧ p.status = .expired ∧ parseStroops p.amount = some 100000000 ∧
      w.db.creditSum p.id = 100000000 ∧ paidStroops p = 0 := by
  intro es
  obtain ⟨w, hw, hq, p, hp, hx⟩ := exists_of_run (World.step Sample.env) (.init 0) es
    (P := fun w => w.quiet ∧ ∃ p ∈ w.db.payments.rows, p.status = .expired ∧
      parseStroops p.amount = some 100000000 ∧ w.db.creditSum p.id = 100000000 ∧
      paidStroops p = 0) (by decide +kernel)
  exact ⟨w, p, hw, by decide, hq, hp, hx⟩

end Expired
end StellarGate
