import StellarGate.Settlement.Intent

/-! The settled status does not depend on scheduling: whatever the order, the
repetitions and the interleaving, the total of the records decides it. -/
namespace StellarGate
open Base

def statusFor (p : Payment) (total : ℤ) : PaymentStatus :=
  if total = 0 then .pending else if expectedStroops p ≤ total then .completed else .underpaid

/-- An intent nothing was credited to yet, with no call in flight. -/
structure Fresh (w : World) (p : Payment) : Prop where
  mem : p ∈ w.db.payments.rows
  pending : p.status = .pending
  uncredited : w.db.credits p.id = []
  quiet : w.quiet

/-- A step with no failing statement, before the intent expires, that starts calls only
on the records of `R` or on ones that do not pay the intent. -/
def Scheduled (p : Payment) (R : List HorizonPayment) (w : World) (e : Event) : Prop :=
  e.faultless = true ∧ strftime w.now < p.expiresAt ∧
    match e with
    | .reconcile hp => hp ∈ R ∨ ¬ Pays p hp
    | _ => True

instance (p : Payment) (R : List HorizonPayment) (w : World) : ∀ e, Decidable (Scheduled p R w e)
  | .reconcile hp => inferInstanceAs (Decidable (_ ∧ _ ∧ (hp ∈ R ∨ ¬ Pays p hp)))
  | .advance _ | .sweep | .create _ | .exec _ _ | .fail _ _ | .kill _ | .crash =>
    inferInstanceAs (Decidable (_ ∧ _ ∧ True))

/-- The row of the intent has the status of the ledger's total, or a call is about
to give it that status. -/
structure Paced (p : Payment) (w : World) (q : Payment) : Prop where
  mem : q ∈ w.db.payments.rows
  terms : q.terms = p.terms
  expiresAt : q.expiresAt = p.expiresAt
  unexpired : q.status ≠ .expired
  status : q.status = statusFor p (w.db.creditSum p.id) ∨
    w.Busy p.id fun total => statusFor p total = statusFor p (w.db.creditSum p.id)

/-- The invariant of a run on the records `R`. -/
structure OnSchedule (p : Payment) (R : List HorizonPayment) (w : World) : Prop where
  sound : w.Sound
  row : ∃ q, Paced p w q
  credited : ∀ r ∈ w.db.credits p.id, ∃ hp ∈ R, hp.hash = r.txHash ∧
    hp.stroops.getD 0 = r.amountStroops
  calls : ∀ hp pc, .reconcile hp pc ∈ w.calls →
    (Call.reconcile hp pc).returned = true ∨ hp ∈ R ∨ ¬ Pays p hp

def ReconcilePc.Early (p : Payment) : ReconcilePc → Prop
  | .find memo => memo = p.memo
  | .sumBefore payment => payment.terms = p.terms
  | .record payment _ => payment.terms = p.terms
  | _ => False

/-- The record was credited or is about to be, unless the intent is completed anyway. -/
def Pursued (p : Payment) (hp : HorizonPayment) (w : World) : Prop :=
  (∃ q ∈ w.db.payments.rows, q.id = p.id ∧ q.status = .completed) ∨
  (∃ r ∈ w.db.credits p.id, r.txHash = hp.hash) ∨
  ∃ pc, .reconcile hp pc ∈ w.calls ∧ pc.Early p

section Totals
variable {p : Payment} {total sum : ℤ}

theorem statusFor_of_pos (h : 0 < total) : statusFor p total = (settlementOf p total).status := by
  simp only [statusFor, settlementOf]
  split_ifs <;> first | rfl | omega

theorem statusFor_completed (h : 0 < total) (hle : expectedStroops p ≤ total) :
    statusFor p total = .completed := by
  rw [statusFor, if_neg h.ne', if_pos hle]

theorem statusFor_ne (hpos : 0 < total) (hle : total ≤ sum)
    (h : statusFor p total ≠ statusFor p sum) : statusFor p sum = .completed := by
  unfold statusFor at h ⊢
  split_ifs at h ⊢ <;> first | rfl | omega | exact absurd rfl h

end Totals

namespace OnSchedule
variable {env : Env} {p : Payment} {R : List HorizonPayment} {w t : World} {e : Event} {i : ℕ}
  {r : Reply} {c : Call}

theorem creditSum_le (h : OnSchedule p R w) (hpay : ∀ hp ∈ R, Pays p hp) :
    w.db.creditSum p.id ≤ totalOf R := by
  apply sum_le_of_keyed_subset (f := ProcessedTx.txHash) (g := HorizonPayment.hash)
    Db.credits_txHash_nodup
  · intro hp hin
    exact (hpay hp hin).stroops_pos.le
  · exact h.credited

theorem exec_idle (hc : w.calls[i]? = some c) {q : Payment}
    (hq : Paced p w q) (he : strftime w.now < p.expiresAt)
    (hb : ¬ c.Busy p.id fun _ => True) : Paced p (w.exec env i r c) q := by
  have hid : q.id = p.id := Payment.id_eq_of_terms hq.terms
  have hw : Writes env w.now r w.db c (c.step env w.now r w.db).db := c.step_writes
  refine ⟨hw.row_eq hq.mem (hid ▸ hb) (.inl (hq.expiresAt ▸ he)), hq.terms, hq.expiresAt,
    hq.unexpired, ?_⟩
  have hkeep : (w.exec env i r c).db.creditSum p.id = w.db.creditSum p.id →
      q.status = statusFor p ((w.exec env i r c).db.creditSum p.id) ∨
      (w.exec env i r c).Busy p.id fun total =>
        statusFor p total = statusFor p ((w.exec env i r c).db.creditSum p.id) := by
    intro hsum
    rw [hsum]
    rcases hq.status with hs | hs
    · exact .inl hs
    · exact .inr ((hs.exec hc).resolve_left fun h => hb (h.mono fun _ _ => trivial))
  rcases Call.step_creditSum env w.now r w.db p.id c with hsum | ⟨-, hbusy⟩
  · exact hkeep hsum
  · exact .inr ⟨_, mem_set_self hc, hbusy _⟩

theorem exec_sumAfter {hp : HorizonPayment} {x q : Payment}
    (hc : w.calls[i]? = some (.reconcile hp (.sumAfter x))) (hid : x.id = p.id)
    (hq : Paced p w q) (hmax : w.db.creditSum p.id ≤ i64Max) :
    Paced p (w.exec env i r (.reconcile hp (.sumAfter x))) q := by
  have hstep : Reconcile.step env w.now r hp (.sumAfter x) w.db =
      ⟨.update x (w.db.creditSum p.id), w.db, [], []⟩ := Reconcile.step_sumAfter hid hmax
  have hs := Call.step_reconcile hstep
  refine ⟨?_, hq.terms, hq.expiresAt, hq.unexpired, .inr (World.busy_of_sumAfter hc hid hmax ?_)⟩
  · simpa only [World.exec, hs] using hq.mem
  · simp only [World.exec, hs]

theorem exec_update_closed (h : OnSchedule p R w) {hp : HorizonPayment} {x q : Payment} {total : ℤ}
    (hid : x.id = p.id) (hq : Paced p w q) (hpos : 0 < w.db.creditSum p.id)
    (hw : q.status.watchable = false) :
    Paced p (w.exec env i r (.reconcile hp (.update x total))) q := by
  have hqid : q.id = p.id := Payment.id_eq_of_terms hq.terms
  have hs := Call.step_reconcile (Reconcile.step_update_closed env w.now r hp total hq.mem
    (hid.trans hqid.symm) hw)
  have hcomp : q.status = .completed := by
    have := hq.unexpired
    cases hst : q.status <;> simp_all [PaymentStatus.watchable]
  have hcov := (h.sound.rows q hq.mem).covered hcomp
  rw [expectedStroops_of_terms hq.terms, hqid] at hcov
  refine ⟨?_, hq.terms, hq.expiresAt, hq.unexpired, .inl ?_⟩
  · simpa only [World.exec, hs] using hq.mem
  · simpa only [World.exec, hs, hcomp] using (statusFor_completed hpos hcov).symm

/-- An update with an outdated total either gives the right status all the same, or it
leaves that to the call with the newer total. -/
theorem exec_update_open {hp : HorizonPayment} {x q : Payment} {total : ℤ}
    (hc : w.calls[i]? = some (.reconcile hp (.update x total))) (hx : x.terms = p.terms)
    (hq : Paced p w q) (hpos : 0 < total) (hle : total ≤ w.db.creditSum p.id)
    (hw : q.status.watchable = true) :
    ∃ q', Paced p (w.exec env i r (.reconcile hp (.update x total))) q' := by
  have hqid : q.id = p.id := Payment.id_eq_of_terms hq.terms
  have hid : x.id = p.id := Payment.id_eq_of_terms hx
  obtain ⟨db', hrow, hledger, hs⟩ := Reconcile.step_update_open env w.now r hp total hq.mem
    (hid.trans hqid.symm) hw
  have hdb : (w.exec env i r (.reconcile hp (.update x total))).db = db' := by
    simp only [World.exec, Call.step_reconcile hs]
  have hsum : db'.creditSum p.id = w.db.creditSum p.id := Db.creditSum_congr hledger
  have hst : (settlementOf x total).status = statusFor p total := by
    rw [statusFor_of_pos hpos]
    simp only [settlementOf, expectedStroops_of_terms hx]
  refine ⟨Db.settleRow w.now (settlementOf x total).status hp.hash (stroopsToString total) q,
    hdb ▸ hrow, hq.terms, hq.expiresAt, ?_, ?_⟩
  · simp only [Db.settleRow, settlementOf]
    split_ifs <;> simp
  · rw [hdb, hsum]
    by_cases heq : statusFor p total = statusFor p (w.db.creditSum p.id)
    · exact .inl (hst.trans heq)
    · right
      have hcomp := statusFor_ne hpos hle heq
      have hbusy := hq.status.resolve_left fun hsame => by
        rw [hsame, hcomp] at hw
        cases hw
      exact (hbusy.exec hc).resolve_left fun hme => heq hme.2

theorem exec_row (h : OnSchedule p R w) (hc : w.calls[i]? = some c)
    (he : strftime w.now < p.expiresAt) (hmax : w.db.creditSum p.id ≤ i64Max) :
    ∃ q, Paced p (w.exec env i r c) q := by
  obtain ⟨q, hq⟩ := h.row
  have hqid : q.id = p.id := Payment.id_eq_of_terms hq.terms
  have hcs := h.sound.calls c (List.mem_of_getElem? hc)
  by_cases hb : c.Busy p.id fun _ => True
  · rcases hb.cases with ⟨hp, x, rfl, hid⟩ | ⟨hp, x, total, rfl, hid, -⟩
    · exact ⟨q, exec_sumAfter hc hid hq hmax⟩
    · obtain ⟨-, hk, -, hpos, hle, -⟩ := hcs
      have hx := (hk.eq_of_id hq.mem (hqid.trans hid.symm)).symm.trans hq.terms
      rw [hid] at hle
      cases hw : q.status.watchable with
      | false => exact ⟨q, h.exec_update_closed hid hq (hpos.trans_le hle) hw⟩
      | true => exact exec_update_open hc hx hq hpos hle hw
  · exact ⟨q, exec_idle hc hq he hb⟩

theorem exec_credited (h : OnSchedule p R w) (hc : w.calls[i]? = some c) :
    ∀ r' ∈ (w.exec env i r c).db.credits p.id, ∃ hp ∈ R, hp.hash = r'.txHash ∧
      hp.stroops.getD 0 = r'.amountStroops := by
  intro r' hr'
  have hmem := List.mem_of_getElem? hc
  have hw : Writes env w.now r w.db c (c.step env w.now r w.db).db := c.step_writes
  obtain ⟨q, hq⟩ := h.row
  rcases hw.ledger with hl | ⟨hp, x, n, rfl, hrec⟩
  · apply h.credited
    simpa only [World.exec, Db.credits, hl] using hr'
  · obtain ⟨-, hk, hm, hn⟩ := h.sound.calls _ hmem
    obtain ⟨t, ht, hrows, -⟩ := Db.recordProcessedTx_true hrec
    simp only [World.exec, ht, Db.mem_credits, hrows, List.mem_append, List.mem_singleton] at hr'
    obtain ⟨hr' | rfl, hid⟩ := hr'
    · exact h.credited r' (Db.mem_credits.mpr ⟨hr', hid⟩)
    · have hqx := hk.eq_of_id hq.mem ((Payment.id_eq_of_terms hq.terms).trans hid.symm)
      have hpays : Pays p hp := ⟨hm.of_terms (hqx.symm.trans hq.terms), by simp [hn]⟩
      rcases h.calls hp _ hmem with hret | hin | hno
      · cases hret
      · exact ⟨hp, hin, rfl, by simp [hn]⟩
      · exact absurd hpays hno

theorem exec (h : OnSchedule p R w) (hpay : ∀ hp ∈ R, Pays p hp) (hmax : totalOf R ≤ i64Max)
    (hc : w.calls[i]? = some c) (he : strftime w.now < p.expiresAt) :
    OnSchedule p R (w.exec env i r c) := by
  refine ⟨h.sound.exec hc, h.exec_row hc he ((h.creditSum_le hpay).trans hmax),
    h.exec_credited hc, fun hp pc hd => ?_⟩
  rcases List.mem_or_eq_of_mem_set hd with hd | hd
  · exact h.calls hp pc hd
  · cases c with
    | reconcile hp' pc' =>
      have hsame : hp = hp' := (Call.reconcile.inj hd).1
      subst hsame
      rcases h.calls hp pc' (List.mem_of_getElem? hc) with hret | hin
      · rw [Call.step_returned hret] at hd
        exact .inl (hd ▸ hret)
      · exact .inr hin
    | sweep pc' => cases hd
    | create req pc' => cases hd
    | lost => cases hd

theorem start (h : OnSchedule p R w) {handed : List HorizonPayment}
    (hh : ∀ hp ∈ w.handed, hp ∈ handed) (hc : c.Sound w.db handed)
    (hcall : ∀ hp pc, c = .reconcile hp pc → hp ∈ R ∨ ¬ Pays p hp) :
    OnSchedule p R { w.start c with handed } := by
  obtain ⟨q, hq⟩ := h.row
  refine ⟨h.sound.start hh hc, ⟨q, hq.mem, hq.terms, hq.expiresAt, hq.unexpired, ?_⟩,
    h.credited, ?_⟩
  · exact hq.status.imp_right fun hb => hb.start
  · intro hp pc hd
    rcases List.mem_append.mp hd with hd | hd
    · exact h.calls hp pc hd
    · exact .inr (hcall hp pc (List.mem_singleton.mp hd).symm)

theorem step (hpay : ∀ hp ∈ R, Pays p hp) (hmax : totalOf R ≤ i64Max)
    (hok : Scheduled p R w e) (hs : World.step env w e = some t) (h : OnSchedule p R w) :
    OnSchedule p R t := by
  obtain ⟨hf, he, hrec⟩ := hok
  cases e with
  | advance secs =>
    cases hs
    obtain ⟨q, hq⟩ := h.row
    exact ⟨h.sound.step (show World.step env w (.advance secs) = some _ from rfl),
      ⟨q, hq.mem, hq.terms, hq.expiresAt, hq.unexpired, hq.status⟩, h.credited, h.calls⟩
  | reconcile hp =>
    cases hs
    refine h.start (fun _ h => List.mem_cons_of_mem _ h) ⟨List.mem_cons_self, ?_⟩ ?_
    · unfold Reconcile.start
      split <;> trivial
    · rintro hp' pc h
      obtain ⟨rfl, -⟩ := Call.reconcile.inj h
      exact hrec
  | sweep =>
    cases hs
    exact h.start (fun _ h => h) trivial fun hp pc h => by cases h
  | create req =>
    cases hs
    exact h.start (fun _ h => h) trivial fun hp pc h => by cases h
  | exec i r =>
    obtain ⟨c, hc, -, rfl⟩ := World.step_exec hs
    exact h.exec hpay hmax hc he
  | fail i r => cases hf
  | kill i => cases hf
  | crash => cases hf

theorem exec_early (h : OnSchedule p R w) {hp : HorizonPayment} {pc : ReconcilePc}
    (hpays : Pays p hp) (hmax : w.db.creditSum p.id ≤ i64Max) (he : strftime w.now < p.expiresAt)
    (hc : w.calls[i]? = some (.reconcile hp pc))
    (hpc : pc.Early p) :
    Pursued p hp (w.exec env i r (.reconcile hp pc)) := by
  obtain ⟨q, hq⟩ := h.row
  have hnext : ∀ pc', Reconcile.step env w.now r hp pc w.db = ⟨pc', w.db, [], []⟩ → pc'.Early p →
      Pursued p hp (w.exec env i r (.reconcile hp pc)) := by
    intro pc' hs hearly
    refine .inr (.inr ⟨pc', ?_, hearly⟩)
    simp only [World.exec, Call.step_reconcile hs]
    exact mem_set_self hc
  cases pc with
  | find memo =>
    have hmemo : memo = q.memo := hpc.trans (Payment.memo_eq_of_terms hq.terms).symm
    subst hmemo
    cases hw : q.status.watchable with
    | false =>
      refine .inl ⟨q, (Call.step_writes _).row_closed hq.mem hw, Payment.id_eq_of_terms hq.terms,
        ?_⟩
      have := hq.unexpired
      cases hst : q.status <;> simp_all [PaymentStatus.watchable]
    | true => exact hnext _ (Reconcile.step_find hq.mem hw (hq.expiresAt ▸ he)) hq.terms
  | sumBefore x =>
    have hterms : x.terms = p.terms := hpc
    have hprice := (h.sound.rows q hq.mem).parses (hterms.trans hq.terms.symm)
    exact hnext _ (Reconcile.step_sumBefore (Payment.id_eq_of_terms hterms) hmax
      ⟨hpays.1.of_terms hterms.symm, hpays.2⟩ hprice) hterms
  | record x n =>
    have hid : x.id = p.id := Payment.id_eq_of_terms hpc
    exact .inr (.inl (hid ▸ Reconcile.credits_of_record env w.now r w.db hp x n))
  | _ => exact hpc.elim

theorem pursue (hpay : ∀ hp ∈ R, Pays p hp) (hmax : totalOf R ≤ i64Max) {hp : HorizonPayment}
    (hin : hp ∈ R) (hok : Scheduled p R w e) (hs : World.step env w e = some t)
    (h : OnSchedule p R w) (ht : Pursued p hp w) : Pursued p hp t := by
  have hkeep : ∀ {t : World}, t.db = w.db → (∀ c ∈ w.calls, c ∈ t.calls) → Pursued p hp t := by
    intro t hdb hcalls
    unfold Pursued
    rw [hdb]
    exact ht.imp_right (.imp_right fun ⟨pc, hm, hpc⟩ => ⟨pc, hcalls _ hm, hpc⟩)
  obtain ⟨hf, he, -⟩ := hok
  cases e with
  | advance secs =>
    cases hs
    exact hkeep rfl fun _ h => h
  | reconcile hp' =>
    cases hs
    exact hkeep rfl fun _ h => List.mem_append_left _ h
  | sweep =>
    cases hs
    exact hkeep rfl fun _ h => List.mem_append_left _ h
  | create req =>
    cases hs
    exact hkeep rfl fun _ h => List.mem_append_left _ h
  | exec i r =>
    obtain ⟨c, hc, -, rfl⟩ := World.step_exec hs
    have hw : Writes env w.now r w.db c (c.step env w.now r w.db).db := c.step_writes
    have hg := hw.grows (h.sound.calls c (List.mem_of_getElem? hc))
    rcases ht with ⟨q, hq, hid, hcomp⟩ | ⟨x, hx, hhash⟩ | ⟨pc, hm, hpc⟩
    · exact .inl ⟨q, hw.row_closed hq (by rw [hcomp]; rfl), hid, hcomp⟩
    · exact .inr (.inl ⟨x, hg.credits hx, hhash⟩)
    · rcases mem_set_of_mem (b := (c.step env w.now r w.db).next) hc hm with rfl | hm
      · exact h.exec_early (hpay hp hin) ((h.creditSum_le hpay).trans hmax) he hc hpc
      · exact .inr (.inr ⟨pc, hm, hpc⟩)
  | fail i r => cases hf
  | kill i => cases hf
  | crash => cases hf

end OnSchedule

section Final
variable {env : Env} {w w₀ : World} {es es₀ : List Event} {now : ℤ} {p : Payment}
  {R : List HorizonPayment}

theorem Fresh.onSchedule (h : World.Reaches env (.init now) es₀ w₀) (hf : Fresh w₀ p) :
    OnSchedule p R w₀ := by
  have hsum : w₀.db.creditSum p.id = 0 := by simp [Db.creditSum, hf.uncredited]
  refine ⟨World.Sound.init.reaches h, ⟨p, hf.mem, rfl, rfl, ?_, .inl ?_⟩, ?_, fun hp pc hd => ?_⟩
  · rw [hf.pending]
    simp
  · rw [hsum, hf.pending, statusFor, if_pos rfl]
  · simp [hf.uncredited]
  · exact .inl (hf.quiet _ hd)

/-- Every record of `R` has been pursued by the end of a run that covers it. -/
theorem OnSchedule.pursued (hpay : ∀ hp ∈ R, Pays p hp) (hmax : totalOf R ≤ i64Max)
    (hok : Along (World.step env) (Scheduled p R) w₀ es) (hr : World.Reaches env w₀ es w)
    (h : OnSchedule p R w₀) {hp : HorizonPayment} (hin : hp ∈ R) (hcover : .reconcile hp ∈ es) :
    Pursued p hp w := by
  refine hok.after (I := OnSchedule p R) (Q := Pursued p hp)
    (fun _ _ _ ho hs hi => hi.step hpay hmax ho hs) ?_
    (fun _ _ _ ho hs hi => hi.pursue hpay hmax hin ho hs) hcover hr h
  rintro s t - hs -
  cases hs
  refine .inr (.inr ⟨.find p.memo, ?_, rfl⟩)
  simp [World.start, Reconcile.start, (hpay hp hin).1.memo]

/-- Unless the intent was completed, the ledger holds the whole of `R`. -/
theorem totalOf_le_creditSum (hs : w.Sound) (hquiet : w.quiet) (hR : (R.map (·.hash)).Nodup)
    (hcredit : OnSchedule p R w) (hall : ∀ hp ∈ R, Pursued p hp w) {q : Payment}
    (hq : q ∈ w.db.payments.rows) (hid : q.id = p.id) (hn : q.status ≠ .completed) :
    totalOf R ≤ w.db.creditSum p.id := by
  apply sum_le_of_keyed_subset (f := HorizonPayment.hash) (g := ProcessedTx.txHash) hR
  · intro r hr
    exact (hs.backed.pos (Db.mem_credits.mp hr).1).le
  · intro hp hin
    rcases hall hp hin with ⟨q', hq', hid', hc⟩ | ⟨r, hr, hhash⟩ | ⟨pc, hm, hpc⟩
    · cases Db.eq_of_id hq hq' (hid.trans hid'.symm)
      exact absurd hc hn
    · obtain ⟨hp', hin', hhash', hamount⟩ := hcredit.credited r hr
      cases List.inj_on_of_nodup_map hR hin' hin (hhash'.trans hhash)
      exact ⟨r, hr, hhash, hamount.symm⟩
    · have hret := hquiet _ hm
      cases pc <;> first | exact hpc.elim | cases hret

/-- Once every call has returned, the total of the records decides the status. -/
theorem settled_status (h₀ : World.Reaches env (.init now) es₀ w₀) (hf : Fresh w₀ p)
    (hR : (R.map (·.hash)).Nodup) (hpay : ∀ hp ∈ R, Pays p hp) (hmax : totalOf R ≤ i64Max)
    (hcover : ∀ hp ∈ R, .reconcile hp ∈ es) (hok : Along (World.step env) (Scheduled p R) w₀ es)
    (hr : World.Reaches env w₀ es w) (hquiet : w.quiet) :
    ∃ q ∈ w.db.payments.rows, q.id = p.id ∧ ∃ expected, parseStroops p.amount = some expected ∧
      (q.status = .completed ↔ expected ≤ totalOf R) ∧
      (R ≠ [] → totalOf R < expected → q.status = .underpaid) := by
  have hstart : OnSchedule p R w₀ := hf.onSchedule h₀
  have hend : OnSchedule p R w :=
    hok.invariant (fun _ _ _ ho hs hi => hi.step hpay hmax ho hs) hr hstart
  obtain ⟨q, hq⟩ := hend.row
  have hid : q.id = p.id := Payment.id_eq_of_terms hq.terms
  have hst := hq.status.resolve_right hquiet.not_busy
  have hle := hend.creditSum_le hpay
  have hprice := (hend.sound.rows q hq.mem).priced
  rw [Payment.amount_eq_of_terms hq.terms, expectedStroops_of_terms hq.terms] at hprice
  refine ⟨q, hq.mem, hid, _, hprice, ?_⟩
  by_cases hc : q.status = .completed
  · have hcov := (hend.sound.rows q hq.mem).covered hc
    rw [expectedStroops_of_terms hq.terms, hid] at hcov
    exact ⟨iff_of_true hc (hcov.trans hle), fun _ hlt => absurd (hcov.trans hle) (not_le.mpr hlt)⟩
  · have heq : w.db.creditSum p.id = totalOf R := le_antisymm hle
      (totalOf_le_creditSum hend.sound hquiet hR hend
        (fun hp hin => hstart.pursued hpay hmax hok hr hin (hcover hp hin)) hq.mem hid hc)
    rw [heq] at hst
    have hpos : ∀ hp ∈ R, 0 < hp.stroops.getD 0 := fun hp hin => (hpay hp hin).stroops_pos
    have htotal : R ≠ [] → 0 < totalOf R := fun hne =>
      List.sum_pos _ (by simpa using hpos) (by simpa using hne)
    refine ⟨iff_of_false hc fun hge => hc ?_, fun hne hlt => ?_⟩
    · exact hst.trans (statusFor_completed ((parseStroops_bounds hprice).1.trans_le hge) hge)
    · rw [hst, statusFor, if_neg (htotal hne).ne', if_neg (not_le.mpr hlt)]

/-- Two payments of 4 and 6 to an intent over 10, interleaved. -/
theorem settled_status_sample :
    let R := [Sample.record "11" "4.0000000" "TXA" "1", Sample.record "11" "6.0000000" "TXB" "2"]
    let es := R.map .reconcile ++ Sample.turns 20 [1, 2, 1, 2, 1, 2, 1, 2, 2, 1, 2, 1]
    ∃ w₀ p w, World.Reaches Sample.env (.init 0) Sample.create w₀ ∧ Fresh w₀ p ∧
      World.Reaches Sample.env w₀ es w ∧ w.quiet ∧ ∃ q ∈ w.db.payments.rows, q.id = p.id ∧
      ∃ expected, parseStroops p.amount = some expected ∧
      (q.status = .completed ↔ expected ≤ totalOf R) ∧
      (R ≠ [] → totalOf R < expected → q.status = .underpaid) := by
  intro R es
  obtain ⟨w₀, h₀, p, hp, hpend, hcred, hquiet₀, hpays, hok, hrun⟩ := exists_of_run
    (World.step Sample.env) (.init 0) Sample.create
    (P := fun w₀ => ∃ p ∈ w₀.db.payments.rows, p.status = .pending ∧ w₀.db.credits p.id = [] ∧
      w₀.quiet ∧ (∀ hp ∈ R, Pays p hp) ∧ Along (World.step Sample.env) (Scheduled p R) w₀ es ∧
      (run (World.step Sample.env) w₀ es).any (fun w => decide w.quiet) = true) (by decide +kernel)
  obtain ⟨w, hw, hquiet⟩ := exists_of_run _ _ _ hrun
  have hf : Fresh w₀ p := ⟨hp, hpend, hcred, hquiet₀⟩
  exact ⟨w₀, p, w, h₀, hf, hw, hquiet, settled_status h₀ hf (by decide) hpays (by decide)
    (fun hp hin => List.mem_append_left _ (List.mem_map.mpr ⟨hp, hin, rfl⟩)) hok hw hquiet⟩

end Final
end StellarGate
