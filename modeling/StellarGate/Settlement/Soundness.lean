import StellarGate.Frame

/-! Settlement soundness: whatever is credited was received, and an intent is completed
only when its credits cover the requested amount. -/
namespace StellarGate
open Base

def Known (db : Db) (p : Payment) : Prop := ∃ q ∈ db.payments.rows, q.terms = p.terms

/-- What a call of `reconcile_payment` knows when it stands at `pc`. -/
def ReconcilePc.Sound (db : Db) (hp : HorizonPayment) : ReconcilePc → Prop
  | .sumBefore p => Known db p
  | .record p n => Known db p ∧ Matches p hp ∧ hp.stroops = some n
  | .sumAfter p => Known db p ∧ ∃ r ∈ db.credits p.id, r.txHash = hp.hash
  | .update p total =>
    Known db p ∧ (∃ r ∈ db.credits p.id, r.txHash = hp.hash) ∧
      0 < total ∧ total ≤ db.creditSum p.id ∧ total ≤ i64Max
  | _ => True

def Call.Sound (db : Db) (handed : List HorizonPayment) : Call → Prop
  | .reconcile hp pc => hp ∈ handed ∧ pc.Sound db hp
  | _ => True

/-- Every credit of the ledger was received: a record that matches the intent was handed
to `reconcile_payment`. -/
def Backed (db : Db) (handed : List HorizonPayment) : Prop :=
  ∀ r ∈ db.processedTransactions.rows, ∃ p ∈ db.payments.rows, p.id = r.paymentId ∧
    ∃ hp ∈ handed, Matches p hp ∧ hp.hash = r.txHash ∧ hp.stroops = some r.amountStroops

/-- A row of `payments` in keeping with the ledger. -/
structure Payment.Sound (db : Db) (p : Payment) : Prop where
  priced : parseStroops p.amount = some (expectedStroops p)
  covered : p.status = .completed → expectedStroops p ≤ db.creditSum p.id
  paid : p.paidAmount = none ∨
    ∃ t, 0 < t ∧ t ≤ db.creditSum p.id ∧ t ≤ i64Max ∧ p.paidAmount = some (stroopsToString t)

theorem Payment.Sound.parses {db : Db} {p q : Payment} (h : p.Sound db) (ht : q.terms = p.terms) :
    (parseStroops q.amount).isSome := by
  rw [Payment.amount_eq_of_terms ht, h.priced]
  rfl

structure World.Sound (w : World) : Prop where
  backed : Backed w.db w.handed
  rows : ∀ p ∈ w.db.payments.rows, p.Sound w.db
  calls : ∀ c ∈ w.calls, c.Sound w.db w.handed

/-- Everything recorded in `db` is still recorded in `db'`. -/
structure Grows (db db' : Db) : Prop where
  terms : ∀ p ∈ db.payments.rows, ∃ q ∈ db'.payments.rows, q.terms = p.terms
  ledger : ∀ r ∈ db.processedTransactions.rows, r ∈ db'.processedTransactions.rows
  creditSum : ∀ id, db.creditSum id ≤ db'.creditSum id

theorem expectedStroops_of_terms {p q : Payment} (h : p.terms = q.terms) :
    expectedStroops p = expectedStroops q := by
  rw [expectedStroops, expectedStroops, Payment.amount_eq_of_terms h]

section Ledger
variable {db db' : Db} {handed handed' : List HorizonPayment} {id : String} {p : Payment}

theorem Backed.pos (hb : Backed db handed) {r : ProcessedTx}
    (hr : r ∈ db.processedTransactions.rows) : 0 < r.amountStroops := by
  obtain ⟨p, -, -, hp, -, -, -, hn⟩ := hb r hr
  exact HorizonPayment.stroops_pos hn

theorem Backed.creditSum_nonneg (hb : Backed db handed) (id : String) : 0 ≤ db.creditSum id := by
  apply List.sum_nonneg
  intro n hn
  obtain ⟨r, hr, rfl⟩ := List.mem_map.mp hn
  exact (hb.pos (Db.mem_credits.mp hr).1).le

theorem Backed.creditSum_pos (hb : Backed db handed) {r : ProcessedTx} (hr : r ∈ db.credits id) :
    0 < db.creditSum id := by
  have hle : r.amountStroops ≤ db.creditSum id := by
    apply List.single_le_sum
    · intro n hn
      obtain ⟨s, hs, rfl⟩ := List.mem_map.mp hn
      exact (hb.pos (Db.mem_credits.mp hs).1).le
    · exact List.mem_map.mpr ⟨r, hr, rfl⟩
  exact (hb.pos (Db.mem_credits.mp hr).1).trans_le hle

theorem Known.mono (hg : Grows db db') (h : Known db p) : Known db' p := by
  obtain ⟨q, hq, ht⟩ := h
  obtain ⟨q', hq', ht'⟩ := hg.terms q hq
  exact ⟨q', hq', ht'.trans ht⟩

theorem Known.eq_of_id (h : Known db p) {q : Payment} (hq : q ∈ db.payments.rows)
    (hid : q.id = p.id) : q.terms = p.terms := by
  obtain ⟨q', hq', ht⟩ := h
  rw [Db.eq_of_id hq hq' (hid.trans (Payment.id_eq_of_terms ht).symm)]
  exact ht

theorem Grows.credits (hg : Grows db db') {r : ProcessedTx} (h : r ∈ db.credits id) :
    r ∈ db'.credits id :=
  Db.mem_credits.mpr ⟨hg.ledger r (Db.mem_credits.mp h).1, (Db.mem_credits.mp h).2⟩

theorem Call.Sound.mono (hg : Grows db db') (hh : ∀ hp ∈ handed, hp ∈ handed') {c : Call}
    (h : c.Sound db handed) : c.Sound db' handed' := by
  cases c with
  | reconcile hp pc =>
    refine ⟨hh hp h.1, ?_⟩
    have hs := h.2
    cases pc with
    | sumBefore p => exact Known.mono hg hs
    | record p n => exact ⟨Known.mono hg hs.1, hs.2⟩
    | sumAfter p =>
      obtain ⟨hk, r, hr, he⟩ := hs
      exact ⟨hk.mono hg, r, hg.credits hr, he⟩
    | update p total =>
      obtain ⟨hk, ⟨r, hr, he⟩, hpos, hle, hmax⟩ := hs
      exact ⟨hk.mono hg, ⟨r, hg.credits hr, he⟩, hpos, hle.trans (hg.creditSum p.id), hmax⟩
    | _ => trivial
  | _ => trivial

theorem Db.creditSum_record {now n : ℤ} {txHash : String}
    (h : db.recordProcessedTx now id txHash n = (true, db')) (id' : String) :
    db'.creditSum id' = db.creditSum id' + if id = id' then n else 0 := by
  obtain ⟨t, rfl, hrows, -⟩ := Db.recordProcessedTx_true h
  simp only [Db.creditSum, Db.credits, hrows, List.filter_append, List.map_append, List.sum_append]
  split_ifs with he <;> simp [he]

/-- No transaction is credited to an intent twice. -/
theorem Db.credits_txHash_nodup : ((db.credits id).map (·.txHash)).Nodup := by
  have hkeys : ((db.credits id).map ProcessedTx.key).Nodup :=
    (db.processedTransactions.unique _ (by simp)).sublist (List.filter_sublist.map _)
  have hpair : (db.credits id).map ProcessedTx.key =
      ((db.credits id).map (·.txHash)).map fun txHash => (id, txHash) := by
    rw [List.map_map]
    exact List.map_congr_left fun r hr => by simp [ProcessedTx.key, (Db.mem_credits.mp hr).2]
  rw [hpair] at hkeys
  exact hkeys.of_map

theorem Db.creditSum_congr (h : db'.processedTransactions = db.processedTransactions) :
    db'.creditSum id = db.creditSum id := by
  simp only [Db.creditSum, Db.credits, h]

end Ledger

section Step
variable {env : Env} {now : ℤ} {r : Reply} {db db' : Db} {handed : List HorizonPayment} {c : Call}

theorem Writes.grows (h : Writes env now r db c db') (hc : c.Sound db handed) : Grows db db' := by
  have hterms : ∀ p ∈ db.payments.rows, ∃ q ∈ db'.payments.rows, q.terms = p.terms := by
    intro p hp
    obtain ⟨q, hq, hs⟩ := h.row hp
    exact ⟨q, hq, hs.terms⟩
  rcases h.ledger with hl | ⟨hp, payment, n, rfl, hr⟩
  · exact ⟨hterms, fun r hr => hl ▸ hr, fun id => (Db.creditSum_congr hl).ge⟩
  · have hn := HorizonPayment.stroops_pos hc.2.2.2
    obtain ⟨t, ht, hrows, -⟩ := Db.recordProcessedTx_true hr
    refine ⟨hterms, fun r hr => ?_, fun id => ?_⟩
    · rw [ht]
      simp [hrows, hr]
    · rw [Db.creditSum_record hr]
      split_ifs <;> omega

theorem Writes.backed (h : Writes env now r db c db') (hc : c.Sound db handed)
    (hb : Backed db handed) : Backed db' handed := by
  have hg := h.grows hc
  have hold : ∀ r ∈ db.processedTransactions.rows, ∃ p ∈ db'.payments.rows,
      p.id = r.paymentId ∧
        ∃ hp ∈ handed, Matches p hp ∧ hp.hash = r.txHash ∧ hp.stroops = some r.amountStroops := by
    intro r hr
    obtain ⟨p, hp, hid, rec, hrec, hm, hx⟩ := hb r hr
    obtain ⟨q, hq, ht⟩ := hg.terms p hp
    exact ⟨q, hq, (Payment.id_eq_of_terms ht).trans hid, rec, hrec, hm.of_terms ht.symm, hx⟩
  intro r hr
  rcases h.ledger with hl | ⟨hp, payment, n, rfl, hrec⟩
  · exact hold r (hl ▸ hr)
  · obtain ⟨hin, hk, hm, hn⟩ := hc
    obtain ⟨t, ht, hrows, -⟩ := Db.recordProcessedTx_true hrec
    rw [ht] at hr
    simp only [hrows, List.mem_append, List.mem_singleton] at hr
    rcases hr with hr | rfl
    · exact hold r hr
    · obtain ⟨q, hq, hqt⟩ := hk.mono hg
      exact ⟨q, hq, Payment.id_eq_of_terms hqt, hp, hin, hm.of_terms hqt.symm, rfl, hn⟩

/-- An intent is completed only for a total that reaches the expected amount. -/
theorem settlementOf_completed {payment : Payment} {total : ℤ}
    (h : (settlementOf payment total).status = .completed) : expectedStroops payment ≤ total := by
  simp only [settlementOf] at h
  split_ifs at h <;> omega

theorem settlementOf_paidAmount (payment : Payment) (total : ℤ) :
    (settlementOf payment total).paidAmount = stroopsToString total := by
  simp only [settlementOf]
  split_ifs <;> rfl

variable (db') in
theorem RowNew.sound {q : Payment} (h : RowNew db c q) : q.Sound db' := by
  obtain ⟨n, hpos, hmax, ha⟩ := h.priced
  have hn : parseStroops q.amount = some n := by
    rw [ha]
    exact parseStroops_stroopsToString hpos hmax
  refine ⟨?_, fun hs => ?_, .inl h.paidAmount⟩
  · simp [expectedStroops, hn]
  · rw [h.status] at hs
    cases hs

theorem RowStep.sound {p q : Payment} (h : RowStep env now r db c p q) (hg : Grows db db')
    (hc : c.Sound db handed) (hp : p ∈ db.payments.rows) (hs : p.Sound db) : q.Sound db' := by
  have hpaid : p.paidAmount = none ∨ ∃ t, 0 < t ∧ t ≤ db'.creditSum p.id ∧ t ≤ i64Max ∧
      p.paidAmount = some (stroopsToString t) := by
    rcases hs.paid with h | ⟨t, hpos, hle, hmax, ht⟩
    · exact .inl h
    · exact .inr ⟨t, hpos, hle.trans (hg.creditSum p.id), hmax, ht⟩
  cases h with
  | same => exact ⟨hs.priced, fun h => (hs.covered h).trans (hg.creditSum p.id), hpaid⟩
  | settle call id watchable =>
    subst call
    obtain ⟨-, hk, -, hpos, hle, hmax⟩ := hc
    have hle' := hle.trans (hg.creditSum _)
    rw [← id] at hle'
    refine ⟨hs.priced, fun hst => ?_, .inr ⟨_, hpos, hle', hmax, ?_⟩⟩
    · have he : expectedStroops p = _ := expectedStroops_of_terms (hk.eq_of_id hp id)
      exact (he.le.trans (settlementOf_completed hst)).trans hle'
    · exact congrArg some (settlementOf_paidAmount _ _)
  | expire call overdue selected => exact ⟨hs.priced, fun h => (by cases h), hpaid⟩

theorem Reconcile.step_sound {hp : HorizonPayment} {pc : ReconcilePc} (hb : Backed db handed)
    (h : pc.Sound db hp) :
    (Reconcile.step env now r hp pc db).next.Sound (Reconcile.step env now r hp pc db).db hp := by
  cases pc with
  | find memo =>
    simp only [Reconcile.step]
    split
    · trivial
    · next p hf =>
      obtain ⟨q, hq, rfl, -⟩ := Db.findPendingByMemo_eq_some hf
      exact ⟨q, hq, rfl⟩
  | sumBefore p =>
    simp only [Reconcile.step]
    split
    · trivial
    · next already _ =>
      split_ifs with hv
      · trivial
      · have hv : (verify p hp already).isSome := by simpa [Option.isSome_iff_ne_none] using hv
        obtain ⟨hm, hn, -⟩ := verify_isSome_iff.mp hv
        obtain ⟨n, hn⟩ := Option.isSome_iff_exists.mp hn
        exact ⟨h, hm, by simp [hn]⟩
  | record p n =>
    simp only [Reconcile.step]
    split
    · trivial
    · next db' hr =>
      obtain ⟨t, rfl, hrows, -⟩ := Db.recordProcessedTx_true hr
      exact ⟨h.1, ⟨p.id, hp.hash, n, strftime now⟩, by simp [Db.mem_credits, hrows], rfl⟩
  | sumAfter p =>
    simp only [Reconcile.step]
    split
    · trivial
    · next total ht =>
      obtain ⟨rfl, hmax⟩ := Db.sumProcessedStroops_eq_some ht
      obtain ⟨hk, x, hx, he⟩ := h
      exact ⟨hk, ⟨x, hx, he⟩, hb.creditSum_pos hx, le_rfl, hmax⟩
  | update p total =>
    simp only [Reconcile.step]
    split <;> trivial
  | notify d pc =>
    simp only [Reconcile.step, notifyNext]
    split <;> trivial
  | done result => trivial

theorem Call.step_sound (hb : Backed db handed) (h : c.Sound db handed) :
    (c.step env now r db).next.Sound (c.step env now r db).db handed := by
  cases c with
  | reconcile hp pc => exact ⟨h.1, Reconcile.step_sound hb h.2⟩
  | _ => trivial

theorem Call.fail_sound (h : c.Sound db handed) : (c.fail r).1.Sound db handed := by
  cases c with
  | reconcile hp pc =>
    refine ⟨h.1, ?_⟩
    cases pc with
    | notify d pc =>
      simp only [Reconcile.fail, Reconcile.notifyNext]
      split <;> trivial
    | _ => trivial
  | _ => trivial

theorem Call.cut_sound (h : c.Sound db handed) : c.cut.Sound db handed := by
  unfold Call.cut
  split_ifs
  · exact h
  · trivial

end Step

namespace World
variable {env : Env} {w t : World} {e : Event} {es : List Event} {now : ℤ}

theorem Sound.init : (init now).Sound :=
  ⟨fun _ h => absurd h List.not_mem_nil, fun _ h => absurd h List.not_mem_nil,
    fun _ h => absurd h List.not_mem_nil⟩

theorem Grows.refl (db : Db) : Grows db db :=
  ⟨fun p hp => ⟨p, hp, rfl⟩, fun _ hr => hr, fun _ => le_rfl⟩

theorem step_grows (hs : step env w e = some t) (h : w.Sound) : Grows w.db t.db := by
  rcases step_db hs with hdb | ⟨i, r, c, -, hc, rfl⟩
  · rw [hdb]
    exact Grows.refl _
  · exact Writes.grows (c.step_writes) (h.calls c (List.mem_of_getElem? hc))

theorem Sound.exec {i : ℕ} {r : Reply} {c : Call} (hs : w.Sound) (hc : w.calls[i]? = some c) :
    (w.exec env i r c).Sound := by
  have hcs := hs.calls c (List.mem_of_getElem? hc)
  have hw : Writes env w.now r w.db c (c.step env w.now r w.db).db := c.step_writes
  have hg := hw.grows hcs
  refine ⟨hw.backed hcs hs.backed, fun q hq => ?_, fun d hd => ?_⟩
  · rcases hw.row_inv hq with ⟨p, hp, hstep⟩ | hnew
    · exact hstep.sound hg hcs hp (hs.rows p hp)
    · exact hnew.sound _
  · rcases List.mem_or_eq_of_mem_set hd with hd | rfl
    · exact (hs.calls d hd).mono hg fun _ h => h
    · exact Call.step_sound hs.backed hcs

theorem Sound.start {c : Call} {handed : List HorizonPayment} (hs : w.Sound)
    (hh : ∀ hp ∈ w.handed, hp ∈ handed) (hc : c.Sound w.db handed) :
    World.Sound { w.start c with handed } := by
  refine ⟨fun r hr => ?_, hs.rows, fun d hd => ?_⟩
  · obtain ⟨p, hp, hid, rec, hrec, hx⟩ := hs.backed r hr
    exact ⟨p, hp, hid, rec, hh rec hrec, hx⟩
  · rcases List.mem_append.mp hd with hd | hd
    · exact (hs.calls d hd).mono (Grows.refl _) hh
    · rw [List.mem_singleton.mp hd]
      exact hc

theorem Sound.step (h : step env w e = some t) (hs : w.Sound) : t.Sound := by
  cases e with
  | advance secs =>
    cases h
    exact ⟨hs.backed, hs.rows, hs.calls⟩
  | reconcile hp =>
    cases h
    refine hs.start (fun _ h => List.mem_cons_of_mem _ h) ⟨List.mem_cons_self, ?_⟩
    unfold Reconcile.start
    split <;> trivial
  | sweep =>
    cases h
    exact hs.start (fun _ h => h) trivial
  | create req =>
    cases h
    exact hs.start (fun _ h => h) trivial
  | exec i r =>
    obtain ⟨c, hc, -, rfl⟩ := step_exec h
    exact hs.exec hc
  | fail i r =>
    obtain ⟨c, hc, -, rfl⟩ := step_fail h
    refine ⟨hs.backed, hs.rows, fun d hd => ?_⟩
    rcases List.mem_or_eq_of_mem_set hd with hd | rfl
    · exact hs.calls d hd
    · exact Call.fail_sound (hs.calls c (List.mem_of_getElem? hc))
  | kill i =>
    obtain ⟨c, hc, rfl⟩ := step_kill h
    refine ⟨hs.backed, hs.rows, fun d hd => ?_⟩
    rcases List.mem_or_eq_of_mem_set hd with hd | rfl
    · exact hs.calls d hd
    · exact Call.cut_sound (hs.calls c (List.mem_of_getElem? hc))
  | crash =>
    cases h
    refine ⟨hs.backed, hs.rows, fun d hd => ?_⟩
    obtain ⟨c, hc, rfl⟩ := List.mem_map.mp hd
    exact Call.cut_sound (hs.calls c hc)

theorem Sound.reaches (h : Reaches env w es t) (hs : w.Sound) : t.Sound :=
  run_invariant (fun _ _ _ => Sound.step) h hs

/-- A completed intent was paid for: among the records handed to `reconcile_payment` are
matching ones of distinct transactions whose amounts reach the requested one. -/
theorem completed_isPaid {p : Payment} (h : Reaches env (init now) es w)
    (hp : p ∈ w.db.payments.rows) (hc : p.status = .completed) :
    ∃ records : List HorizonPayment, (records.map (·.hash)).Nodup ∧
      (∀ hp ∈ records, hp ∈ w.handed ∧ Matches p hp ∧ hp.stroops.isSome) ∧
      ∃ expected, parseStroops p.amount = some expected ∧
        expected ≤ (records.map (·.stroops.getD 0)).sum := by
  have hs := Sound.init.reaches h
  have hrec : ∀ r ∈ w.db.credits p.id, ∃ hp ∈ w.handed, Matches p hp ∧ hp.hash = r.txHash ∧
      hp.stroops = some r.amountStroops := by
    intro r hr
    obtain ⟨hr, hid⟩ := Db.mem_credits.mp hr
    obtain ⟨q, hq, hqid, hx⟩ := hs.backed r hr
    rw [Db.eq_of_id hp hq (hid.symm.trans hqid.symm)]
    exact hx
  choose! record hin hmatch hhash hamount using hrec
  refine ⟨(w.db.credits p.id).map record, ?_, ?_, _, (hs.rows p hp).priced, ?_⟩
  · rw [List.map_map]
    have he : (w.db.credits p.id).map ((·.hash) ∘ record) = (w.db.credits p.id).map (·.txHash) :=
      List.map_congr_left fun r hr => hhash r hr
    rw [he]
    exact Db.credits_txHash_nodup
  · intro x hx
    obtain ⟨r, hr, rfl⟩ := List.mem_map.mp hx
    exact ⟨hin r hr, hmatch r hr, by simp [hamount r hr]⟩
  · rw [List.map_map]
    have he : (w.db.credits p.id).map ((·.stroops.getD 0) ∘ record) =
        (w.db.credits p.id).map (·.amountStroops) :=
      List.map_congr_left fun r hr => by simp [hamount r hr]
    rw [he]
    exact (hs.rows p hp).covered hc

theorem completed_isPaid_sample :
    ∃ w p, Reaches Sample.env (init 0)
        (Sample.create ++ .reconcile (Sample.record "11" "10.0000000" "TXA" "1") ::
          Sample.turns 20 [1, 1, 1, 1, 1]) w ∧
      p ∈ w.db.payments.rows ∧ p.status = .completed ∧
      ∃ records : List HorizonPayment, (records.map (·.hash)).Nodup ∧
        (∀ hp ∈ records, hp ∈ w.handed ∧ Matches p hp ∧ hp.stroops.isSome) ∧
        ∃ expected, parseStroops p.amount = some expected ∧
          expected ≤ (records.map (·.stroops.getD 0)).sum := by
  obtain ⟨w, hw, p, hp, hc⟩ := exists_of_run (step Sample.env) (init 0)
    (Sample.create ++ .reconcile (Sample.record "11" "10.0000000" "TXA" "1") ::
      Sample.turns 20 [1, 1, 1, 1, 1])
    (P := fun w => ∃ p ∈ w.db.payments.rows, p.status = .completed) (by decide)
  exact ⟨w, p, hw, hp, hc, completed_isPaid hw hp hc⟩

end World
end StellarGate
