import StellarGate.Settlement.Sequential

/-! A call of `reconcile_payment` that is cut short and repeated. -/
namespace StellarGate
open Base

inductive Cut where
  | crash
  | fails (r : Reply) (rest : List (ℤ × Reply))

/-- The database left by a call on `hp` that is cut short after the statements of `feed`. -/
def Reconcile.cutShort (env : Env) (hp : HorizonPayment) (feed : List (ℤ × Reply)) (cut : Cut)
    (db : Db) : Db :=
  let s := alone env hp feed (start hp, db)
  match cut with
  | .crash => s.2
  | .fails r rest => (alone env hp rest ((fail r s.1).1, s.2)).2

section
variable {env : Env} {db db' : Db} {hp : HorizonPayment} {p : Payment} {r : Reply}
  {feed again whole : List (ℤ × Reply)} {cut : Cut}

theorem Reconcile.fail_late (pc : ReconcilePc) : (fail r pc).1.late = true := by
  cases pc with
  | notify d pc =>
    simp only [fail, notifyNext]
    split_ifs <;> rfl
  | _ => rfl

variable (env db hp feed cut) in
theorem Reconcile.cutShort_frame :
    (cutShort env hp feed cut db).payments = (alone env hp feed (start hp, db)).2.payments ∧
      (cutShort env hp feed cut db).processedTransactions =
        (alone env hp feed (start hp, db)).2.processedTransactions := by
  cases cut with
  | crash => exact ⟨rfl, rfl⟩
  | fails r rest => exact alone_late _ _ _ _ (fail_late _)

theorem Payable.congr (h : Payable db p hp) (hpay : db'.payments = db.payments) :
    Payable db' p hp :=
  ⟨hpay ▸ h.mem, h.watchable, h.priced, h.pays⟩

theorem Settles.congr (hl : db'.processedTransactions = db.processedTransactions) :
    Settles db' p hp ↔ Settles db p hp := by
  simp only [Settles, Credited, Db.creditSum, Db.credits, hl]

theorem Credited.congr (hl : db'.processedTransactions = db.processedTransactions) :
    Credited db' p hp ↔ Credited db p hp := by
  simp only [Credited, Db.credits, hl]

/-- The status and the amount a repetition leaves are those of one whole call. -/
def Recovers (env : Env) (hp : HorizonPayment) (p : Payment) (again whole : List (ℤ × Reply))
    (db₁ db : Db) : Prop :=
  ∃ q ∈ (Reconcile.alone env hp again (Reconcile.start hp, db₁)).2.payments.rows, q.id = p.id ∧
    ∃ u ∈ (Reconcile.alone env hp whole (Reconcile.start hp, db)).2.payments.rows, u.id = p.id ∧
      q.status = u.status ∧ q.paidAmount = u.paidAmount

theorem Payable.recovers_unsettled (h : Payable db p hp) (hs : ¬ Settles db p hp)
    (hf : ∀ f ∈ feed.head?, strftime f.1 < p.expiresAt)
    (ha : ∀ f ∈ again.head?, strftime f.1 < p.expiresAt)
    (hw : ∀ f ∈ whole.head?, strftime f.1 < p.expiresAt) :
    Recovers env hp p again whole (Reconcile.cutShort env hp feed cut db) db := by
  obtain ⟨h1, h2⟩ := Reconcile.cutShort_frame env db hp feed cut
  obtain ⟨hpay, hns, -⟩ := h.alone_unsettled env hs hf
  have h₁ := h.congr (h1.trans hpay)
  obtain ⟨hpay₂, -, -⟩ := h₁.alone_unsettled env (fun hset => hns ((Settles.congr h2).mp hset)) ha
  obtain ⟨hpay₃, -, -⟩ := h.alone_unsettled env hs hw
  exact ⟨p, hpay₂ ▸ h₁.mem, rfl, p, hpay₃ ▸ h.mem, rfl, rfl, rfl⟩

theorem Payable.recovers_early (h : Payable db p hp) (hs : Settles db p hp)
    (hf : ∀ f ∈ feed.head?, strftime f.1 < p.expiresAt) (hk : feed.length ≤ 2)
    (ha : ∀ f ∈ again.head?, strftime f.1 < p.expiresAt) (hka : 5 ≤ again.length)
    (hw : ∀ f ∈ whole.head?, strftime f.1 < p.expiresAt) (hkw : 5 ≤ whole.length) :
    Recovers env hp p again whole (Reconcile.cutShort env hp feed cut db) db := by
  obtain ⟨h1, h2⟩ := Reconcile.cutShort_frame env db hp feed cut
  rw [h.alone_early hs hf hk] at h1 h2
  obtain ⟨⟨now, hrow⟩, -⟩ := (h.congr h1).alone_settled env ((Settles.congr h2).mpr hs) ha hka
  obtain ⟨⟨now', hrow'⟩, -⟩ := h.alone_settled env hs hw hkw
  rw [Db.creditSum_congr h2] at hrow
  exact ⟨_, hrow, rfl, _, hrow', rfl, rfl, rfl⟩

/-- After the status update a repetition finds the transaction credited or the intent
closed. -/
theorem Payable.recovers_late (h : Payable db p hp) (hs : Settles db p hp)
    (hf : ∀ f ∈ feed.head?, strftime f.1 < p.expiresAt) (hk : 5 ≤ feed.length)
    (ha : ∀ f ∈ again.head?, strftime f.1 < p.expiresAt)
    (hw : ∀ f ∈ whole.head?, strftime f.1 < p.expiresAt) (hkw : 5 ≤ whole.length) :
    Recovers env hp p again whole (Reconcile.cutShort env hp feed cut db) db := by
  obtain ⟨h1, h2⟩ := Reconcile.cutShort_frame env db hp feed cut
  obtain ⟨⟨now, hrow⟩, -, createdAt, hcredits⟩ := h.alone_settled env hs hf hk
  obtain ⟨⟨now', hrow'⟩, -⟩ := h.alone_settled env hs hw hkw
  rw [← h1] at hrow
  refine ⟨Db.settleRow now (settlementOf p (db.creditSum p.id + hp.stroops.getD 0)).status hp.hash
    (stroopsToString (db.creditSum p.id + hp.stroops.getD 0)) p, ?_, rfl, _, hrow', rfl, rfl, rfl⟩
  cases hopen : (settlementOf p (db.creditSum p.id + hp.stroops.getD 0)).status.watchable with
  | false => exact Reconcile.alone_closed _ hrow hopen
  | true =>
    have hc : Credited (Reconcile.cutShort env hp feed cut db) p hp :=
      (Credited.congr h2).mpr ⟨_, (hcredits _).mpr (.inr rfl), rfl⟩
    have hpays : ∀ q : Payment, q.terms = p.terms → Pays q hp := fun q ht => h.pays.of_terms ht.symm
    obtain ⟨hpay, -, -⟩ := Payable.alone_unsettled env
      ⟨hrow, hopen, h.priced, hpays _ rfl⟩ (fun hset => hset.1 hc) ha
    exact hpay ▸ hrow

/-- Between the ledger insert and the status update the status change is lost. -/
theorem Payable.not_recovers_between (h : Payable db p hp) (hsound : p.Sound db)
    (hs : Settles db p hp) (hf : ∀ f ∈ feed.head?, strftime f.1 < p.expiresAt)
    (hk : 3 ≤ feed.length) (hk' : feed.length ≤ 4)
    (ha : ∀ f ∈ again.head?, strftime f.1 < p.expiresAt)
    (hw : ∀ f ∈ whole.head?, strftime f.1 < p.expiresAt) (hkw : 5 ≤ whole.length) :
    ¬ Recovers env hp p again whole (Reconcile.cutShort env hp feed cut db) db := by
  rintro ⟨q, hq, hqid, u, hu, huid, -, hpaid⟩
  obtain ⟨h1, h2⟩ := Reconcile.cutShort_frame env db hp feed cut
  obtain ⟨hpay, hc⟩ := h.alone_between env hs hf hk hk'
  have h₁ := h.congr (h1.trans hpay)
  obtain ⟨hpay₂, -, -⟩ := h₁.alone_unsettled env
    (fun hset => hset.1 ((Credited.congr h2).mpr hc)) ha
  obtain ⟨⟨now, hrow⟩, -⟩ := h.alone_settled env hs hw hkw
  cases Db.eq_of_id hq (hpay₂ ▸ h₁.mem) hqid
  cases Db.eq_of_id hu hrow huid
  have hpos := h.pays.stroops_pos
  have hmax := hs.2
  rcases hsound.paid with hnone | ⟨t, ht, hle, htmax, hsome⟩
  · rw [hnone] at hpaid
    cases hpaid
  · rw [hsome] at hpaid
    have := stroopsToString_injOn ht htmax (by omega) hmax (Option.some.inj hpaid)
    omega

/-- A record that matches an open intent is handed over, cut short after any number of
statements, and handed over again. Both calls return, and the second recovers what one
whole call would have done, unless the cut falls between the commit of the ledger insert
and that of the status update. -/
theorem recovers_iff {w : World} {es : List Event} {now : ℤ}
    (h₀ : World.Reaches env (.init now) es w) (hp' : p ∈ w.db.payments.rows)
    (hopen : p.status.watchable = true) (hpays : Pays p hp)
    (hf : ∀ f ∈ feed.head?, strftime f.1 < p.expiresAt)
    (hla : Reconcile.maxSteps env ≤ again.length)
    (ha : ∀ f ∈ again.head?, strftime f.1 < p.expiresAt)
    (hlw : Reconcile.maxSteps env ≤ whole.length)
    (hw : ∀ f ∈ whole.head?, strftime f.1 < p.expiresAt) :
    (∃ result, (Reconcile.alone env hp again (Reconcile.start hp,
      Reconcile.cutShort env hp feed cut w.db)).1 = .done result) ∧
    (∃ result, (Reconcile.alone env hp whole (Reconcile.start hp, w.db)).1 = .done result) ∧
    (Recovers env hp p again whole (Reconcile.cutShort env hp feed cut w.db) w.db ↔
      feed.length ≠ 3 ∧ feed.length ≠ 4 ∨ Credited w.db p hp ∨
        i64Max < w.db.creditSum p.id + hp.stroops.getD 0) := by
  have hsound := (World.Sound.init.reaches h₀).rows p hp'
  have h : Payable w.db p hp := ⟨hp', hopen, by rw [hsound.priced]; rfl, hpays⟩
  have hfive : ∀ {l : List (ℤ × Reply)}, Reconcile.maxSteps env ≤ l.length → 5 ≤ l.length := by
    intro l hl
    simp only [Reconcile.maxSteps] at hl
    omega
  refine ⟨Reconcile.alone_returns hla, Reconcile.alone_returns hlw, ?_⟩
  by_cases hs : Settles w.db p hp
  · have hiff : (feed.length ≠ 3 ∧ feed.length ≠ 4 ∨ Credited w.db p hp ∨
        i64Max < w.db.creditSum p.id + hp.stroops.getD 0) ↔ feed.length ≠ 3 ∧ feed.length ≠ 4 :=
      ⟨fun hor => hor.resolve_right fun hr => hr.elim hs.1 (not_lt.mpr hs.2), .inl⟩
    rw [hiff]
    by_cases hk : feed.length ≤ 2
    · exact iff_of_true (h.recovers_early hs hf hk ha (hfive hla) hw (hfive hlw)) (by omega)
    · by_cases hk' : feed.length ≤ 4
      · exact iff_of_false
          (h.not_recovers_between hsound hs hf (by omega) hk' ha hw (hfive hlw)) (by omega)
      · exact iff_of_true (h.recovers_late hs hf (by omega) ha hw (hfive hlw)) (by omega)
  · refine iff_of_true (h.recovers_unsettled hs hf ha hw) (.inr ?_)
    by_contra hno
    push Not at hno
    exact hs ⟨hno.1, hno.2⟩

/-- A failing re-read of the ledger's total before the insert. -/
theorem recovers_iff_sample :
    let hp := Sample.record "11" "10.0000000" "TXA" "1"
    let feed := List.replicate 1 ((0 : ℤ), Sample.reply 30)
    let again := List.replicate 11 ((0 : ℤ), Sample.reply 31)
    let cut := Cut.fails (Sample.reply 32) []
    ∃ w p, World.Reaches Sample.env (.init 0) Sample.create w ∧ p ∈ w.db.payments.rows ∧
      (∃ result, (Reconcile.alone Sample.env hp again (Reconcile.start hp,
        Reconcile.cutShort Sample.env hp feed cut w.db)).1 = .done result) ∧
      (∃ result, (Reconcile.alone Sample.env hp again (Reconcile.start hp, w.db)).1 =
        .done result) ∧
      (Recovers Sample.env hp p again again (Reconcile.cutShort Sample.env hp feed cut w.db) w.db ↔
        feed.length ≠ 3 ∧ feed.length ≠ 4 ∨ Credited w.db p hp ∨
          i64Max < w.db.creditSum p.id + hp.stroops.getD 0) := by
  intro hp feed again cut
  obtain ⟨w, hw, p, hp', hopen, hpays, hf, ha⟩ := exists_of_run
    (World.step Sample.env) (.init 0) Sample.create
    (P := fun w => ∃ p ∈ w.db.payments.rows, p.status.watchable = true ∧ Pays p hp ∧
      (∀ f ∈ feed.head?, strftime f.1 < p.expiresAt) ∧
      ∀ f ∈ again.head?, strftime f.1 < p.expiresAt) (by decide +kernel)
  exact ⟨w, p, hw, hp', recovers_iff hw hp' hopen hpays hf (by decide) ha (by decide) ha⟩

/-- The process dies between the ledger insert and the status update: the repetition
takes the record for a known one, and the intent stays pending. -/
theorem cut_loses_settlement :
    let hp := Sample.record "11" "10.0000000" "TXA" "1"
    let feed := List.replicate 3 ((0 : ℤ), Sample.reply 30)
    let again := List.replicate 11 ((0 : ℤ), Sample.reply 31)
    ∃ w p, World.Reaches Sample.env (.init 0) Sample.create w ∧ p ∈ w.db.payments.rows ∧
      p.status.watchable = true ∧ Pays p hp ∧
      (∀ f ∈ feed.head?, strftime f.1 < p.expiresAt) ∧
      (∀ f ∈ again.head?, strftime f.1 < p.expiresAt) ∧
      (Reconcile.alone Sample.env hp again (Reconcile.start hp, w.db)).1 = .done (.ok true) ∧
      (Reconcile.alone Sample.env hp again (Reconcile.start hp, w.db)).2.payments.rows.map
        (fun u => (u.id, u.status, u.paidAmount)) = [(p.id, .completed, some "10")] ∧
      (Reconcile.alone Sample.env hp again (Reconcile.start hp,
        Reconcile.cutShort Sample.env hp feed .crash w.db)).1 = .done (.ok false) ∧
      (Reconcile.alone Sample.env hp again (Reconcile.start hp,
        Reconcile.cutShort Sample.env hp feed .crash w.db)).2.payments.rows.map
          (fun q => (q.id, q.status, q.paidAmount)) = [(p.id, .pending, none)] := by
  intro hp feed again
  obtain ⟨w, hw, p, hp', hx⟩ := exists_of_run
    (World.step Sample.env) (.init 0) Sample.create
    (P := fun w => ∃ p ∈ w.db.payments.rows, p.status.watchable = true ∧ Pays p hp ∧
      (∀ f ∈ feed.head?, strftime f.1 < p.expiresAt) ∧
      (∀ f ∈ again.head?, strftime f.1 < p.expiresAt) ∧
      (Reconcile.alone Sample.env hp again (Reconcile.start hp, w.db)).1 = .done (.ok true) ∧
      (Reconcile.alone Sample.env hp again (Reconcile.start hp, w.db)).2.payments.rows.map
        (fun u => (u.id, u.status, u.paidAmount)) = [(p.id, .completed, some "10")] ∧
      (Reconcile.alone Sample.env hp again (Reconcile.start hp,
        Reconcile.cutShort Sample.env hp feed .crash w.db)).1 = .done (.ok false) ∧
      (Reconcile.alone Sample.env hp again (Reconcile.start hp,
        Reconcile.cutShort Sample.env hp feed .crash w.db)).2.payments.rows.map
          (fun q => (q.id, q.status, q.paidAmount)) = [(p.id, .pending, none)]) (by decide +kernel)
  exact ⟨w, p, hw, hp', hx⟩

end
end StellarGate
