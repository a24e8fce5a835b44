import StellarGate.Settlement.Received

/-! The books over all intents together: no transaction is credited twice, to one intent or to two,
so that nothing is completed or shown as paid that has not been received. -/
namespace StellarGate
open Base

/-- A memo is one of a transaction: two records of one transaction carry the same. -/
def OneMemo (handed : List HorizonPayment) : Prop :=
  ∀ x ∈ handed, ∀ y ∈ handed, x.hash = y.hash → x.memo = y.memo

instance (handed : List HorizonPayment) : Decidable (OneMemo handed) := by
  unfold OneMemo
  infer_instance

/-- What has been received for the intents of a kind: records of distinct
transactions, and their total. -/
structure ReceivedFor (w : World) (P : Payment → Bool) (records : List HorizonPayment) : Prop where
  distinct : (records.map (·.hash)).Nodup
  handed : ∀ hp ∈ records, hp ∈ w.handed
  matched : ∀ hp ∈ records, ∃ p ∈ w.db.payments.rows, P p = true ∧ Matches p hp
  /-- All of it is in the ledger, and no more than it. -/
  credited : ((w.db.payments.rows.filter P).map fun p => w.db.creditSum p.id).sum =
    (records.map (·.stroops.getD 0)).sum

section
variable {w : World} {P : Payment → Bool} {p q : Payment}

/-- The record that a credit stands for. -/
theorem World.Sound.record (hs : w.Sound) (hp : p ∈ w.db.payments.rows) :
    ∃ records : List HorizonPayment, (∀ hp ∈ records, hp ∈ w.handed ∧ Matches p hp) ∧
      (records.map (·.hash)).Nodup ∧
      (records.map (·.stroops.getD 0)).sum = w.db.creditSum p.id := by
  have hrec : ∀ r ∈ w.db.credits p.id, ∃ hp ∈ w.handed, Matches p hp ∧ hp.hash = r.txHash ∧
      hp.stroops = some r.amountStroops := by
    intro r hr
    obtain ⟨hr, hid⟩ := Db.mem_credits.mp hr
    obtain ⟨q, hq, hqid, hx⟩ := hs.backed r hr
    rw [Db.eq_of_id hp hq (hid.symm.trans hqid.symm)]
    exact hx
  choose! record hin hmatch hhash hamount using hrec
  refine ⟨(w.db.credits p.id).map record, ?_, ?_, ?_⟩
  · intro x hx
    obtain ⟨r, hr, rfl⟩ := List.mem_map.mp hx
    exact ⟨hin r hr, hmatch r hr⟩
  · rw [List.map_map]
    have he : (w.db.credits p.id).map ((·.hash) ∘ record) = (w.db.credits p.id).map (·.txHash) :=
      List.map_congr_left fun r hr => hhash r hr
    rw [he]
    exact Db.credits_txHash_nodup
  · rw [List.map_map]
    exact congrArg List.sum (List.map_congr_left fun r hr => by simp [hamount r hr])

theorem disjoint_hashes (hone : OneMemo w.handed) {xs ys : List HorizonPayment}
    (hp : p ∈ w.db.payments.rows) (hq : q ∈ w.db.payments.rows) (hne : p ≠ q)
    (hxs : ∀ hp ∈ xs, hp ∈ w.handed ∧ Matches p hp)
    (hys : ∀ hp ∈ ys, hp ∈ w.handed ∧ Matches q hp) :
    (xs.map (·.hash)).Disjoint (ys.map (·.hash)) := by
  intro hash hxmem hymem
  obtain ⟨x, hx, rfl⟩ := List.mem_map.mp hxmem
  obtain ⟨y, hy, heq⟩ := List.mem_map.mp hymem
  have hmemo := hone x (hxs x hx).1 y (hys y hy).1 heq.symm
  rw [(hxs x hx).2.memo, (hys y hy).2.memo] at hmemo
  exact hne (Db.eq_of_memo hp hq (Option.some.inj hmemo))

theorem World.Sound.receivedFor (hs : w.Sound) (hone : OneMemo w.handed) (P : Payment → Bool) :
    ∃ records, ReceivedFor w P records := by
  choose! records hmine hnodup hsum using fun p (hp : p ∈ w.db.payments.rows) => hs.record hp
  have hrows : ∀ p ∈ w.db.payments.rows.filter P, p ∈ w.db.payments.rows := fun p hp =>
    (List.mem_filter.mp hp).1
  have hdistinct : (w.db.payments.rows.filter P).Nodup :=
    (List.Nodup.of_map Payment.id (w.db.payments.unique Payment.id (by simp))).filter P
  refine ⟨(w.db.payments.rows.filter P).flatMap records, ?_, ?_, ?_, ?_⟩
  · rw [List.map_flatMap, List.nodup_flatMap]
    refine ⟨fun p hp => hnodup p (hrows p hp), ?_⟩
    refine hdistinct.imp_of_mem fun {p q} hp hq hne => ?_
    exact disjoint_hashes hone (hrows p hp) (hrows q hq) hne (hmine p (hrows p hp))
      (hmine q (hrows q hq))
  · intro x hx
    obtain ⟨p, hp, hx⟩ := List.mem_flatMap.mp hx
    exact (hmine p (hrows p hp) x hx).1
  · intro x hx
    obtain ⟨p, hp, hx⟩ := List.mem_flatMap.mp hx
    exact ⟨p, hrows p hp, (List.mem_filter.mp hp).2, (hmine p (hrows p hp) x hx).2⟩
  · rw [List.map_flatMap, List.flatMap_def, List.sum_flatten, List.map_map]
    exact congrArg List.sum (List.map_congr_left fun p hp => (hsum p (hrows p hp)).symm)

theorem World.Sound.paid_le (hs : w.Sound) (hp : p ∈ w.db.payments.rows) :
    paidStroops p ≤ w.db.creditSum p.id := by
  unfold paidStroops
  rcases (hs.rows p hp).paid with hnone | ⟨t, hpos, hle, hmax, hpaid⟩
  · rw [hnone]
    exact hs.backed.creditSum_nonneg p.id
  · rw [hpaid, Option.bind_some, parseStroops_stroopsToString hpos hmax]
    exact hle

theorem World.Sound.asked_le (hs : w.Sound) (hp : p ∈ w.db.payments.rows) :
    (if p.status = .completed then expectedStroops p else 0) ≤ w.db.creditSum p.id := by
  split_ifs with hc
  · exact (hs.rows p hp).covered hc
  · exact hs.backed.creditSum_nonneg p.id

end

/-- For the intents of any kind (of a merchant, in an asset, or all of them): the credits are the
amounts of distinct transactions that were handed over for them, and neither the amounts shown as
paid nor those of the completed intents exceed that total. -/
theorem World.money_conserved {env : Env} {now : ℤ} {es : List Event} {w : World}
    (h : Reaches env (init now) es w) (hone : OneMemo w.handed) (P : Payment → Bool) :
    ∃ records, ReceivedFor w P records ∧
      ((w.db.payments.rows.filter P).map paidStroops).sum ≤ (records.map (·.stroops.getD 0)).sum ∧
      ((w.db.payments.rows.filter P).map fun p =>
        if p.status = .completed then expectedStroops p else 0).sum ≤
          (records.map (·.stroops.getD 0)).sum := by
  have hs : w.Sound := Sound.init.reaches h
  obtain ⟨records, hr⟩ := hs.receivedFor hone P
  have hrows : ∀ p ∈ w.db.payments.rows.filter P, p ∈ w.db.payments.rows := fun p hp =>
    (List.mem_filter.mp hp).1
  refine ⟨records, hr, ?_, ?_⟩
  · rw [← hr.credited]
    exact List.sum_le_sum fun p hp => hs.paid_le (hrows p hp)
  · rw [← hr.credited]
    exact List.sum_le_sum fun p hp => hs.asked_le (hrows p hp)

/-- Two intents, and a payment to one of them that is handed over twice. -/
theorem World.money_conserved_sample :
    let es := Sample.create ++ [.create Sample.request] ++ Sample.turns 20 [1, 1, 1, 1] ++
      [.reconcile (Sample.record "11" "10.0000000" "TXA" "1"), .reconcile
        (Sample.record "11" "10.0000000" "TXA" "1")] ++
      Sample.turns 30 [2, 2, 2, 2, 2, 3, 3, 3, 3, 3]
    ∃ w, Reaches Sample.env (init 0) es w ∧ w.db.payments.rows.length = 2 ∧ OneMemo w.handed ∧
      ∃ records, ReceivedFor w (fun _ => true) records ∧
        ((w.db.payments.rows.filter fun _ => true).map paidStroops).sum ≤
        (records.map (·.stroops.getD 0)).sum := by
  intro es
  obtain ⟨w, hw, hlength, hone⟩ := exists_of_run (step Sample.env) (init 0) es
    (P := fun w => w.db.payments.rows.length = 2 ∧ OneMemo w.handed) (by decide +kernel)
  obtain ⟨records, hr, hpaid, -⟩ := money_conserved hw hone fun _ => true
  exact ⟨w, hw, hlength, hone, records, hr, hpaid⟩

end StellarGate
