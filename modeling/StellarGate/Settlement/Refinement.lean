import StellarGate.Base.Till
import StellarGate.Restart

/-! The service is a till: whatever it does to the payments and to the ledger, in any
interleaving and through any restart, is one of the things that may happen at a till that issues
invoices and takes transfers. -/
namespace StellarGate
open Base
open Relation (ReflTransGen)

def PaymentStatus.stage : PaymentStatus → Stage
  | pending => .awaiting
  | underpaid => .short
  | completed => .paid
  | expired => .lapsed

/-- An intent asks for its amount, a record that matches pays for it, and the
tag is the transaction. -/
noncomputable def trade : Trade Payment String HorizonPayment where
  price := expectedStroops
  pays hp p := Matches p hp
  tag := HorizonPayment.hash
  amount hp := hp.stroops.getD 0

/-- A row of `payments` as an invoice, with its rows of `processed_transactions`. -/
def Db.invoice (db : Db) (p : Payment) : Invoice Payment String :=
  ⟨p.terms, p.status.stage, ↑((db.credits p.id).map fun r => (r.txHash, r.amountStroops))⟩

/-- What the till is about in the database, once the records `handed` have been handed over. -/
def Db.till (db : Db) (handed : List HorizonPayment) :
    Till String Payment String HorizonPayment where
  invoices id := (db.payments.rows.find? (·.id = id)).map db.invoice
  handed := {hp | hp ∈ handed}

def World.till (w : World) : Till String Payment String HorizonPayment := w.db.till w.handed

@[simp] theorem PaymentStatus.stage_isOpen (s : PaymentStatus) : s.stage.isOpen = s.watchable := by
  cases s <;> rfl

section
variable {env : Env} {now : ℤ} {r : Reply} {db db' : Db} {c : Call} {handed : List HorizonPayment}
  {p q : Payment} {id : String}

@[simp] theorem expectedStroops_terms : expectedStroops p.terms = expectedStroops p := rfl

theorem Db.invoice_total : (db.invoice p).total = db.creditSum p.id := by
  rw [Invoice.total, invoice, Multiset.map_coe, List.map_map, Multiset.sum_coe]
  rfl

theorem Db.till_of_mem (hp : p ∈ db.payments.rows) :
    (db.till handed).invoices p.id = some (db.invoice p) := by
  cases hfind : db.payments.rows.find? (·.id = p.id) with
  | none =>
    have hnone := List.find?_eq_none.mp hfind p hp
    simp at hnone
  | some q =>
    have hid : q.id = p.id := by simpa using List.find?_some hfind
    simp only [till, hfind, Db.eq_of_id (List.mem_of_find?_eq_some hfind) hp hid, Option.map_some]

theorem Db.till_eq_none (h : ∀ p ∈ db.payments.rows, p.id ≠ id) :
    (db.till handed).invoices id = none := by
  have hfind : db.payments.rows.find? (·.id = id) = none :=
    List.find?_eq_none.mpr fun p hp hid => h p hp (by simpa using hid)
  simp only [till, hfind, Option.map_none]

theorem Db.invoice_congr (hledger : db'.processedTransactions = db.processedTransactions) :
    db'.invoice = db.invoice := by
  funext p
  simp only [invoice, credits, hledger]

theorem Db.till_congr (hpayments : db'.payments = db.payments)
    (hledger : db'.processedTransactions = db.processedTransactions) :
    db'.till handed = db.till handed := by
  rw [till, till, hpayments, invoice_congr hledger]

theorem Db.till_map {f : Payment → Payment} (hrows : db'.payments.rows = db.payments.rows.map f)
    (hid : ∀ p, (f p).id = p.id) (hp : p ∈ db.payments.rows) :
    (db'.till handed).invoices p.id = some (db'.invoice (f p)) := by
  have hmem : f p ∈ db'.payments.rows := by
    rw [hrows]
    exact List.mem_map_of_mem hp
  rw [← hid p]
  exact till_of_mem hmem

theorem Db.till_map_eq_none {f : Payment → Payment}
    (hrows : db'.payments.rows = db.payments.rows.map f) (hid : ∀ p, (f p).id = p.id)
    (h : ∀ p ∈ db.payments.rows, p.id ≠ id) : (db'.till handed).invoices id = none := by
  apply till_eq_none
  rw [hrows]
  intro q hq
  obtain ⟨p, hp, rfl⟩ := List.mem_map.mp hq
  rw [hid]
  exact h p hp

theorem Db.invoice_append {x : ProcessedTx}
    (hrows : db'.processedTransactions.rows = db.processedTransactions.rows ++ [x]) :
    db'.invoice p = if x.paymentId = p.id then
      { db.invoice p with credits := (x.txHash, x.amountStroops) ::ₘ (db.invoice p).credits }
      else db.invoice p := by
  by_cases hx : x.paymentId = p.id
  · have hcredits : db'.credits p.id = db.credits p.id ++ [x] := by
      simp only [credits, hrows, List.filter_append, List.filter_cons, hx, decide_true, if_pos,
        List.filter_nil]
    rw [if_pos hx]
    simp only [invoice, hcredits, List.map_append, Invoice.mk.injEq, true_and]
    exact Multiset.coe_eq_coe.mpr (List.perm_append_singleton _ _)
  · have hcredits : db'.credits p.id = db.credits p.id := by
      simp only [credits, hrows, List.filter_append, List.filter_cons, hx, decide_false,
        Bool.false_eq_true, if_false, List.filter_nil, List.append_nil]
    rw [if_neg hx]
    simp only [invoice, hcredits]

theorem till_credit {hp : HorizonPayment} {n : ℤ} (hmem : hp ∈ handed) (hk : Known db p)
    (hm : Matches p hp) (hn : hp.stroops = some n)
    (h : db.recordProcessedTx now p.id hp.hash n = (true, db')) :
    Till.Next trade (db.till handed) (db'.till handed) := by
  obtain ⟨q, hq, ht⟩ := hk
  have hid := Payment.id_eq_of_terms ht
  obtain ⟨t, hdb, hrows, hfresh⟩ := Db.recordProcessedTx_true h
  have hpayments : db'.payments = db.payments := by rw [hdb]
  have hledger : db'.processedTransactions.rows = db.processedTransactions.rows ++
      [⟨p.id, hp.hash, n, strftime now⟩] := by
    rw [hdb]
    exact hrows
  have hamount : trade.amount hp = n := by
    show hp.stroops.getD 0 = n
    rw [hn]
    rfl
  have hnew : trade.tag hp ∉ (db.invoice q).credits.map Prod.fst := by
    intro hin
    obtain ⟨c, hc, hsame⟩ := Multiset.mem_map.mp hin
    obtain ⟨x, hx, rfl⟩ := List.mem_map.mp (Multiset.mem_coe.mp hc)
    obtain ⟨hx, hxid⟩ := Db.mem_credits.mp hx
    exact hfresh x hx (Prod.ext (hxid.trans hid) hsame)
  have hput : db'.till handed = (db.till handed).put q.id
      { db.invoice q with
        credits := (trade.tag hp, trade.amount hp) ::ₘ (db.invoice q).credits } := by
    refine Till.eq_put ?_ (fun id hne => ?_) rfl
    · rw [Db.till_of_mem (hpayments ▸ hq), Db.invoice_append hledger, if_pos hid.symm, hamount]
      rfl
    · by_cases hcase : ∃ x ∈ db.payments.rows, x.id = id
      · obtain ⟨x, hx, rfl⟩ := hcase
        have hother : p.id ≠ x.id := fun hsame => hne (hsame.symm.trans hid.symm)
        rw [Db.till_of_mem (hpayments ▸ hx), Db.till_of_mem hx, Db.invoice_append hledger,
          if_neg hother]
      · simp only [not_exists, not_and] at hcase
        rw [Db.till_eq_none (hpayments ▸ hcase), Db.till_eq_none hcase]
  rw [hput]
  exact .credit (Db.till_of_mem hq) hmem (hm.of_terms ht.symm) hnew
    (hamount ▸ HorizonPayment.stroops_pos hn)

theorem till_settle {hash : String} {n : ℤ} (hk : Known db p) (hpos : 0 < n)
    (hle : n ≤ db.creditSum p.id)
    (h : db.updatePaymentStatus now p.id (settlementOf p n).status hash
      (settlementOf p n).paidAmount = (true, db')) :
    Till.Next trade (db.till handed) (db'.till handed) := by
  obtain ⟨⟨q, hq, hid, hopen⟩, t, rfl, hrows⟩ := Db.updatePaymentStatus_true h
  have hinvoice : Db.invoice { db with payments := t } = db.invoice := Db.invoice_congr rfl
  have ht : q.terms = p.terms := hk.eq_of_id hq hid
  have hstage : (settlementOf p n).status.stage = if trade.price q.terms ≤ n then Stage.paid
      else .short := by
    show _ = if expectedStroops q.terms ≤ n then Stage.paid else .short
    rw [ht, expectedStroops_terms]
    unfold settlementOf
    simp only
    split_ifs <;> first | rfl | omega
  have hkeeps : ∀ x : Payment, (if x.id = p.id then Db.settleRow now (settlementOf p n).status hash
      (settlementOf p n).paidAmount x else x).id = x.id := by
    intro x
    split_ifs <;> rfl
  have hput : Db.till { db with payments := t } handed = (db.till handed).put q.id
      { db.invoice q with stage := if trade.price q.terms ≤ n then .paid else .short } := by
    refine Till.eq_put ?_ (fun id hne => ?_) rfl
    · rw [Db.till_map hrows hkeeps hq, if_pos hid, ← hstage]
      rfl
    · by_cases hcase : ∃ x ∈ db.payments.rows, x.id = id
      · obtain ⟨x, hx, rfl⟩ := hcase
        rw [Db.till_map hrows hkeeps hx, Db.till_of_mem hx,
          if_neg (fun hsame => hne (hsame.trans hid.symm)), hinvoice]
      · simp only [not_exists, not_and] at hcase
        rw [Db.till_map_eq_none hrows hkeeps hcase, Db.till_eq_none hcase]
  rw [hput]
  refine .settle (Db.till_of_mem hq) ?_ hpos ?_
  · show q.status.stage.isOpen = true
    rw [PaymentStatus.stage_isOpen]
    exact hopen
  · rw [Db.invoice_total, hid]
    exact hle

theorem till_expire {rows : List Payment} {batch : ℤ} {tie : String → ℕ}
    (h : db.expireOverdue now batch tie = (rows, db')) :
    ReflTransGen (Till.Next trade) (db.till handed) (db'.till handed) := by
  obtain ⟨t, rfl, hrows⟩ := Db.expireOverdue_db h
  have hkeeps : ∀ x : Payment, (if x.id ∈ db.expireIds now batch tie then Db.expireRow now x
      else x).id = x.id := by
    intro x
    split_ifs <;> rfl
  have hlapsed : Db.till { db with payments := t } handed = (db.till handed).lapsed
      (db.expireIds now batch tie) := by
    ext1
    · funext id
      show _ = if id ∈ db.expireIds now batch tie then _ else _
      by_cases hcase : ∃ x ∈ db.payments.rows, x.id = id
      · obtain ⟨x, hx, rfl⟩ := hcase
        rw [Db.till_map hrows hkeeps hx, Db.till_of_mem hx]
        split_ifs <;> rfl
      · simp only [not_exists, not_and] at hcase
        rw [Db.till_map_eq_none hrows hkeeps hcase, Db.till_eq_none hcase]
        split_ifs <;> rfl
    · rfl
  rw [hlapsed]
  refine Till.reaches_lapsed fun id hid => ?_
  obtain ⟨x, hx, rfl⟩ : ∃ x ∈ db.payments.rows, x.id = id := by
    obtain ⟨x, hx, hxid⟩ := List.mem_map.mp hid
    exact ⟨x, (List.mem_filter.mp ((List.mem_insertionSort _).mp (Db.mem_limit hx))).1, hxid⟩
  refine ⟨_, Db.till_of_mem hx, ?_⟩
  have hoverdue := Db.overdue_of_mem_expireIds hx hid
  show x.status.stage.isOpen = true
  rw [PaymentStatus.stage_isOpen]
  exact (Bool.and_eq_true_iff.mp hoverdue).1

theorem till_insert {new : Db.NewPayment} (hbacked : Backed db handed)
    (h : db.insertPayment now new = some db') :
    Till.Next trade (db.till handed) (db'.till handed) := by
  obtain ⟨n, expiresAt, t, hn, rfl, hrows, hfresh, -⟩ := Db.insertPayment_eq_some h
  have hmem : new.row now expiresAt (stroopsToString n) ∈ t.rows := by
    rw [hrows]
    exact List.mem_append_right _ (List.mem_singleton_self _)
  have hnone : db.credits new.id = [] := by
    refine List.eq_nil_iff_forall_not_mem.mpr fun x hx => ?_
    obtain ⟨hx, hid⟩ := Db.mem_credits.mp hx
    obtain ⟨p, hp, hpid, -⟩ := hbacked x hx
    exact hfresh p hp (hpid.trans hid)
  have hput : Db.till { db with payments := t } handed = (db.till handed).put new.id
      ⟨(new.row now expiresAt (stroopsToString n)).terms, .awaiting, 0⟩ := by
    refine Till.eq_put ?_ (fun id hne => ?_) rfl
    · have hself : (Db.till { db with payments := t } handed).invoices
          (new.row now expiresAt (stroopsToString n)).id =
          some (Db.invoice { db with payments := t } (new.row now expiresAt (stroopsToString n))) :=
          Db.till_of_mem hmem
      have hcredits : Db.credits (new.row now expiresAt (stroopsToString n)).id
        { db with payments := t } = [] := hnone
      refine hself.trans ?_
      rw [Db.invoice, hcredits]
      rfl
    · by_cases hcase : ∃ x ∈ db.payments.rows, x.id = id
      · obtain ⟨x, hx, rfl⟩ := hcase
        have hx' : x ∈ t.rows := by
          rw [hrows]
          exact List.mem_append_left _ hx
        have hself : (Db.till { db with payments := t } handed).invoices x.id =
            some (Db.invoice { db with payments := t } x) := Db.till_of_mem hx'
        rw [hself, Db.till_of_mem hx]
        rfl
      · simp only [not_exists, not_and] at hcase
        rw [Db.till_eq_none hcase]
        apply Db.till_eq_none
        intro x hx
        have hx' : x ∈ t.rows := hx
        rw [hrows] at hx'
        rcases List.mem_append.mp hx' with hx' | hx'
        · exact hcase x hx'
        · rw [List.mem_singleton.mp hx']
          exact hne.symm
  rw [hput]
  exact .issue _ (Db.till_eq_none hfresh)

theorem Writes.till (hw : Writes env now r db c db') (hc : c.Sound db handed)
    (hbacked : Backed db handed) :
    ReflTransGen (Till.Next trade) (db.till handed) (db'.till handed) := by
  cases hw with
  | none hpayments hledger =>
    rw [Db.till_congr hpayments hledger]
  | credit h =>
    obtain ⟨hmem, hk, hm, hn⟩ := hc
    exact .single (till_credit hmem hk hm hn h)
  | settle h =>
    obtain ⟨-, hk, -, hpos, hle, -⟩ := hc
    exact .single (till_settle hk hpos hle h)
  | expire h => exact till_expire h
  | insert h => exact .single (till_insert hbacked h)

end

theorem World.till_init (now : ℤ) : (init now).till = Till.empty := by
  ext1
  · rfl
  · exact Set.eq_empty_of_forall_notMem fun hp h => nomatch h

theorem World.till_step {env : Env} {w v : World} {e : Event} (hs : w.Sound)
    (h : step env w e = some v) :
    ReflTransGen (Till.Next trade) w.till v.till := by
  cases e with
  | reconcile hp =>
    cases h
    have hhand : (w.db.till (hp :: w.handed)) =
        { w.db.till w.handed with handed := insert hp (w.db.till w.handed).handed } := by
      ext1
      · rfl
      · ext x
        exact List.mem_cons
    show ReflTransGen (Till.Next trade) (w.db.till w.handed) (w.db.till (hp :: w.handed))
    rw [hhand]
    exact .single (.hand _ hp)
  | exec i r =>
    obtain ⟨c, hc, -, rfl⟩ := step_exec h
    have hw : Writes env w.now r w.db c (c.step env w.now r w.db).db := c.step_writes
    exact hw.till (hs.calls c (List.mem_of_getElem? hc)) hs.backed
  | advance secs | sweep | create req | crash =>
    cases h
    exact .refl
  | fail i r =>
    obtain ⟨c, -, -, rfl⟩ := step_fail h
    exact .refl
  | kill i =>
    obtain ⟨c, -, rfl⟩ := step_kill h
    exact .refl

namespace Service
variable {site : Jobs.Site} {hash : String → String} {s t : Service} {e : ServiceEvent} {start : ℤ}
  {es : List ServiceEvent}

theorem till_step (hconfig : Addressed site.env.config) (h : s.Current site.env hash)
    (hstep : step site hash s e = some t) :
    ReflTransGen (Till.Next trade) s.world.till t.world.till := by
  cases e with
  | world e =>
    obtain ⟨v, hv, rfl⟩ := Option.map_eq_some_iff.mp hstep
    exact World.till_step h.world.sound hv
  | job a =>
    obtain ⟨-, haside, hworld, -⟩ := step_job h.jobs hstep
    have hhanded : t.world.handed = s.world.handed := by rw [hworld]
    have hsame : t.world.till = s.world.till := by
      rw [World.till, World.till, hhanded, Db.till_congr haside.payments haside.ledger]
    rw [hsame]
  | key a =>
    obtain ⟨keys, -, rfl⟩ := Option.map_eq_some_iff.mp hstep
    exact .refl
  | setState key value =>
    cases hstep
    exact .refl
  | restart draw n =>
    cases hstep
    have hfile : (s.crash site hash).file = s.file := rfl
    rw [h.begun_eq_self hconfig, ← hfile, load_file]
    exact .refl

theorem reaches_till (hconfig : Addressed site.env.config) (hs : s.Current site.env hash)
    (hr : run (step site hash) s es = some t) :
    ReflTransGen (Till.Next trade) s.world.till t.world.till := by
  let view := fun s : Service => s.world.till
  show ReflTransGen _ (view s) (view t)
  refine refines (fun s e t _ hstep h => ?_) (fun s e t _ hstep h => ?_)
    (along_of_forall fun _ _ _ => trivial) hr hs
  · exact h.step hconfig hstep
  · exact till_step hconfig h hstep

/-- Every run of the service is a run of the till. -/
theorem refines_till (hconfig : validateAddresses site.env.config = .ok ())
    (hr : run (step site hash) (init start) es = some s) :
    ReflTransGen (Till.Next trade) Till.empty s.world.till := by
  rw [← World.till_init start]
  exact reaches_till (validateAddresses_eq_ok.mp hconfig) (.init start) hr

/-- A completed intent is covered by records of different transactions that match it. -/
def Covered (handed : List HorizonPayment) (p : Payment) : Prop :=
  ∃ records : Multiset HorizonPayment, (records.map HorizonPayment.hash).Nodup ∧
    (∀ hp ∈ records, hp ∈ handed ∧ Matches p hp) ∧ expectedStroops p ≤
    (records.map fun hp => hp.stroops.getD 0).sum

/-- How an intent may stand later: with the same terms and all its credits, and as it
was if it was closed. -/
structure Onward (s t : Service) (p q : Payment) : Prop where
  terms : q.terms = p.terms
  credits : (↑((s.world.db.credits p.id).map fun r => (r.txHash, r.amountStroops)) : Multiset
    (String × ℤ)) ≤ ↑((t.world.db.credits q.id).map fun r => (r.txHash, r.amountStroops))
  final : p.status.watchable = false → q.status = p.status

/-- In every run, restarts and all, an intent is completed only when it is covered, and whatever
comes after, no credit is taken back and no closed intent is opened again. -/
theorem intents_honest (hconfig : validateAddresses site.env.config = .ok ())
    {fs : List ServiceEvent} (hs : run (step site hash) (init start) es = some s)
    (ht : run (step site hash) s fs = some t) {p : Payment} (hp : p ∈ s.world.db.payments.rows) :
    (p.status = .completed → Covered s.world.handed p) ∧
      ∃ q ∈ t.world.db.payments.rows, Onward s t p q := by
  have haddressed := validateAddresses_eq_ok.mp hconfig
  have hcurrent : s.Current site.env hash :=
    run_invariant (fun s e t hstep h => h.step haddressed hstep) hs (.init start)
  have hrow : s.world.till.invoices p.id = some (s.world.db.invoice p) := Db.till_of_mem hp
  constructor
  · intro hcompleted
    have hfirst : ReflTransGen (Till.Next trade) (init start).world.till s.world.till :=
      reaches_till haddressed (.init start) hs
    have hempty : (init start).world.till = Till.empty := World.till_init start
    rw [hempty] at hfirst
    have hhonest := Till.Sound.reaches hfirst Till.sound_empty p.id _ hrow
    have hpaid : (s.world.db.invoice p).stage = .paid := congrArg PaymentStatus.stage hcompleted
    obtain ⟨records, hnodup, hfor, hcovers⟩ := hhonest.payers hpaid
    refine ⟨records, hnodup, fun hp hin => ?_, hcovers⟩
    obtain ⟨hmem, hpays⟩ := hfor hp hin
    have hterms : p.terms.terms = p.terms := rfl
    exact ⟨hmem, Matches.of_terms hterms hpays⟩
  · obtain ⟨v, hv, hlater⟩ := Till.later_of_reaches (reaches_till haddressed hcurrent ht) hrow
    obtain ⟨q, hfind, rfl⟩ := Option.map_eq_some_iff.mp hv
    refine ⟨q, List.mem_of_find?_eq_some hfind, hlater.terms, hlater.credits, fun hclosed => ?_⟩
    have hsame : q.status.stage = p.status.stage :=
      hlater.final ((PaymentStatus.stage_isOpen p.status).trans hclosed)
    cases hstatus : p.status <;> cases hq : q.status <;> simp_all [PaymentStatus.stage]

/-- An intent, and a record that pays it in full. -/
def Sample.paidInFull : List ServiceEvent :=
  (StellarGate.Sample.create ++ [Event.reconcile
    { StellarGate.Sample.record "11" "10.0000000" "TXA" "1" with toAddress := some address }] ++
    StellarGate.Sample.turns 20 [1, 1, 1, 1, 1]).map .world

theorem refines_till_paidInFull :
    ∃ s, run (step Sample.site id) (init 0) Sample.paidInFull = some s ∧
      s.world.db.payments.rows.map Payment.status = [.completed] ∧
      ReflTransGen (Till.Next trade) Till.empty s.world.till := by
  obtain ⟨s, hs, hstatus⟩ := exists_of_run (step Sample.site id) (init 0) Sample.paidInFull
    (P := fun s => s.world.db.payments.rows.map Payment.status = [.completed]) (by decide +kernel)
  have hconfig : validateAddresses Sample.site.env.config = .ok () := by decide +kernel
  exact ⟨s, hs, hstatus, refines_till hconfig hs⟩

theorem intents_honest_paidInFull :
    ∃ s t, run (step Sample.site id) (init 0) Sample.paidInFull = some s ∧
      run (step Sample.site id) s [.restart id 60, .world .sweep] = some t ∧
      ∃ p ∈ s.world.db.payments.rows, p.status = .completed ∧ Covered s.world.handed p ∧
        ∃ q ∈ t.world.db.payments.rows, Onward s t p q := by
  obtain ⟨s, hs, hstatus, hnext⟩ := exists_of_run (step Sample.site id) (init 0) Sample.paidInFull
    (P := fun s => s.world.db.payments.rows.map Payment.status = [.completed] ∧
      (run (step Sample.site id) s [.restart id 60, .world .sweep]).isSome = true)
      (by decide +kernel)
  obtain ⟨t, ht⟩ := Option.isSome_iff_exists.mp hnext
  have hconfig : validateAddresses Sample.site.env.config = .ok () := by decide +kernel
  obtain ⟨p, hp, hcompleted⟩ :=
      List.mem_map.mp (hstatus ▸ List.mem_singleton_self PaymentStatus.completed)
  obtain ⟨hcovered, hlater⟩ := intents_honest hconfig hs ht hp
  exact ⟨s, t, hs, ht, p, hp, hcompleted, hcovered hcompleted, hlater⟩

end Service
end StellarGate
