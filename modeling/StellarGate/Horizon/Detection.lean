import StellarGate.Db.Clock
import StellarGate.Horizon.Paging
import StellarGate.Settlement.Schedule
import StellarGate.Settlement.Sequential
import StellarGate.Timing

/-! Whether a payment is credited in time: the service together with its poller, which looks
the intent of a record up by the clock of that moment. -/
namespace StellarGate
open Base

/-- The service and its poller. `current` is the call of `reconcile_payment` the poller waits
for, `since` the time of its last statement or request. -/
structure Detector where
  world : World
  poll : Poller
  current : Option ℕ
  since : ℤ

/-- What can happen next. `hand` calls `reconcile_payment` on the next record of the page, and
`result` is its return. -/
inductive DetectorEvent where
  | world (e : Event)
  | lands (hp : HorizonPayment)
  | poll
  | reply
  | hand
  | result

/-- The record pays the intent, and its ledger closed between the creation of the
intent and its expiry. -/
def OnTime (p : Payment) (hp : HorizonPayment) : Prop :=
  Pays p hp ∧ ∃ closed ∈ hp.createdAt, p.createdAt < closed ∧ closed < p.expiresAt

instance (p : Payment) (hp : HorizonPayment) : Decidable (OnTime p hp) :=
  inferInstanceAs (Decidable (_ ∧ _))

/-- No other record matches the intent. -/
def OnlyMatch (history : List HorizonPayment) (p : Payment) (hp : HorizonPayment) : Prop :=
  ∀ x ∈ history, Matches p x → x = hp

instance (history : List HorizonPayment) (p : Payment) (hp : HorizonPayment) :
    Decidable (OnlyMatch history p hp) :=
  inferInstanceAs (Decidable (∀ x ∈ history, Matches p x → x = hp))

namespace Detector

def start (now : ℤ) (history : List HorizonPayment) : Detector :=
  ⟨.init now, .start history none, none, now⟩

def sleeping (d : Detector) : Bool :=
  match d.poll.pc with
  | .idle | .returned _ => true
  | _ => false

/-- What the rest of the service may do: the poller never sleeps longer than its interval, its
own call does not fail, and other calls of `reconcile_payment` come from the stream. -/
def Allowed (timing : TimingConfig) (d : Detector) : Event → Prop
  | .advance secs => InRange (d.world.now + secs) ∧
      (d.sleeping = true → d.world.now + secs ≤ d.since + timing.pollIntervalSecs)
  | .reconcile hp => hp ∈ d.poll.history
  | .fail i _ | .kill i => d.current ≠ some i
  | .crash => False
  | .sweep | .create _ | .exec _ _ => True

instance (timing : TimingConfig) (d : Detector) : ∀ e, Decidable (d.Allowed timing e)
  | .advance _ => inferInstanceAs (Decidable (_ ∧ (_ → _)))
  | .reconcile hp => inferInstanceAs (Decidable (hp ∈ d.poll.history))
  | .fail i _ | .kill i => inferInstanceAs (Decidable (d.current ≠ some i))
  | .crash => .isFalse id
  | .sweep | .create _ | .exec _ _ => .isTrue trivial

section
variable (env : Env) (timing : TimingConfig) (position : String → ℕ)

def step (d : Detector) : DetectorEvent → Option Detector
  | .world e =>
    if d.Allowed timing e then (World.step env d.world e).map fun w => { d with world := w }
    else none
  -- Horizon lists a record once its ledger has closed
  | .lands hp =>
    if ∀ closed ∈ hp.createdAt, closed ≤ strftime d.world.now then
      (Poller.step position d.poll (.lands hp)).map fun q => { d with poll := q }
    else none
  | .poll => (Poller.step position d.poll .poll).map fun q => { d with poll := q }
  | .reply =>
    (Poller.step position d.poll (.reply true)).map fun q =>
    { d with poll := q, since := d.world.now }
  | .hand =>
    match d.current, d.poll.pc with
    | none, .records _ (hp :: _) _ _ _ =>
      (World.step env d.world (.reconcile hp)).map fun w =>
        { d with world := w, current := some d.world.calls.length }
    | _, _ => none
  | .result =>
    match d.current.bind fun i => d.world.calls[i]? with
    | some (.reconcile _ (.done result)) =>
      (Poller.step position d.poll (.reconciled result)).map fun q =>
        { d with poll := q, current := none }
    | _ => none

/-- The persisted cursor is at the record or past it. -/
def Passed (d : Detector) (hp : HorizonPayment) : Prop :=
  ∃ cursor ∈ d.poll.cursor, Poller.place position hp ≤ position cursor

/-- Every record that paid its intent in time, as the only one, is credited by the time the
poller has passed it. -/
def NoneLost (d : Detector) : Prop :=
  ∀ p ∈ d.world.db.payments.rows, ∀ hp ∈ d.poll.history, OnTime p hp →
    OnlyMatch d.poll.history p hp → d.Passed position hp → Credited d.world.db p hp

/-- The record whose intent the poller's call looks up with this step. -/
def lookedUp (d : Detector) : DetectorEvent → Option HorizonPayment
  | .world (.exec i _) =>
    if d.current = some i then
      match d.world.calls[i]? with
      | some (.reconcile hp (.find _)) => some hp
      | _ => none
    else none
  | _ => none

/-- The record paid the intent in time, as its only match, and is not credited yet. -/
def Due (d : Detector) (p : Payment) (hp : HorizonPayment) : Prop :=
  OnTime p hp ∧ OnlyMatch d.poll.history p hp ∧ ¬ Credited d.world.db p hp

/-- A record that is due is looked up before its intent expires, and the first cycle does not
baseline at such a record or past it. -/
def InTime (d : Detector) (e : DetectorEvent) : Prop :=
  (∀ hp ∈ d.lookedUp e, ∀ p ∈ d.world.db.payments.rows, d.Due p hp →
    strftime d.world.now < p.expiresAt) ∧
  match e, d.poll.pc with
  | .reply, .saveBaseline token => ∀ p ∈ d.world.db.payments.rows, ∀ hp ∈ d.poll.history,
      d.Due p hp → position token < Poller.place position hp
  | _, _ => True

instance (d : Detector) (p : Payment) (hp : HorizonPayment) : Decidable (d.Due p hp) :=
  inferInstanceAs (Decidable (_ ∧ _ ∧ ¬ ∃ x ∈ d.world.db.credits p.id, x.txHash = hp.hash))

instance (d : Detector) (hp : HorizonPayment) : Decidable (d.Passed position hp) :=
  inferInstanceAs (Decidable (∃ cursor ∈ d.poll.cursor, Poller.place position hp ≤ position cursor))

instance (d : Detector) : Decidable (d.NoneLost position) :=
  inferInstanceAs (Decidable (∀ p ∈ d.world.db.payments.rows, ∀ hp ∈ d.poll.history, OnTime p hp →
    OnlyMatch d.poll.history p hp → d.Passed position hp →
    ∃ x ∈ d.world.db.credits p.id, x.txHash = hp.hash))

instance (d : Detector) (e : DetectorEvent) : Decidable (d.InTime position e) := by
  unfold InTime
  split <;> infer_instance

end
end Detector

section World
variable {env : Env} {w t : World} {e : Event} {i : ℕ} {r : Reply}

def World.Watched (w : World) : Prop :=
  ∀ p ∈ w.db.payments.rows, p.status.watchable = true ∨ p.expiresAt ≤ strftime w.now ∨
    ∃ x, x ∈ w.db.credits p.id

namespace World

theorem Watched.exec {c : Call} (hc : w.calls[i]? = some c) (hs : w.Sound) (h : w.Watched) :
    (w.exec env i r c).Watched := by
  have hw : Writes env w.now r w.db c (c.step env w.now r w.db).db := c.step_writes
  have hcs := hs.calls c (List.mem_of_getElem? hc)
  have hg := hw.grows hcs
  intro q hq
  rcases hw.row_inv hq with ⟨p, hp, hstep⟩ | hnew
  · cases hstep with
    | same => exact (h q hp).imp_right (.imp_right fun ⟨x, hx⟩ => ⟨x, hg.credits hx⟩)
    | settle call id watchable =>
      subst call
      obtain ⟨-, -, ⟨x, hx, -⟩, -⟩ := hcs
      rw [← id] at hx
      exact .inr (.inr ⟨x, hg.credits hx⟩)
    | expire call overdue selected =>
      simp only [Db.overdue, Bool.and_eq_true, decide_eq_true_eq] at overdue
      exact .inr (.inl overdue.2)
  · left
    rw [hnew.status]
    rfl

theorem Watched.step (hs : World.step env w e = some t) (hsound : w.Sound)
    (hnow : strftime w.now ≤ strftime t.now) (h : w.Watched) : t.Watched := by
  rcases step_db hs with hdb | ⟨i, r, c, -, hc, rfl⟩
  · intro p hp
    rw [hdb] at hp ⊢
    exact (h p hp).imp_right (.imp_left fun he => he.trans hnow)
  · exact h.exec hc hsound

end World
end World

section
variable {db : Db} {p q : Payment} {hp : HorizonPayment} {history : List HorizonPayment}

theorem OnTime.of_row (ht : q.terms = p.terms) (hc : q.createdAt = p.createdAt)
    (he : q.expiresAt = p.expiresAt) (h : OnTime q hp) : OnTime p hp := by
  refine ⟨h.1.of_terms ht, ?_⟩
  rw [← hc, ← he]
  exact h.2

theorem OnlyMatch.of_terms (ht : q.terms = p.terms) (h : OnlyMatch history q hp) :
    OnlyMatch history p hp :=
  fun x hx hm => h x hx (hm.of_terms ht.symm)

theorem ReconcilePc.Early.of_terms {pc : ReconcilePc} (ht : q.terms = p.terms) (h : pc.Early p) :
    pc.Early q := by
  cases pc with
  | find memo => exact h.trans (Payment.memo_eq_of_terms ht).symm
  | sumBefore x => exact h.trans ht.symm
  | record x n => exact h.trans ht.symm
  | _ => exact h.elim

theorem Credited.of_terms (ht : q.terms = p.terms) (h : Credited db p hp) : Credited db q hp := by
  rw [Credited, Payment.id_eq_of_terms ht]
  exact h

theorem Backed.credited {handed : List HorizonPayment} (hb : Backed db handed)
    (hp' : p ∈ db.payments.rows) (hh : ∀ x ∈ handed, x ∈ history) (ho : OnlyMatch history p hp)
    {x : ProcessedTx} (hx : x ∈ db.credits p.id) : Credited db p hp := by
  obtain ⟨hmem, hid⟩ := Db.mem_credits.mp hx
  obtain ⟨q, hq, hqid, y, hy, hm, hhash, -⟩ := hb x hmem
  cases Db.eq_of_id hq hp' (hqid.trans hid)
  rw [ho y (hh y hy) hm] at hhash
  exact ⟨x, hx, hhash.symm⟩

end

namespace Detector

/-- What holds of an intent and the record that paid it in time. -/
structure Tracked (position : String → ℕ) (d : Detector) (p : Payment) (hp : HorizonPayment) :
    Prop where
  call : ∀ i ∈ d.current, ∀ pc, d.world.calls[i]? = some (.reconcile hp pc) →
    pc.Early p ∨ Credited d.world.db p hp
  handed : d.poll.Handed hp → Credited d.world.db p hp
  passed : d.Passed position hp → Credited d.world.db p hp

/-- The invariant of a run in which records are looked up in time; `known` are the records
Horizon had at its start. -/
structure Tracks (position : String → ℕ) (known : List HorizonPayment) (d : Detector) : Prop where
  sound : d.world.Sound
  watched : d.world.Watched
  clock : InRange d.world.now
  poll : Poller.Baselining position known d.poll
  positive : ∀ hp ∈ d.poll.history, position "0" < Poller.place position hp
  closed : ∀ hp ∈ d.poll.history, ∀ closed ∈ hp.createdAt, closed ≤ strftime d.world.now
  handed : ∀ hp ∈ d.world.handed, hp ∈ d.poll.history
  current : ∀ i ∈ d.current, ∃ page hp todo cursor settled pages pc,
    d.poll.pc = .records page (hp :: todo) cursor settled pages ∧
      d.world.calls[i]? = some (.reconcile hp pc)
  tracked : ∀ p ∈ d.world.db.payments.rows, ∀ hp ∈ d.poll.history, OnTime p hp →
    OnlyMatch d.poll.history p hp → Tracked position d p hp

section
variable {env : Env} {timing : TimingConfig} {position : String → ℕ} {known : List HorizonPayment}
  {d t : Detector} {p q : Payment} {hp : HorizonPayment} {i : ℕ} {r : Reply}

variable (env r) in
theorem Tracks.exec_early {pc : ReconcilePc} (h : Tracks position known d)
    (hp' : p ∈ d.world.db.payments.rows) (ht : OnTime p hp)
    (ho : OnlyMatch d.poll.history p hp) (hcall : pc.Early p)
    (hfind : ∀ memo, pc = .find memo → d.Due p hp → strftime d.world.now < p.expiresAt) :
    (Reconcile.step env d.world.now r hp pc d.world.db).next.Early p ∨
      Credited (Reconcile.step env d.world.now r hp pc d.world.db).db p hp ∨
      Credited d.world.db p hp := by
  have hcredit {x : ProcessedTx} (hx : x ∈ d.world.db.credits p.id) : Credited d.world.db p hp :=
    h.sound.backed.credited hp' h.handed ho hx
  cases pc with
  | find memo =>
    have hmemo : memo = p.memo := hcall
    subst hmemo
    by_cases hdone : Credited d.world.db p hp
    · exact .inr (.inr hdone)
    · have hnow := hfind _ rfl ⟨ht, ho, hdone⟩
      rcases h.watched p hp' with hw | hlate | ⟨x, hx⟩
      · left
        rw [Reconcile.step_find hp' hw hnow]
        exact rowToPayment_terms p
      · exact absurd hnow (String.not_lt.mpr hlate)
      · exact absurd (hcredit hx) hdone
  | sumBefore x =>
    have hterms : x.terms = p.terms := hcall
    cases hc : d.world.db.credits p.id with
    | cons y ys => exact .inr (.inr (hcredit (show y ∈ _ by simp [hc])))
    | nil =>
      left
      have hsum : d.world.db.creditSum p.id ≤ i64Max := by
        simp only [Db.creditSum, hc, List.map_nil, List.sum_nil]
        decide
      have hprice := (h.sound.rows p hp').parses hterms
      rw [Reconcile.step_sumBefore (Payment.id_eq_of_terms hterms) hsum
        (ht.1.of_terms hterms.symm) hprice]
      exact hterms
  | record x n =>
    have hid : x.id = p.id := Payment.id_eq_of_terms hcall
    have hmade := Reconcile.credits_of_record env d.world.now r d.world.db hp x n
    rw [hid] at hmade
    exact .inr (.inl hmade)
  | _ => exact hcall.elim

theorem Tracked.frame (h : Tracked position d p hp) (hg : Grows d.world.db t.world.db)
    (hpoll : t.poll = d.poll) (ht : q.terms = p.terms)
    (hcall : ∀ i ∈ t.current, ∀ pc, t.world.calls[i]? = some (.reconcile hp pc) →
      pc.Early p ∨ Credited t.world.db p hp) : Tracked position t q hp := by
  have hgrow (hc : Credited d.world.db p hp) : Credited t.world.db q hp := by
    obtain ⟨x, hx, hhash⟩ := hc
    exact Credited.of_terms ht ⟨x, hg.credits hx, hhash⟩
  refine ⟨fun i hi pc hc => ?_, fun hh => hgrow (h.handed (hpoll ▸ hh)), fun hpass => hgrow ?_⟩
  · rcases hcall i hi pc hc with he | he
    · exact .inl (he.of_terms ht)
    · exact .inr (he.of_terms ht)
  · apply h.passed
    rwa [Passed, hpoll] at hpass

theorem Allowed.exec_of_not_spares {e : Event} (ha : d.Allowed timing e) (hi : d.current = some i)
    (he : ¬ e.spares i) : ∃ r, e = .exec i r := by
  cases e with
  | exec j r => exact ⟨r, by rw [not_not.mp he]⟩
  | fail j r | kill j => exact absurd (by rw [hi, not_not.mp he]) ha
  | crash => exact ha.elim
  | advance secs | reconcile x | sweep | create req => exact absurd trivial he

/-- What the poller's own call becomes when the rest of the service takes a step. -/
theorem Tracks.world_call {e : Event} {w : World} (h : Tracks position known d)
    (hok : d.InTime position (.world e)) (ha : d.Allowed timing e)
    (hs : World.step env d.world e = some w) (hi : d.current = some i) {pc : ReconcilePc}
    (hc : w.calls[i]? = some (.reconcile hp pc)) (hp' : p ∈ d.world.db.payments.rows)
    (hin : hp ∈ d.poll.history) (ht : OnTime p hp) (ho : OnlyMatch d.poll.history p hp) :
    pc.Early p ∨ Credited w.db p hp := by
  have hg := World.step_grows hs h.sound
  have hgrow (hc : Credited d.world.db p hp) : Credited w.db p hp := by
    obtain ⟨x, hx, hhash⟩ := hc
    exact ⟨x, hg.credits hx, hhash⟩
  obtain ⟨page, hp'', todo, cursor, settled, pages, pc₀, -, hcall⟩ := h.current i hi
  by_cases he : e.spares i
  · rw [World.step_spares hs he hcall] at hc
    cases hc
    exact ((h.tracked p hp' hp hin ht ho).call i hi pc hcall).imp_right hgrow
  · obtain ⟨r, rfl⟩ := ha.exec_of_not_spares hi he
    obtain ⟨c, hci, -, rfl⟩ := World.step_exec hs
    cases hci.symm.trans hcall
    have hlt : i < d.world.calls.length := (List.getElem?_eq_some_iff.mp hcall).1
    simp only [World.exec, Call.step, List.getElem?_set_self hlt] at hc ⊢
    cases hc
    rcases (h.tracked p hp' hp hin ht ho).call i hi pc₀ hcall with hearly | hdone
    · have hfind (memo : String) (hpc : pc₀ = .find memo) (hdue : d.Due p hp) :
          strftime d.world.now < p.expiresAt := by
        refine hok.1 hp ?_ p hp' hdue
        subst hpc
        simp [lookedUp, hi, hcall]
      rcases h.exec_early env r hp' ht ho hearly hfind with hnext | hnew | hold
      · exact .inl hnext
      · exact .inr hnew
      · exact .inr (hgrow hold)
    · exact .inr (hgrow hdone)

theorem Tracks.world {e : Event} {w : World} (h : Tracks position known d)
    (hok : d.InTime position (.world e)) (ha : d.Allowed timing e)
    (hs : World.step env d.world e = some w) : Tracks position known { d with world := w } := by
  obtain ⟨htime, hhanded⟩ := World.step_frame hs
  have hnow : InRange w.now ∧ d.world.now ≤ w.now := by
    rcases htime with heq | ⟨secs, rfl, heq⟩
    · rw [heq]
      exact ⟨h.clock, le_rfl⟩
    · rw [heq]
      exact ⟨ha.1, by omega⟩
  have hclock := strftime_mono h.clock hnow.1 hnow.2
  refine ⟨h.sound.step hs, h.watched.step hs h.sound hclock, hnow.1, h.poll, h.positive,
    fun hp hin closed hc => (h.closed hp hin closed hc).trans hclock, ?_, ?_, ?_⟩
  · intro hp hin
    rcases hhanded hp hin with hin | rfl
    · exact h.handed hp hin
    · exact ha
  · intro i hi
    obtain ⟨page, hp, todo, cursor, settled, pages, pc, hpc, hc⟩ := h.current i hi
    obtain ⟨pc', hc'⟩ : ∃ pc', w.calls[i]? = some (.reconcile hp pc') := by
      by_cases he : e.spares i
      · exact ⟨pc, World.step_spares hs he hc⟩
      · obtain ⟨r, rfl⟩ := ha.exec_of_not_spares hi he
        obtain ⟨c, hci, -, rfl⟩ := World.step_exec hs
        cases hci.symm.trans hc
        exact ⟨_, List.getElem?_set_self (List.getElem?_eq_some_iff.mp hc).1⟩
    exact ⟨page, hp, todo, cursor, settled, pages, pc', hpc, hc'⟩
  · intro q hq hp hin ht ho
    rcases World.step_row hs hq with ⟨p, hp', hterms, hcreated, hexpires⟩ | hnew
    · have ht' := ht.of_row hterms hcreated hexpires
      have ho' := ho.of_terms hterms
      refine (h.tracked p hp' hp hin ht' ho').frame (World.step_grows hs h.sound) rfl hterms ?_
      intro i hi pc hc
      exact h.world_call hok ha hs hi hc hp' hin ht' ho'
    · obtain ⟨-, closed, hc, hlt, -⟩ := ht
      rw [hnew] at hlt
      exact absurd hlt (String.not_lt.mpr (h.closed hp hin closed hc))

theorem Tracks.cycle {e : PollEvent} {w : Poller} (h : Tracks position known d)
    (he : e = .poll ∨ e = .reply true)
    (hbase : ∀ token, e = .reply true → d.poll.pc = .saveBaseline token →
      ∀ p ∈ d.world.db.payments.rows, ∀ hp ∈ d.poll.history, d.Due p hp →
        position token < Poller.place position hp)
    (hs : Poller.step position d.poll e = some w) (since : ℤ) :
    Tracks position known { d with poll := w, since := since } := by
  obtain ⟨hhist, hrec, hpc, hcursor⟩ := Poller.step_cycle hs he
  have hnone : d.current = none := by
    cases hcur : d.current with
    | none => rfl
    | some i =>
      obtain ⟨page, hp, todo, cursor, settled, pages, pc, heq, -⟩ := h.current i hcur
      exact absurd heq (hpc _ _ _ _ _)
  have hhanded (hp : HorizonPayment) : w.Handed hp ↔ d.poll.Handed hp := by
    rw [Poller.Handed, Poller.Handed, hrec]
  refine ⟨h.sound, h.watched, h.clock, h.poll.step hs, hhist ▸ h.positive, hhist ▸ h.closed,
    hhist ▸ h.handed, ?_, ?_⟩
  · simp [hnone]
  · intro p hp' hp hin ht ho
    simp only [hhist] at hin ho
    have htrack := h.tracked p hp' hp hin ht ho
    refine ⟨by simp [hnone], fun hh => htrack.handed ((hhanded hp).mp hh), ?_⟩
    rintro ⟨cursor, hc, hle⟩
    rcases hcursor with hsame | ⟨token, hreply, heq, hnew⟩ | ⟨page, last, settled, pages, heq, hnew⟩
    · rw [hsame] at hc
      exact htrack.passed ⟨cursor, hc, hle⟩
    · cases Option.some.inj (hnew.symm.trans hc)
      by_contra hdue
      have := hbase cursor hreply heq p hp' hp hin ⟨ht, ho, hdue⟩
      omega
    · cases Option.some.inj (hnew.symm.trans hc)
      obtain ⟨base, hfrom, -, hall⟩ := h.poll.handing.checkpoint heq
      by_cases hlt : position base < Poller.place position hp
      · exact htrack.handed (hall hp hin hlt hle)
      · rcases hfrom with hfrom | ⟨-, rfl⟩
        · exact htrack.passed ⟨base, hfrom, by omega⟩
        · exact absurd (h.positive hp hin) hlt

theorem Tracks.mem_history (h : Tracks position known d) {page todo : List HorizonPayment}
    {cursor : String} {settled pages : ℕ}
    (heq : d.poll.pc = .records page (hp :: todo) cursor settled pages) : hp ∈ d.poll.history := by
  have hpc := h.poll.handing.pc
  simp only [heq] at hpc
  obtain ⟨base, -, hpage, ⟨seen, hsplit, -⟩, -⟩ := hpc
  exact (hpage.after hp (by simp [hsplit])).1

theorem Tracks.lands {w : Poller} (h : Tracks position known d)
    (hclosed : ∀ closed ∈ hp.createdAt, closed ≤ strftime d.world.now)
    (hs : Poller.step position d.poll (.lands hp) = some w) :
    Tracks position known { d with poll := w } := by
  have hpoll := h.poll.step hs
  cases Poller.step_moves hs with
  | lands token positive last =>
  have hfresh : hp ∉ d.poll.history := fun hin => absurd (last hp hin) (lt_irrefl _)
  have hmem {x : HorizonPayment} (hx : x ∈ d.poll.history ++ [hp]) : x ∈ d.poll.history ∨
      x = hp := by
    simpa using hx
  refine ⟨h.sound, h.watched, h.clock, hpoll, fun x hx => ?_, fun x hx => ?_,
    fun x hx => List.mem_append_left _ (h.handed x hx), h.current, fun p hp' x hx ht ho => ?_⟩
  · rcases hmem hx with hx | rfl
    · exact h.positive x hx
    · exact positive
  · rcases hmem hx with hx | rfl
    · exact h.closed x hx
    · exact hclosed
  · rcases hmem hx with hx | rfl
    · have htrack := h.tracked p hp' x hx ht fun y hy => ho y (List.mem_append_left _ hy)
      exact ⟨htrack.call, htrack.handed, htrack.passed⟩
    · refine ⟨fun i hi pc hc => ?_, fun hh => absurd (h.poll.calls x hh) hfresh, ?_⟩
      · obtain ⟨page, y, todo, cursor, settled, pages, pc', heq, hcall⟩ := h.current i hi
        cases hc.symm.trans hcall
        exact absurd (h.mem_history heq) hfresh
      · rintro ⟨cursor, hc, hle⟩
        rcases h.poll.persisted cursor hc with hzero | ⟨y, hy, hplace⟩
        · omega
        · have := last y hy
          omega

theorem Tracks.hand {w : World} {page todo : List HorizonPayment} {cursor : String}
    {settled pages : ℕ} (timing : TimingConfig) (h : Tracks position known d)
    (heq : d.poll.pc = .records page (hp :: todo) cursor settled pages)
    (hs : World.step env d.world (.reconcile hp) = some w) :
    Tracks position known { d with world := w, current := some d.world.calls.length } := by
  have hstart : Tracks position known { d with world := w } := by
    have hok : d.InTime position (.world (.reconcile hp)) := ⟨by simp [lookedUp], trivial⟩
    have ha : d.Allowed timing (.reconcile hp) := h.mem_history heq
    exact h.world hok ha hs
  have hcall : w.calls[d.world.calls.length]? = some (.reconcile hp (Reconcile.start hp)) := by
    cases hs
    simp [World.start]
  refine ⟨hstart.sound, hstart.watched, hstart.clock, hstart.poll, hstart.positive, hstart.closed,
    hstart.handed, ?_, fun p hp' x hx ht ho => ?_⟩
  · intro i hi
    cases hi
    exact ⟨page, hp, todo, cursor, settled, pages, _, heq, hcall⟩
  · have htrack := hstart.tracked p hp' x hx ht ho
    refine ⟨fun i hi pc hc => ?_, htrack.handed, htrack.passed⟩
    cases hi
    cases hc.symm.trans hcall
    left
    simp [Reconcile.start, ht.1.1.memo, ReconcilePc.Early]

theorem Tracks.result {w : Poller} {result : ReconcileResult} {x : HorizonPayment}
    (h : Tracks position known d) (hi : d.current = some i)
    (hc : d.world.calls[i]? = some (.reconcile x (.done result)))
    (hs : Poller.step position d.poll (.reconciled result) = some w) :
    Tracks position known { d with poll := w, current := none } := by
  have hpoll := h.poll.step hs
  obtain ⟨page, hp, todo, cursor, settled, pages, pc, heq, hcall⟩ := h.current i hi
  cases hc.symm.trans hcall
  cases Poller.step_moves hs with
  | record heq' =>
    cases heq.symm.trans heq'
    refine ⟨h.sound, h.watched, h.clock, hpoll, h.positive, h.closed, h.handed, by simp,
      fun p hp' y hy ht ho => ?_⟩
    have htrack := h.tracked p hp' y hy ht ho
    refine ⟨by simp, fun hh => ?_, htrack.passed⟩
    rcases Poller.handed_append.mp hh with hh | rfl
    · exact htrack.handed hh
    · exact (htrack.call i hi _ hcall).resolve_left id

theorem Tracks.step {e : DetectorEvent} (hok : d.InTime position e)
    (hs : step env timing position d e = some t) (h : Tracks position known d) :
    Tracks position known t := by
  cases e with
  | world e =>
    simp only [Detector.step] at hs
    split_ifs at hs with ha
    obtain ⟨w, hw, rfl⟩ := Option.map_eq_some_iff.mp hs
    exact h.world hok ha hw
  | lands hp =>
    simp only [Detector.step] at hs
    split_ifs at hs with hclosed
    obtain ⟨w, hw, rfl⟩ := Option.map_eq_some_iff.mp hs
    exact h.lands hclosed hw
  | poll =>
    obtain ⟨w, hw, rfl⟩ := Option.map_eq_some_iff.mp hs
    exact h.cycle (.inl rfl) (fun _ he => by cases he) hw d.since
  | reply =>
    obtain ⟨w, hw, rfl⟩ := Option.map_eq_some_iff.mp hs
    refine h.cycle (.inr rfl) (fun token _ heq => ?_) hw _
    have hbase := hok.2
    simpa only [heq] using hbase
  | hand =>
    simp only [Detector.step] at hs
    split at hs
    · next heq =>
      obtain ⟨w, hw, rfl⟩ := Option.map_eq_some_iff.mp hs
      exact h.hand timing heq hw
    · cases hs
  | result =>
    simp only [Detector.step] at hs
    split at hs
    · next heq =>
      obtain ⟨i, hi, hc⟩ := Option.bind_eq_some_iff.mp heq
      obtain ⟨w, hw, rfl⟩ := Option.map_eq_some_iff.mp hs
      exact h.result hi hc hw
    · cases hs

/-- What Horizon lists at the start: records in the order of their tokens, after the token
`"0"`, of ledgers that have closed. -/
structure Listed (position : String → ℕ) (now : ℤ) (history : List HorizonPayment) : Prop where
  ascending : Poller.Ascending position history
  positive : ∀ hp ∈ history, position "0" < Poller.place position hp
  closed : ∀ hp ∈ history, ∀ closed ∈ hp.createdAt, closed ≤ strftime now

theorem Tracks.start {now : ℤ} {history : List HorizonPayment} (hnow : InRange now)
    (h : Listed position now history) : Tracks position history (start now history) :=
  ⟨World.Sound.init, fun _ hp => absurd hp List.not_mem_nil, hnow, .start h.ascending, h.positive,
    h.closed, fun _ hp => absurd hp List.not_mem_nil, by simp [Detector.start],
    fun _ hp => absurd hp List.not_mem_nil⟩

theorem Tracks.noneLost (h : Tracks position known d) : d.NoneLost position := by
  intro p hp' hp hin ht ho hpass
  exact (h.tracked p hp' hp hin ht ho).passed hpass

/-- In a run whose records are looked up in time no payment is lost: once the poller has passed
a record that paid its intent in time, the record is credited. -/
theorem noneLost_of_run {now : ℤ} {history : List HorizonPayment} {es : List DetectorEvent}
    (hnow : InRange now) (hh : Listed position now history)
    (hok : Along (step env timing position) (InTime position) (start now history) es)
    (hr : run (step env timing position) (start now history) es = some d) :
    d.NoneLost position :=
  (hok.invariant (fun _ _ _ ho hs hi => hi.step ho hs) hr (Tracks.start hnow hh)).noneLost

end
end Detector

/-! A deployment with a TTL of 20 seconds that is polled every 10 seconds. -/
namespace Sample

def briefEnv : Env := { env with config := { env.config with paymentTtlSecs := 20 } }

def timing : TimingConfig :=
  { pollIntervalSecs := 10, cursorStalenessMultiple := 3, webhookRetryDelayMs := 2000,
    webhookRetryMaxDelayMs := 60000, webhookTimeoutSecs := 10, requestTimeoutSecs := 30 }

def deliveryConfig : DeliveryConfig :=
  { redriveMaxAttempts := 10, redriveGraceSecs := 60, redriveBackoffInitialSecs := 30,
    redriveBackoffMaxSecs := 3600, redriveJitterSecs := 15, redriveConcurrency := 5,
    webhookDeliveryRetentionDays := 30, idempotencyRetentionDays := 7 }

/-- A payment of the whole amount, in a ledger that closed at `closed`. -/
def paidAt (closed : String) : HorizonPayment :=
  { record "11" "10.0000000" "TX" "7" with createdAt := some closed }

def opened : List DetectorEvent := [.poll, .reply, .reply, .reply, .reply] ++ create.map .world

def found (steps : List Event) : List DetectorEvent :=
  [.poll, .reply, .reply, .hand] ++ steps.map .world ++ [.result, .reply]

end Sample

namespace Detector

/-- A payment after 5 seconds is found by the cycle after 10 seconds. -/
theorem noneLost_of_run_found :
    let es := Sample.opened ++ [.world (.advance 5), .lands (Sample.paidAt "1970-01-01T00:00:05Z"),
      .world (.advance 5)] ++ Sample.found (Sample.turns 20 [1, 1, 1, 1, 1, 1])
    ∃ d, run (step Sample.briefEnv Sample.timing Sample.position) (start 0 []) es = some d ∧
      d.poll.cursor = some "7" ∧ d.world.db.processedTransactions.rows.map (·.txHash) = ["TX"] ∧
      d.NoneLost Sample.position := by
  intro es
  have hok : Along (step Sample.briefEnv Sample.timing Sample.position) (InTime Sample.position)
      (start 0 []) es := by decide +kernel
  obtain ⟨d, hd, hc, htx⟩ := exists_of_run (step Sample.briefEnv Sample.timing Sample.position)
    (start 0 []) es (P := fun d => d.poll.cursor = some "7" ∧
      d.world.db.processedTransactions.rows.map (·.txHash) = ["TX"]) (by decide +kernel)
  exact ⟨d, hd, hc, htx, noneLost_of_run (by decide) ⟨⟨by simp, by simp⟩, by simp, by simp⟩ hok hd⟩

/-- A payment after 15 seconds is looked up after 20 seconds, when its intent has expired. -/
theorem late_lookup_loses_payment :
    validateTiming Sample.briefEnv.config Sample.deliveryConfig Sample.timing = .ok () ∧
    ∃ d, run (step Sample.briefEnv Sample.timing Sample.position) (start 0 [])
        (Sample.opened ++ [.world (.advance 10), .poll, .reply, .reply, .reply, .world (.advance 5),
          .lands (Sample.paidAt "1970-01-01T00:00:15Z"), .world (.advance 5)] ++
          Sample.found (Sample.turns 20 [1])) = some d ∧
      (∃ p ∈ d.world.db.payments.rows, p.createdAt = "1970-01-01T00:00:00Z" ∧
        p.expiresAt = "1970-01-01T00:00:20Z" ∧ OnTime p (Sample.paidAt "1970-01-01T00:00:15Z")) ∧
      d.poll.history = [Sample.paidAt "1970-01-01T00:00:15Z"] ∧ d.poll.cursor = some "7" ∧
      d.world.db.processedTransactions.rows = [] ∧ ¬ d.NoneLost Sample.position :=
  ⟨by decide +kernel, exists_of_run _ _ _ (by decide +kernel)⟩

end Detector
end StellarGate
