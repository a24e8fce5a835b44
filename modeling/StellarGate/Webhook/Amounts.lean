import StellarGate.Settlement.Finality

/-! The amounts of the webhooks that `settle` sends: what is asked, what is
paid and the difference. -/
namespace StellarGate
open Base

/-- The text `s` is the canonical form of the amount `n`. -/
def Denotes (s : String) (n : ℤ) : Prop := parseStroops s = some n ∧ s = stroopsToString n

def Payload.AddsUp (p : Payload) : Prop :=
  ∃ amount paid paidAmount, Denotes p.amount amount ∧ p.paidAmount = some paidAmount ∧
  Denotes paidAmount paid ∧
    match p.event with
    | .completed => p.status = .completed ∧ paidAmount = p.amount ∧ p.delta = none
    | .overpaid =>
      p.status = .completed ∧ 0 < paid - amount ∧ ∃ delta, p.delta = some delta ∧
      Denotes delta (paid - amount)
    | .underpaid =>
      p.status = .underpaid ∧ 0 < amount - paid ∧ ∃ delta, p.delta = some delta ∧
      Denotes delta (amount - paid)
    | .expired => False

/-- A call of `dispatch` that `settle` makes. -/
def Dispatch.FromSettle (d : Dispatch) : Prop :=
  ∃ payment total txHash, d = Reconcile.dispatchOf payment total txHash

section Payload
variable {p : Payment} {n total : ℤ}

theorem denotes_stroopsToString (hpos : 0 < n) (hmax : n ≤ i64Max) :
    Denotes (stroopsToString n) n :=
  ⟨parseStroops_stroopsToString hpos hmax, rfl⟩

theorem canonicalAmount?_of_parse {s : String} (h : parseStroops s = some n) :
    canonicalAmount? s = some (stroopsToString n) := by
  unfold canonicalAmount?
  rw [h, Option.map_some]

theorem canonicalAmount?_stroopsToString (hpos : 0 < n) (hmax : n ≤ i64Max) :
    canonicalAmount? (stroopsToString n) = some (stroopsToString n) :=
  canonicalAmount?_of_parse (parseStroops_stroopsToString hpos hmax)

theorem settlementOf_cases (hprice : parseStroops p.amount = some n) :
    (total = n ∧ settlementOf p total = ⟨.completed, stroopsToString total, .completed, none⟩) ∨
    (n < total ∧ settlementOf p total =
      ⟨.completed, stroopsToString total, .overpaid, some (stroopsToString (total - n))⟩) ∨
    (total < n ∧ settlementOf p total =
      ⟨.underpaid, stroopsToString total, .underpaid, some (stroopsToString (n - total))⟩) := by
  have hexpected : expectedStroops p = n := by
    unfold expectedStroops
    rw [hprice, Option.getD_some]
  unfold settlementOf
  rw [hexpected]
  rcases lt_trichotomy total n with hlt | heq | hgt
  · right; right
    exact ⟨hlt, by rw [if_neg hlt.ne, if_neg hlt.not_gt]⟩
  · left
    exact ⟨heq, if_pos heq⟩
  · right; left
    exact ⟨hgt, by rw [if_neg hgt.ne', if_pos hgt]⟩

/-- The events of `settle` are not the sweep's. -/
theorem Dispatch.FromSettle.event_ne {d : Dispatch} (h : d.FromSettle) : d.event ≠ .expired := by
  obtain ⟨p, total, txHash, rfl⟩ := h
  simp only [Reconcile.dispatchOf, settlementOf]
  split_ifs <;> simp

theorem Reconcile.dispatchOf_addsUp (hprice : parseStroops p.amount = some n) (hpos : 0 < total)
    (hmax : total ≤ i64Max) (txHash : String) :
    let d := dispatchOf p total txHash
    (buildPayload d.payment d.event d.delta).AddsUp := by
  intro d
  obtain ⟨hn, hn'⟩ := parseStroops_bounds hprice
  have hcanonical := canonicalAmount?_stroopsToString hpos hmax
  have hamount : (buildPayload d.payment d.event d.delta).amount = stroopsToString n :=
    congrArg (Option.getD · p.amount) (canonicalAmount?_of_parse hprice)
  have hpaid : (buildPayload d.payment d.event d.delta).paidAmount =
      some (stroopsToString total) := by
    show (some (settlementOf p total).paidAmount).bind canonicalAmount? = _
    rw [settlementOf_paidAmount, Option.bind_some, hcanonical]
  refine ⟨n, total, _, ?_, hpaid, denotes_stroopsToString hpos hmax, ?_⟩
  · rw [hamount]
    exact denotes_stroopsToString hn hn'
  rcases settlementOf_cases hprice with ⟨heq, hs⟩ | ⟨hgt, hs⟩ | ⟨hlt, hs⟩
  · have hd : d = ⟨settled p (settlementOf p total) txHash, .completed, none⟩ := by
      show Dispatch.mk _ _ _ = _
      rw [hs]
    rw [hamount, heq, hd]
    exact ⟨by rw [hs]; rfl, rfl, rfl⟩
  · have hd : d = ⟨settled p (settlementOf p total) txHash, .overpaid,
        some (stroopsToString (total - n))⟩ := by
      show Dispatch.mk _ _ _ = _
      rw [hs]
    rw [hd]
    have hdelta : 0 < total - n := by omega
    refine ⟨by rw [hs]; rfl, hdelta, _, ?_, denotes_stroopsToString hdelta (by omega)⟩
    exact canonicalAmount?_stroopsToString hdelta (by omega)
  · have hd : d = ⟨settled p (settlementOf p total) txHash, .underpaid,
        some (stroopsToString (n - total))⟩ := by
      show Dispatch.mk _ _ _ = _
      rw [hs]
    rw [hd]
    have hdelta : 0 < n - total := by omega
    refine ⟨by rw [hs]; rfl, hdelta, _, ?_, denotes_stroopsToString hdelta (by omega)⟩
    exact canonicalAmount?_stroopsToString hdelta (by omega)

end Payload

/-- A call of `dispatch` of the sweep, or one of `settle` whose amounts add up. -/
def Dispatch.Summed (d : Dispatch) : Prop :=
  d.event ≠ .expired → (buildPayload d.payment d.event d.delta).AddsUp

section Step
variable {env : Env} {now : ℤ} {r : Reply} {db : Db} {c : Call} {handed : List HorizonPayment}

variable (env now r) in
/-- What a step sends or takes on is what the call owed, the sweep's or the one of a settlement. -/
theorem Call.step_promises (hc : c.Sound db handed) {d : Dispatch}
    (hd : d ∈ (c.step env now r db).dispatched ++ (c.step env now r db).next.undispatched) :
    d ∈ c.undispatched ∨ d.event = .expired ∨
      ∃ hp p total, c = .reconcile hp (.update p total) ∧
      d = Reconcile.dispatchOf p total hp.hash := by
  obtain ⟨new, heq, hkey, -⟩ := Call.step_undispatched env now r hc
  rw [heq] at hd
  rcases List.mem_append.mp hd with hd | hd
  · exact .inl hd
  have hevent : (d.payment.id, d.event) ∈ (c.step env now r db).committed :=
    hkey ▸ List.mem_map_of_mem hd
  rcases Call.step_committed env now r db c with hnone | ⟨hp, p, total, rfl, hu, -⟩ | ⟨rows,
    -, -, hrows⟩
  · rw [hnone] at hevent
    cases hevent
  · refine .inr (.inr ⟨hp, p, total, rfl, ?_⟩)
    have hnew : [Reconcile.dispatchOf p total hp.hash] = new := by
      rw [← List.nil_append new]
      refine Eq.trans ?_ heq
      simp only [Call.step, Reconcile.step]
      split
      · next hno =>
        rw [hno] at hu
        cases hu
      · rfl
    rw [← hnew] at hd
    exact List.mem_singleton.mp hd
  · rw [hrows] at hevent
    obtain ⟨q, -, hq⟩ := List.mem_map.mp hevent
    exact .inr (.inl (congrArg Prod.snd hq).symm)

/-- A step keeps the amounts of what it sends and of what it still owes. -/
theorem Call.step_summed (hc : c.Sound db handed) (hrows : ∀ p ∈ db.payments.rows, p.Sound db)
    (h : ∀ d ∈ c.undispatched, d.Summed) :
    ∀ d ∈ (c.step env now r db).dispatched ++ (c.step env now r db).next.undispatched,
      d.Summed := by
  intro d hd
  rcases Call.step_promises env now r hc hd with hd | hexpired | ⟨hp, p, total, rfl, rfl⟩
  · exact h d hd
  · exact fun he => absurd hexpired he
  · obtain ⟨-, ⟨q, hq, hterms⟩, -, hpos, -, hmax⟩ := hc
    have hprice := (hrows q hq).priced
    rw [Payment.amount_eq_of_terms hterms] at hprice
    exact fun _ => Reconcile.dispatchOf_addsUp hprice hpos hmax hp.hash

end Step

/-- The amounts of everything sent and everything owed add up. -/
structure World.Summed (w : World) : Prop where
  sound : w.Sound
  sent : ∀ d ∈ w.dispatched, d.Summed
  owed : ∀ c ∈ w.calls, ∀ d ∈ c.undispatched, d.Summed

namespace World
variable {env : Env} {w t : World} {e : Event} {es : List Event} {now : ℤ}

theorem Summed.init : (init now).Summed :=
  ⟨Sound.init, fun _ h => absurd h List.not_mem_nil, fun _ h => absurd h List.not_mem_nil⟩

theorem Summed.turn {i : ℕ} {c : Call} {t : World} {sent : List Dispatch} (h : w.Summed)
    (ht : t.Sound) (hcalls : t.calls = w.calls.set i c)
    (hsent : t.dispatched = w.dispatched ++ sent) (hnew : ∀ d ∈ sent ++ c.undispatched, d.Summed) :
    t.Summed := by
  refine ⟨ht, fun d hd => ?_, fun d hd x hx => ?_⟩
  · rw [hsent] at hd
    rcases List.mem_append.mp hd with hd | hd
    · exact h.sent d hd
    · exact hnew d (List.mem_append_left _ hd)
  · rw [hcalls] at hd
    rcases List.mem_or_eq_of_mem_set hd with hd | rfl
    · exact h.owed d hd x hx
    · exact hnew x (List.mem_append_right _ hx)

theorem Summed.start {c : Call} {handed : List HorizonPayment} (h : w.Summed)
    (hs : World.Sound { w.start c with handed }) (hc : c.undispatched = []) :
    World.Summed { w.start c with handed } := by
  refine ⟨hs, h.sent, fun d hd x hx => ?_⟩
  rcases List.mem_append.mp hd with hd | hd
  · exact h.owed d hd x hx
  · rw [List.mem_singleton.mp hd, hc] at hx
    cases hx

theorem Summed.cut {c : Call} (h : ∀ d ∈ c.undispatched, d.Summed) :
    ∀ d ∈ c.cut.undispatched, d.Summed := by
  rcases c.cut_undispatched with hs | hs
  · rw [hs]
    exact h
  · rw [hs]
    exact fun _ hd => absurd hd List.not_mem_nil

theorem Summed.step (hs : step env w e = some t) (h : w.Summed) : t.Summed := by
  have hsound := h.sound.step hs
  cases e with
  | advance secs =>
    cases hs
    exact ⟨hsound, h.sent, h.owed⟩
  | reconcile hp =>
    cases hs
    exact h.start hsound (Reconcile.start_undispatched hp)
  | sweep =>
    cases hs
    exact h.start hsound rfl
  | create req =>
    cases hs
    exact h.start hsound rfl
  | exec i r =>
    obtain ⟨c, hc, -, rfl⟩ := step_exec hs
    have hmem := List.mem_of_getElem? hc
    exact h.turn hsound rfl rfl
      (Call.step_summed (h.sound.calls c hmem) h.sound.rows (h.owed c hmem))
  | fail i r =>
    obtain ⟨c, hc, -, rfl⟩ := step_fail hs
    apply h.turn hsound rfl rfl
    rw [Call.fail_undispatched]
    exact h.owed c (List.mem_of_getElem? hc)
  | kill i =>
    obtain ⟨c, hc, rfl⟩ := step_kill hs
    apply h.turn hsound rfl (List.append_nil _).symm
    exact Summed.cut (h.owed c (List.mem_of_getElem? hc))
  | crash =>
    cases hs
    refine ⟨hsound, h.sent, fun d hd => ?_⟩
    obtain ⟨c, hc, rfl⟩ := List.mem_map.mp hd
    exact Summed.cut (h.owed c hc)

/-- In every payload that `settle` sends the amounts add up. -/
theorem payload_addsUp {d : Dispatch} (h : Reaches env (init now) es w) (hd : d ∈ w.dispatched)
    (hsettle : d.FromSettle) : (buildPayload d.payment d.event d.delta).AddsUp := by
  have hw : w.Summed := run_invariant (fun _ _ _ => Summed.step) h Summed.init
  exact hw.sent d hd hsettle.event_ne

/-- An intent of ten, paid with four and then with eight. -/
theorem payload_addsUp_sample :
    ∃ w d, Reaches Sample.env (init 0) (Sample.create ++
        .reconcile (Sample.record "11" "4.0000000" "TXA" "1") ::
          Sample.turns 20 [1, 1, 1, 1, 1, 1] ++
        .reconcile (Sample.record "11" "8" "TXB" "2") :: Sample.turns 30 [2, 2, 2, 2, 2, 2]) w ∧
      d ∈ w.dispatched ∧ d.event = .overpaid ∧ (buildPayload d.payment d.event d.delta).AddsUp := by
  obtain ⟨w, hw, d, hd, hevent, hsettle⟩ :=
      exists_of_run (step Sample.env) (init 0)
        (Sample.create ++ .reconcile (Sample.record "11" "4.0000000" "TXA" "1") :: Sample.turns 20
          [1, 1, 1, 1, 1, 1] ++
      .reconcile (Sample.record "11" "8" "TXB" "2") :: Sample.turns 30 [2, 2, 2, 2, 2, 2])
    (P := fun w => ∃ d ∈ w.dispatched, d.event = .overpaid ∧
      d = Reconcile.dispatchOf d.payment 120000000 "TXB") (by decide +kernel)
  exact ⟨w, d, hw, hd, hevent, payload_addsUp hw hd ⟨_, _, _, hsettle⟩⟩

end World
end StellarGate
