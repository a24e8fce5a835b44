import StellarGate.Api.Invoice
import StellarGate.Api.Merchant
import StellarGate.Money.Grammar
import StellarGate.Settlement.Finality

/-! The amount text of an intent: one text for each number, the same in
every place that shows it. -/
namespace StellarGate
open Base Money

/-- What shows the amount of an intent to its merchant, by the id of the intent: a response of
`create`, of `get_by_id` or of `list`, or the body of a webhook. -/
inductive World.Shows (w : World) : String → String → Prop
  | created {req : CreateRequest} {status : ℕ} {p : Payment}
      (h : .create req (.done (.shown status p)) ∈ w.calls) : w.Shows p.id (toJson p).amount
  | got {hash : String → String} {x : Exchange} {authorization : Option String} {id : String}
      {keys : KeyDb} {view : PaymentView}
      (h : (Merchant.getById x hash authorization id ⟨w.db, keys⟩).1 = .payment view) :
      w.Shows view.id view.amount
  | listed {merchantId : String} {q : ListQuery} {page : PaymentsPage} {view : PaymentView}
      (h : Listing.list merchantId q w.db = .ok page) (hv : view ∈ page.payments) :
      w.Shows view.id view.amount
  | sent {d : Dispatch} (h : d ∈ w.dispatched) :
      w.Shows d.payment.id (buildPayload d.payment d.event d.delta).amount

/-- The intents that a response of `create` holds. -/
def Call.shown : Call → List Payment
  | .create _ (.done (.shown _ p)) => [p]
  | _ => []

section Step
variable {env : Env} {now : ℤ} {r : Reply} {db db' : Db} {c : Call} {p : Payment} {id : String}
  {handed : List HorizonPayment}

theorem Db.getPayment_known (h : db.getPayment id = some p) : Known db p := by
  obtain ⟨q, hq, rfl, -⟩ := Db.getPayment_eq_some h
  exact ⟨q, hq, rfl⟩

theorem Merchant.getById_shows {hash : String → String} {x : Exchange}
    {authorization : Option String} {s : Store} {view : PaymentView}
    (h : (Merchant.getById x hash authorization id s).1 = .payment view) :
    ∃ q, Known s.db q ∧ toJson q = view := by
  unfold Merchant.getById at h
  split at h
  · cases h
  · next p hp =>
    refine ⟨p, Db.getPayment_known hp, ?_⟩
    split at h
    · cases h
    · split at h
      · cases h
      · simp only at h
        split_ifs at h
        exact MerchantResponse.payment.inj h

theorem Listing.list_shows {merchantId : String} {q : ListQuery} {page : PaymentsPage}
    {view : PaymentView} (h : Listing.list merchantId q db = .ok page) (hv : view ∈ page.payments) :
    ∃ p, Known db p ∧ toJson p = view := by
  have hrow : ∀ (n : ℤ) (rows : List Payment), (∀ p ∈ rows, p ∈ db.payments.rows) →
      view ∈ ((Db.limit n rows).map rowToPayment).map toJson → ∃ p, Known db p ∧
      toJson p = view := by
    intro n rows hrows hmem
    obtain ⟨shown, hshown, rfl⟩ := List.mem_map.mp hmem
    obtain ⟨p, hp, rfl⟩ := List.mem_map.mp hshown
    exact ⟨rowToPayment p, ⟨p, hrows p (Db.mem_limit hp), rfl⟩, rfl⟩
  unfold Listing.list at h
  split at h
  · cases h
  · split at h
    · split at h
      · cases h
      · cases h
        exact hrow _ _ (fun p hp => (mem_selectNewest.mp hp).1) hv
    · cases h
      exact hrow _ _ (fun p hp => (mem_selectNewest.mp (List.mem_of_mem_drop hp)).1) hv

theorem Call.shown_create_of_ne {req : CreateRequest} {pc : CreatePc}
    (h : ∀ status p, pc ≠ .done (.shown status p)) : (Call.create req pc).shown = [] := by
  cases pc with
  | done response =>
    cases response with
    | shown status p => exact absurd rfl (h status p)
    | failed e => rfl
  | _ => rfl

theorem Create.step_shown {req : CreateRequest} {pc : CreatePc}
    (h : ∀ p ∈ (Call.create req pc).shown, Known (Create.step env now r req pc db).2 p) :
    ∀ p ∈ (Call.create req (Create.step env now r req pc db).1).shown,
      Known (Create.step env now r req pc db).2 p := by
  have hread : ∀ {id : String} {status : ℕ} {p : Payment}, db.getPayment id = some p →
      ∀ q ∈ (Call.create req (.done (.shown status p))).shown, Known db q := by
    intro id status p hp q hq
    rw [List.mem_singleton.mp hq]
    exact Db.getPayment_known hp
  have hnone : ∀ db' : Db, ∀ p ∈ ([] : List Payment), Known db' p :=
      fun _ _ hp => absurd hp List.not_mem_nil
  cases pc with
  | lookup key =>
    simp only [Create.step]
    split <;> exact hnone _
  | getExisting key existingId =>
    simp only [Create.step]
    split
    · next hp => exact hread hp
    · exact hnone _
  | deleteStale key => exact hnone _
  | mint key => cases key <;> exact hnone _
  | saveKey key id => exact hnone _
  | rereadKey key id =>
    simp only [Create.step]
    split_ifs <;> exact hnone _
  | waitWinner canonicalId tries =>
    simp only [Create.step]
    split
    · next hp => exact hread hp
    · split_ifs <;> exact hnone _
  | memo id tries =>
    simp only [Create.step]
    split_ifs <;> exact hnone _
  | insert id memo =>
    simp only [Create.step]
    split <;> exact hnone _
  | reread id =>
    simp only [Create.step]
    split
    · next hp => exact hread hp
    · exact hnone _
  | done response => exact h

theorem Call.step_shown (h : ∀ p ∈ c.shown, Known (c.step env now r db).db p) :
    ∀ p ∈ (c.step env now r db).next.shown, Known (c.step env now r db).db p := by
  cases c with
  | create req pc => exact Create.step_shown h
  | _ => exact fun _ hp => absurd hp List.not_mem_nil

theorem Call.fail_shown : (c.fail r).1.shown = c.shown ∨ (c.fail r).1.shown = [] := by
  cases c with
  | create req pc =>
    cases pc with
    | done response => exact .inl rfl
    | mint key => exact .inr rfl
    | _ => exact .inr rfl
  | _ => exact .inr rfl

theorem Call.cut_shown : c.cut.shown = c.shown ∨ c.cut.shown = [] := by
  unfold Call.cut
  split_ifs
  · exact .inl rfl
  · exact .inr rfl

end Step

/-- Every intent that was shown, announced or is still to be announced is a copy of a stored row. -/
structure World.Copied (w : World) : Prop where
  sound : w.Sound
  sent : ∀ d ∈ w.dispatched, Known w.db d.payment
  owed : ∀ c ∈ w.calls, ∀ d ∈ c.undispatched, Known w.db d.payment
  shown : ∀ c ∈ w.calls, ∀ p ∈ c.shown, Known w.db p

namespace World
variable {env : Env} {w t : World} {e : Event} {es : List Event} {now : ℤ} {id text : String}

theorem Copied.init : (init now).Copied :=
  ⟨Sound.init, (fun _ h => nomatch h), (fun _ h => nomatch h), fun _ h => nomatch h⟩

theorem Copied.turn {i : ℕ} {c : Call} {sent : List Dispatch} (h : w.Copied) (ht : t.Sound)
    (hg : Grows w.db t.db) (hcalls : t.calls = w.calls.set i c)
    (hsent : t.dispatched = w.dispatched ++ sent)
    (hnew : ∀ d ∈ sent ++ c.undispatched, Known t.db d.payment)
    (hshown : ∀ p ∈ c.shown, Known t.db p) :
    t.Copied := by
  refine ⟨ht, fun d hd => ?_, ?_, ?_⟩
  · rw [hsent] at hd
    rcases List.mem_append.mp hd with hd | hd
    · exact (h.sent d hd).mono hg
    · exact hnew d (List.mem_append_left _ hd)
  · rw [hcalls]
    apply Machine.forall_mem_set
    · exact fun c hc d hd => (h.owed c hc d hd).mono hg
    · exact fun d hd => hnew d (List.mem_append_right _ hd)
  · rw [hcalls]
    apply Machine.forall_mem_set
    · exact fun c hc p hp => (h.shown c hc p hp).mono hg
    · exact hshown

theorem Copied.start {c : Call} {handed : List HorizonPayment} (h : w.Copied)
    (hs : World.Sound { w.start c with handed }) (howed : c.undispatched = [])
    (hshown : c.shown = []) :
    World.Copied { w.start c with handed } := by
  refine ⟨hs, h.sent, fun d hd x hx => ?_, fun d hd x hx => ?_⟩
  · rcases List.mem_append.mp hd with hd | hd
    · exact h.owed d hd x hx
    · rw [List.mem_singleton.mp hd, howed] at hx
      cases hx
  · rcases List.mem_append.mp hd with hd | hd
    · exact h.shown d hd x hx
    · rw [List.mem_singleton.mp hd, hshown] at hx
      cases hx

theorem Copied.cut {c : Call} (h : w.Copied) (hc : c ∈ w.calls) :
    (∀ d ∈ c.cut.undispatched, Known w.db d.payment) ∧ ∀ p ∈ c.cut.shown, Known w.db p := by
  constructor
  · rcases c.cut_undispatched with hs | hs
    · rw [hs]
      exact h.owed c hc
    · rw [hs]
      exact fun _ hd => absurd hd List.not_mem_nil
  · rcases c.cut_shown with hs | hs
    · rw [hs]
      exact h.shown c hc
    · rw [hs]
      exact fun _ hp => absurd hp List.not_mem_nil

theorem Copied.step (hs : step env w e = some t) (h : w.Copied) : t.Copied := by
  have hsound := h.sound.step hs
  have hg := step_grows hs h.sound
  cases e with
  | advance secs =>
    cases hs
    exact ⟨hsound, h.sent, h.owed, h.shown⟩
  | reconcile hp =>
    cases hs
    exact h.start hsound (Reconcile.start_undispatched hp) rfl
  | sweep =>
    cases hs
    exact h.start hsound rfl rfl
  | create req =>
    cases hs
    refine h.start hsound rfl (Call.shown_create_of_ne ?_)
    intro status p
    unfold Create.start
    split
    · simp
    · split <;> simp
  | exec i r =>
    obtain ⟨c, hc, -, rfl⟩ := step_exec hs
    have hmem := List.mem_of_getElem? hc
    obtain ⟨new, heq, -, hnew⟩ := Call.step_undispatched env w.now r (h.sound.calls c hmem)
    refine h.turn hsound hg rfl rfl ?_ (Call.step_shown fun p hp => (h.shown c hmem p hp).mono hg)
    rw [heq]
    intro d hd
    rcases List.mem_append.mp hd with hd | hd
    · exact (h.owed c hmem d hd).mono hg
    · exact hnew d hd
  | fail i r =>
    obtain ⟨c, hc, -, rfl⟩ := step_fail hs
    have hmem := List.mem_of_getElem? hc
    refine h.turn hsound hg rfl rfl ?_ ?_
    · rw [Call.fail_undispatched]
      exact h.owed c hmem
    · rcases Call.fail_shown (c := c) (r := r) with hf | hf
      · rw [hf]
        exact h.shown c hmem
      · rw [hf]
        exact fun _ hp => absurd hp List.not_mem_nil
  | kill i =>
    obtain ⟨c, hc, rfl⟩ := step_kill hs
    obtain ⟨howed, hshown⟩ := h.cut (List.mem_of_getElem? hc)
    exact h.turn hsound hg rfl (List.append_nil _).symm howed hshown
  | crash =>
    cases hs
    refine ⟨hsound, h.sent, fun d hd => ?_, fun d hd => ?_⟩
    · obtain ⟨c, hc, rfl⟩ := List.mem_map.mp hd
      exact (h.cut hc).1
    · obtain ⟨c, hc, rfl⟩ := List.mem_map.mp hd
      exact (h.cut hc).2

theorem copied_of_reaches (h : Reaches env (init now) es w) : w.Copied :=
  run_invariant (fun _ _ _ => Copied.step) h .init

/-- Every place that shows an amount writes that of the stored intent in canonical form. -/
theorem Copied.shows (h : w.Copied) (hs : w.Shows id text) :
    ∃ q, q.id = id ∧ Known w.db q ∧ text = (canonicalAmount? q.amount).getD q.amount := by
  cases hs with
  | created hc => exact ⟨_, rfl, h.shown _ hc _ (List.mem_singleton_self _), rfl⟩
  | got hgot =>
    obtain ⟨q, hknown, rfl⟩ := Merchant.getById_shows hgot
    exact ⟨q, rfl, hknown, rfl⟩
  | listed hlist hv =>
    obtain ⟨q, hknown, rfl⟩ := Listing.list_shows hlist hv
    exact ⟨q, rfl, hknown, rfl⟩
  | sent hd => exact ⟨_, rfl, h.sent _ hd, rfl⟩

theorem shows_asked {req : CreateRequest} {p : Payment} {n : ℤ} (hr : Reaches env (init now) es w)
    (hc : .create req (.done (.shown 201 p)) ∈ w.calls) (hn : parseStroops req.amount = some n)
    (hs : w.Shows p.id text) : text = stroopsToString n := by
  obtain ⟨hasked, q, hq, hterms⟩ := told_of_run hr hc
  obtain ⟨q', hid, hknown, rfl⟩ := (copied_of_reaches hr).shows hs
  have hsame := hknown.eq_of_id hq ((Payment.id_eq_of_terms hterms).trans hid.symm)
  obtain ⟨m, hm, hamount⟩ := hasked.amount
  obtain ⟨hpos, hmax⟩ := parseStroops_bounds hm
  cases Option.some.inj (hn.symm.trans hm)
  have htext : q'.amount = stroopsToString n := by
    rw [← Payment.amount_eq_of_terms hsame, Payment.amount_eq_of_terms hterms, hamount]
  rw [htext, canonicalAmount?, parseStroops_stroopsToString hpos hmax]
  rfl

/-- Amount text is canonical: the shortest of its number, read back as that number, the same in
every place for requests of the same number and different for requests of different ones, and stable
when it is sent again. -/
theorem amount_text_canonical (hr : Reaches env (init now) es w) :
    (∀ n, 0 < n → n < 2 ^ 63 →
      parseStroops (stroopsToString n) = some n ∧ ShortestText n (stroopsToString n)) ∧
    ∀ a b p q s t, .create a (.done (.shown 201 p)) ∈ w.calls →
      .create b (.done (.shown 201 q)) ∈ w.calls →
      w.Shows p.id s → w.Shows q.id t →
        (∀ m n, SpellsStroops a.amount m → SpellsStroops b.amount n → (s = t ↔ m = n)) ∧
          (b.amount = s → t = s) := by
  constructor
  · intro n hpos hmax
    have hmax : n ≤ i64Max := by
      unfold i64Max
      omega
    exact ⟨parseStroops_stroopsToString hpos hmax, shortestText_stroopsToString hpos hmax⟩
  intro a b p q s t ha hb hs ht
  constructor
  · intro m n hm hn
    have hm := parseStroops_iff_spellsStroops.mpr hm
    have hn := parseStroops_iff_spellsStroops.mpr hn
    obtain ⟨hmpos, hmmax⟩ := parseStroops_bounds hm
    obtain ⟨hnpos, hnmax⟩ := parseStroops_bounds hn
    rw [shows_asked hr ha hm hs, shows_asked hr hb hn ht]
    constructor
    · exact stroopsToString_injOn hmpos hmmax hnpos hnmax
    · exact fun h => congrArg stroopsToString h
  · intro hresent
    obtain ⟨⟨-, -, n, hn, -⟩, -⟩ := told_of_run hr ha
    obtain ⟨hpos, hmax⟩ := parseStroops_bounds hn
    have hs' := shows_asked hr ha hn hs
    rw [hs'] at hresent ⊢
    exact shows_asked hr hb (hresent ▸ parseStroops_stroopsToString hpos hmax) ht

/-- Two intents, asked for with two texts of one number. -/
theorem amount_text_canonical_sample :
    ∃ w, Reaches Sample.env (init 0) (.create { Sample.request with amount := "1.50" } ::
        .create { Sample.request with amount := " 01.5 " } :: Sample.turns 10 [0, 0, 0, 0] ++
        Sample.turns 20 [1, 1, 1, 1]) w ∧
      (∃ p q, .create { Sample.request with amount := "1.50" } (.done (.shown 201 p)) ∈ w.calls ∧
        .create { Sample.request with amount := " 01.5 " } (.done (.shown 201 q)) ∈ w.calls) ∧
      (∀ n, 0 < n → n < 2 ^ 63 →
        parseStroops (stroopsToString n) = some n ∧ ShortestText n (stroopsToString n)) ∧
      ∀ a b p q s t, .create a (.done (.shown 201 p)) ∈ w.calls →
      .create b (.done (.shown 201 q)) ∈ w.calls →
        w.Shows p.id s → w.Shows q.id t →
          (∀ m n, SpellsStroops a.amount m → SpellsStroops b.amount n → (s = t ↔ m = n)) ∧
            (b.amount = s → t = s) := by
  obtain ⟨w, hw, p, -, q, -, hp, hq⟩ := exists_of_run (step Sample.env) (init 0)
    (.create { Sample.request with amount := "1.50" } ::
      .create { Sample.request with amount := " 01.5 " } :: Sample.turns 10 [0, 0, 0, 0] ++
      Sample.turns 20 [1, 1, 1, 1])
    (P := fun w => ∃ p ∈ w.db.payments.rows, ∃ q ∈ w.db.payments.rows,
      .create { Sample.request with amount := "1.50" } (.done (.shown 201 (rowToPayment p))) ∈
      w.calls ∧
      .create { Sample.request with amount := " 01.5 " } (.done (.shown 201 (rowToPayment q))) ∈
      w.calls)
    (by decide +kernel)
  exact ⟨w, hw, ⟨_, _, hp, hq⟩, amount_text_canonical hw⟩

end World
end StellarGate
