import StellarGate.Settlement.Finality

/-! Committed transitions and the rows of `webhook_deliveries` that announce them. -/
namespace StellarGate
open Base

/-- What a delivery row announces: the payment and the event. -/
def WebhookDelivery.subject (x : WebhookDelivery) : String × Option String :=
  (x.paymentId, x.eventType)

/-- The rows of `webhook_deliveries` for a payment and an event. -/
def Db.deliveriesFor (k : String × WebhookEvent) (db : Db) : List WebhookDelivery :=
  db.webhookDeliveries.rows.filter fun x => x.subject = (k.1, some k.2.name)

/-- The payment `id` has a `webhook_url`. -/
def Db.HasUrl (id : String) (db : Db) : Prop :=
  ∃ p ∈ db.payments.rows, p.id = id ∧ p.webhookUrl.isSome

def Dispatch.hasUrl (d : Dispatch) : Bool := d.payment.webhookUrl.isSome

section Deliveries
variable {env : Env} {now : ℤ} {r : Reply} {db db' : Db} {c : Call} {d : Dispatch}

/-- The delivery rows after a step that made the calls `sent` of `dispatch`. -/
structure Delivers (db db' : Db) (uuid : String) (sent : List Dispatch) : Prop where
  subjects : db'.webhookDeliveries.rows.map WebhookDelivery.subject =
    db.webhookDeliveries.rows.map WebhookDelivery.subject ++
      (sent.filter Dispatch.hasUrl).map fun d => (d.payment.id, some d.event.name)
  ids : ∀ x ∈ db'.webhookDeliveries.rows, x.id = uuid ∨ ∃ y ∈ db.webhookDeliveries.rows, y.id = x.id

theorem Delivers.of_eq {uuid : String} (h : db'.webhookDeliveries = db.webhookDeliveries) :
    Delivers db db' uuid [] :=
  ⟨by simp [h], fun x hx => .inr ⟨x, h ▸ hx, rfl⟩⟩

/-- A call of `dispatch` starts with its delivery row. -/
theorem Dispatch.step_delivers (hfresh : ∀ x ∈ db.webhookDeliveries.rows, x.id ≠ r.uuid)
    (pc : DispatchPc) :
    Delivers db (d.step env now r pc db).2 r.uuid (if pc = .start then [d] else []) := by
  cases pc with
  | start =>
    cases hu : d.payment.webhookUrl with
    | none =>
      have hno : d.hasUrl = false := by simp [Dispatch.hasUrl, hu]
      simp only [Dispatch.step, hu, if_pos]
      exact ⟨by simp [hno], fun x hx => .inr ⟨x, hx, rfl⟩⟩
    | some url =>
      have hyes : d.hasUrl = true := by simp [Dispatch.hasUrl, hu]
      obtain ⟨t, hins, hrows⟩ := Table.insert_of_fresh (t := db.webhookDeliveries)
        (r := ({ id := r.uuid, paymentId := d.payment.id, url
                 payload := (buildPayload d.payment d.event d.delta).toJson
                 eventType := some d.event.name, status := .pending, attempts := 0
                 lastAttempt := none, acknowledgedAt := none, createdAt := strftime now } :
          WebhookDelivery)) (by
          simp only [List.mem_singleton, forall_eq, List.mem_map, not_exists, not_and]
          exact hfresh)
      simp only [Dispatch.step, hu, Db.saveWebhookDelivery, hins, Option.map_some, Option.getD_some,
        if_pos]
      refine ⟨by simp [hrows, hyes, WebhookDelivery.subject], fun x hx => ?_⟩
      simp only [hrows, List.mem_append, List.mem_singleton] at hx
      rcases hx with hx | rfl
      · exact .inr ⟨x, hx, rfl⟩
      · exact .inl rfl
  | finish id status n =>
    refine ⟨?_, fun x hx => ?_⟩
    · simp only [Dispatch.step, Db.updateWebhookDelivery, Table.update_rows, List.map_map]
      simp only [reduceCtorEq, if_false, List.filter_nil, List.map_nil, List.append_nil]
      apply List.map_congr_left
      intro x _
      simp only [Function.comp_apply]
      split_ifs <;> rfl
    · obtain ⟨y, hy, rfl⟩ := (Table.mem_update (Db.deliveryRow_keys now status n)).mp hx
      refine .inr ⟨y, hy, ?_⟩
      split_ifs <;> rfl
  | connect id => exact .of_eq rfl
  | post id k => exact .of_eq rfl
  | done => exact .of_eq rfl

theorem Call.step_delivers (hfresh : ∀ x ∈ db.webhookDeliveries.rows, x.id ≠ r.uuid) :
    Delivers db (c.step env now r db).db r.uuid (c.step env now r db).dispatched := by
  rcases c.step_deliveries env now r db with ⟨hsame, hnone⟩ | ⟨d, pc, hdb, hsent⟩
  · rw [hnone]
    exact .of_eq hsame
  · rw [hdb, hsent]
    exact Dispatch.step_delivers hfresh pc

theorem Known.hasUrl {p : Payment} (hk : Known db p) (h : db.HasUrl p.id) :
    p.webhookUrl.isSome := by
  obtain ⟨q, hq, hid, hurl⟩ := h
  rw [← Payment.webhookUrl_eq_of_terms (hk.eq_of_id hq hid)]
  exact hurl

/-- Every announcement of a payment with a `webhook_url` has become a delivery row. -/
theorem Delivers.count_le {uuid : String} {sent : List Dispatch} (h : Delivers db db' uuid sent)
    (hk : ∀ d ∈ sent, Known db' d.payment) {k : String × WebhookEvent} (hurl : db'.HasUrl k.1) :
    (db.deliveriesFor k).length + (sent.map Dispatch.key).count k ≤
    (db'.deliveriesFor k).length := by
  have hlen : ∀ db : Db, (db.deliveriesFor k).length =
      (db.webhookDeliveries.rows.map WebhookDelivery.subject).count (k.1, some k.2.name) := by
    intro db
    rw [Db.deliveriesFor, ← List.countP_eq_length_filter, List.count, List.countP_map]
    exact List.countP_congr fun x _ => by simp
  rw [hlen, hlen, h.subjects, List.count_append]
  apply Nat.add_le_add_left
  rw [List.count, List.count, List.countP_map, List.countP_map, List.countP_filter]
  apply List.countP_mono_left
  intro d hd hkey
  have hkey : d.key = k := by simpa using hkey
  subst hkey
  have hyes : d.hasUrl = true := (hk d hd).hasUrl hurl
  simp [Dispatch.key, hyes]

end Deliveries

/-- Every save of a delivery succeeds, and no call is cut short while it owes an
announcement of a payment with a `webhook_url`. -/
def SavesDeliveries (w : World) : Event → Prop
  | .fail i r => ∀ c ∈ w.calls[i]?, ∀ d ∈ (c.fail r).2, d.hasUrl = false
  | .kill i => ∀ c ∈ w.calls[i]?, ∀ d ∈ c.undispatched, d.hasUrl = false
  | .crash => ∀ c ∈ w.calls, ∀ d ∈ c.undispatched, d.hasUrl = false
  | _ => True

instance (w : World) : ∀ e, Decidable (SavesDeliveries w e)
  | .fail i r =>
    inferInstanceAs (Decidable (∀ c ∈ w.calls[i]?, ∀ d ∈ (c.fail r).2, d.hasUrl = false))
  | .kill i =>
    inferInstanceAs (Decidable (∀ c ∈ w.calls[i]?, ∀ d ∈ c.undispatched, d.hasUrl = false))
  | .crash => inferInstanceAs (Decidable (∀ c ∈ w.calls, ∀ d ∈ c.undispatched, d.hasUrl = false))
  | .advance _ | .reconcile _ | .sweep | .create _ | .exec _ _ => .isTrue trivial

/-- Every committed transition of a payment with a `webhook_url` has its delivery row, or
the call that made it has still to write that row. -/
structure World.Durable (w : World) : Prop where
  sound : w.Sound
  known : ∀ c ∈ w.calls, ∀ d ∈ c.undispatched, Known w.db d.payment
  ids : ∀ x ∈ w.db.webhookDeliveries.rows, x.id ∈ w.minted
  paid : ∀ m ∈ w.committed, ∃ p ∈ w.db.payments.rows, p.id = m.paymentId
  recorded : ∀ m ∈ w.committed, w.db.HasUrl m.paymentId →
    w.db.deliveriesFor m.key ≠ [] ∨ ∃ c, w.calls[m.call]? = some c ∧ m.key ∈ c.owed
  counted : ∀ k, w.db.HasUrl k.1 → (w.committed.map Commit.key).count k ≤
    (w.db.deliveriesFor k).length + (w.calls.map fun c => c.owed.count k).sum

namespace World
variable {env : Env} {w t : World} {e : Event} {es : List Event} {now : ℤ} {i : ℕ} {r : Reply}
  {c : Call}

theorem Durable.init : (init now).Durable :=
  ⟨Sound.init, by simp [World.init], fun _ h => absurd h List.not_mem_nil,
    by simp [World.init], by simp [World.init], by simp [World.init]⟩

theorem hasUrl_of_exec {id : String} (hold : ∃ p ∈ w.db.payments.rows, p.id = id)
    (h : (w.exec env i r c).db.HasUrl id) : w.db.HasUrl id := by
  have hw : Writes env w.now r w.db c (c.step env w.now r w.db).db := c.step_writes
  obtain ⟨p, hp, hpid⟩ := hold
  obtain ⟨q, hq, hqid, hurl⟩ := h
  obtain ⟨q', hq', hstep⟩ := hw.row hp
  cases Db.eq_of_id hq hq' (hqid.trans (hstep.id.trans hpid).symm)
  exact ⟨p, hp, hpid, Payment.webhookUrl_eq_of_terms hstep.terms ▸ hurl⟩

theorem Durable.exec_settles (h : w.Durable) (hc : w.calls[i]? = some c) (hu : r.uuid ∉ w.minted)
    {k : String × WebhookEvent} (hurl : (w.exec env i r c).db.HasUrl k.1) :
    (w.db.deliveriesFor k).length +
        ((c.step env w.now r w.db).dispatched.map Dispatch.key).count k ≤
      ((w.exec env i r c).db.deliveriesFor k).length := by
  have hcs := h.sound.calls c (List.mem_of_getElem? hc)
  have hw : Writes env w.now r w.db c (c.step env w.now r w.db).db := c.step_writes
  have hfresh : ∀ x ∈ w.db.webhookDeliveries.rows, x.id ≠ r.uuid := by
    intro x hx he
    exact hu (he ▸ h.ids x hx)
  obtain ⟨new, heq, -, hnew⟩ := Call.step_undispatched env w.now r hcs
  refine (Call.step_delivers hfresh).count_le (fun d hd => ?_) hurl
  have hd' : d ∈ c.undispatched ++ new := heq ▸ List.mem_append_left _ hd
  rcases List.mem_append.mp hd' with hd' | hd'
  · exact (h.known c (List.mem_of_getElem? hc) d hd').mono (hw.grows hcs)
  · exact hnew d hd'

theorem Durable.exec_recorded (h : w.Durable) (hc : w.calls[i]? = some c) (hu : r.uuid ∉ w.minted)
    {m : Commit} (hm : m ∈ (w.exec env i r c).committed)
    (hurl : (w.exec env i r c).db.HasUrl m.paymentId) :
    (w.exec env i r c).db.deliveriesFor m.key ≠ [] ∨
      ∃ d, (w.exec env i r c).calls[m.call]? = some d ∧ m.key ∈ d.owed := by
  have hle := h.exec_settles (k := m.key) hc hu hurl
  have howed := Call.step_owed env w.now r
    (h.sound.calls c (List.mem_of_getElem? hc))
  have hi : i < w.calls.length := (List.getElem?_eq_some_iff.mp hc).1
  have hmine : m.call = i → m.key ∈ c.owed ++ (c.step env w.now r w.db).committed →
      (w.exec env i r c).db.deliveriesFor m.key ≠ [] ∨
        ∃ d, (w.exec env i r c).calls[m.call]? = some d ∧ m.key ∈ d.owed := by
    intro hcall hkey
    rw [← howed] at hkey
    rcases List.mem_append.mp hkey with hkey | hkey
    · left
      have := List.count_pos_iff.mpr hkey
      exact List.ne_nil_of_length_pos (by omega)
    · refine .inr ⟨_, ?_, hkey⟩
      rw [hcall]
      exact List.getElem?_set_self hi
  rcases List.mem_append.mp hm with hm | hm
  · rcases h.recorded m hm (hasUrl_of_exec (h.paid m hm) hurl) with hrow | ⟨d, hd, hkey⟩
    · left
      have := List.length_pos_of_ne_nil hrow
      exact List.ne_nil_of_length_pos (by omega)
    · by_cases hcall : m.call = i
      · rw [hcall] at hd
        cases Option.some.inj (hc.symm.trans hd)
        exact hmine hcall (List.mem_append_left _ hkey)
      · exact .inr ⟨d, by rwa [World.exec, List.getElem?_set_ne (Ne.symm hcall)], hkey⟩
  · obtain ⟨⟨id, event⟩, hx, rfl⟩ := List.mem_map.mp hm
    exact hmine rfl (List.mem_append_right _ hx)

theorem Durable.exec_counted (h : w.Durable) (hc : w.calls[i]? = some c) (hu : r.uuid ∉ w.minted)
    {k : String × WebhookEvent} (hurl : (w.exec env i r c).db.HasUrl k.1) :
    ((w.exec env i r c).committed.map Commit.key).count k ≤
      ((w.exec env i r c).db.deliveriesFor k).length +
        ((w.exec env i r c).calls.map fun c => c.owed.count k).sum := by
  have hle := h.exec_settles (k := k) hc hu hurl
  have howed := congrArg (List.count k) (Call.step_owed env w.now r
    (h.sound.calls c (List.mem_of_getElem? hc)))
  rw [List.count_append, List.count_append] at howed
  have hsum := sum_map_set (f := fun c => c.owed.count k)
    (b := (c.step env w.now r w.db).next) hc
  have hcom : ((w.exec env i r c).committed.map Commit.key) =
      w.committed.map Commit.key ++ (c.step env w.now r w.db).committed := by
    simp [World.exec, Commit.key, Function.comp_def]
  have hold : (w.committed.map Commit.key).count k ≤
      (w.db.deliveriesFor k).length + (w.calls.map fun c => c.owed.count k).sum := by
    by_cases hk : ∃ p ∈ w.db.payments.rows, p.id = k.1
    · exact h.counted k (hasUrl_of_exec hk hurl)
    · have hzero : (w.committed.map Commit.key).count k = 0 := by
        rw [List.count_eq_zero]
        intro hmem
        obtain ⟨m, hm, rfl⟩ := List.mem_map.mp hmem
        exact hk (h.paid m hm)
      omega
  have hcalls : (w.exec env i r c).calls = w.calls.set i (c.step env w.now r w.db).next := rfl
  rw [hcom, List.count_append, hcalls]
  omega

theorem Durable.exec (h : w.Durable) (hc : w.calls[i]? = some c) (hu : r.uuid ∉ w.minted) :
    (w.exec env i r c).Durable := by
  have hcs := h.sound.calls c (List.mem_of_getElem? hc)
  have hw : Writes env w.now r w.db c (c.step env w.now r w.db).db := c.step_writes
  have hg := hw.grows hcs
  have hfresh : ∀ x ∈ w.db.webhookDeliveries.rows, x.id ≠ r.uuid := by
    intro x hx he
    exact hu (he ▸ h.ids x hx)
  obtain ⟨new, heq, hkey, hnew⟩ := Call.step_undispatched env w.now r hcs
  refine ⟨h.sound.exec hc, fun d hd x hx => ?_, fun x hx => ?_, fun m hm => ?_,
    fun m hm hurl => h.exec_recorded hc hu hm hurl, fun k hurl => h.exec_counted hc hu hurl⟩
  · rcases List.mem_or_eq_of_mem_set hd with hd | rfl
    · exact (h.known d hd x hx).mono hg
    · have hx' : x ∈ c.undispatched ++ new := heq ▸ List.mem_append_right _ hx
      rcases List.mem_append.mp hx' with hx' | hx'
      · exact (h.known c (List.mem_of_getElem? hc) x hx').mono hg
      · exact hnew x hx'
  · rcases (Call.step_delivers hfresh).ids x hx with he | ⟨y, hy, he⟩
    · exact he ▸ List.mem_cons_self
    · exact List.mem_cons_of_mem _ (he ▸ h.ids y hy)
  · rcases List.mem_append.mp hm with hm | hm
    · obtain ⟨p, hp, hid⟩ := h.paid m hm
      obtain ⟨q, hq, hstep⟩ := hw.row hp
      exact ⟨q, hq, hstep.id.trans hid⟩
    · obtain ⟨x, hx, rfl⟩ := List.mem_map.mp hm
      rw [← hkey] at hx
      obtain ⟨d, hd, rfl⟩ := List.mem_map.mp hx
      obtain ⟨q, hq, hterms⟩ := hnew d hd
      exact ⟨q, hq, Payment.id_eq_of_terms hterms⟩

end World

/-- The call gives up some announcements, none of them of a payment with a `webhook_url`. -/
def Call.Drops (c c' : Call) : Prop :=
  ∃ dropped, dropped ++ c'.undispatched = c.undispatched ∧ ∀ d ∈ dropped, d.hasUrl = false

theorem Call.Drops.refl (c : Call) : c.Drops c := ⟨[], rfl, by simp⟩

theorem Call.Drops.cut {c : Call} (h : ∀ d ∈ c.undispatched, d.hasUrl = false) : c.Drops c.cut := by
  rcases c.cut_undispatched with hs | hs
  · exact ⟨[], hs, by simp⟩
  · exact ⟨c.undispatched, by simp [hs], h⟩

theorem Call.undispatched_of_returned {c : Call} (h : c.returned = true) : c.undispatched = [] := by
  cases c with
  | reconcile hp pc =>
    cases pc with
    | done result => rfl
    | _ => cases h
  | sweep pc =>
    cases pc with
    | done result => rfl
    | _ => cases h
  | create req pc => rfl
  | lost => rfl

theorem Call.Drops.count_le {db : Db} {c c' : Call} {k : String × WebhookEvent} (h : c.Drops c')
    (hk : ∀ d ∈ c.undispatched, Known db d.payment) (hurl : db.HasUrl k.1) :
    c.owed.count k ≤ c'.owed.count k := by
  obtain ⟨dropped, heq, hno⟩ := h
  have hzero : (dropped.map Dispatch.key).count k = 0 := by
    rw [List.count_eq_zero]
    intro hmem
    obtain ⟨d, hd, rfl⟩ := List.mem_map.mp hmem
    have hyes : d.hasUrl = true :=
      (hk d (heq ▸ List.mem_append_left _ hd)).hasUrl hurl
    rw [hno d hd] at hyes
    cases hyes
  have hcount := congrArg (fun l => (l.map Dispatch.key).count k) heq
  simp only [List.map_append, List.count_append, hzero, zero_add] at hcount
  exact hcount.ge

namespace World
variable {env : Env} {w t : World} {e : Event} {es : List Event} {now : ℤ}

theorem Durable.drop {calls : List Call} {dispatched : List Dispatch} {minted : List String}
    (h : w.Durable) (hd : List.Forall₂ Call.Drops w.calls calls)
    (hs : World.Sound { w with calls, dispatched, minted }) (hm : ∀ x ∈ w.minted, x ∈ minted) :
    World.Durable { w with calls, dispatched, minted } := by
  refine ⟨hs, fun c' hc' d hd' => ?_, fun x hx => hm _ (h.ids x hx), h.paid,
    fun m hmem hurl => ?_, fun k hurl => ?_⟩
  · obtain ⟨i, hi⟩ := List.mem_iff_getElem?.mp hc'
    obtain ⟨c, hc, dropped, heq, -⟩ := getElem?_of_forall₂ hd.flip hi
    exact h.known c (List.mem_of_getElem? hc) d (heq ▸ List.mem_append_right _ hd')
  · rcases h.recorded m hmem hurl with hrow | ⟨c, hc, hkey⟩
    · exact .inl hrow
    · obtain ⟨c', hc', hdrop⟩ := getElem?_of_forall₂ hd hc
      refine .inr ⟨c', hc', ?_⟩
      have hpos := List.count_pos_iff.mpr hkey
      exact List.count_pos_iff.mp (hpos.trans_le
        (hdrop.count_le (h.known c (List.mem_of_getElem? hc)) hurl))
  · have hsum : (w.calls.map fun c => c.owed.count k).sum ≤
        (calls.map fun c => c.owed.count k).sum := by
      apply List.Forall₂.sum_le_sum
      rw [List.forall₂_map_left_iff, List.forall₂_map_right_iff]
      rw [List.forall₂_iff_get] at hd ⊢
      exact ⟨hd.1, fun i h1 h2 => (hd.2 i h1 h2).count_le (h.known _ (List.get_mem _ _)) hurl⟩
    have := h.counted k hurl
    simp only
    omega

theorem Durable.start {c : Call} {handed : List HorizonPayment} (h : w.Durable)
    (hs : World.Sound { w.start c with handed }) (hc : c.undispatched = []) :
    World.Durable { w.start c with handed } := by
  refine ⟨hs, fun d hd x hx => ?_, h.ids, h.paid, fun m hm hurl => ?_, fun k hurl => ?_⟩
  · rcases List.mem_append.mp hd with hd | hd
    · exact h.known d hd x hx
    · rw [List.mem_singleton.mp hd, hc] at hx
      exact absurd hx List.not_mem_nil
  · refine (h.recorded m hm hurl).imp_right fun ⟨d, hd, hkey⟩ => ⟨d, ?_, hkey⟩
    have hlt : m.call < w.calls.length := (List.getElem?_eq_some_iff.mp hd).1
    simpa only [World.start, List.getElem?_append_left hlt] using hd
  · have := h.counted k hurl
    simpa [World.start, Call.owed, hc] using this

theorem Durable.step (hok : SavesDeliveries w e) (hs : step env w e = some t) (h : w.Durable) :
    t.Durable := by
  have hsound := h.sound.step hs
  cases e with
  | advance secs =>
    cases hs
    exact ⟨hsound, h.known, h.ids, h.paid, h.recorded, h.counted⟩
  | reconcile hp =>
    cases hs
    exact h.start hsound (Reconcile.start_undispatched hp)
  | sweep =>
    cases hs
    exact h.start hsound rfl
  | create req =>
    cases hs
    exact h.start hsound rfl
  | exec i r =>
    obtain ⟨c, hc, hu, rfl⟩ := step_exec hs
    exact h.exec hc hu
  | fail i r =>
    obtain ⟨c, hc, -, rfl⟩ := step_fail hs
    refine h.drop (forall₂_set Call.Drops.refl hc ?_) hsound fun _ hx => List.mem_cons_of_mem _ hx
    exact ⟨(c.fail r).2, Call.fail_undispatched, hok c hc⟩
  | kill i =>
    obtain ⟨c, hc, rfl⟩ := step_kill hs
    exact h.drop (forall₂_set Call.Drops.refl hc (.cut (hok c hc))) hsound fun _ hx => hx
  | crash =>
    cases hs
    refine h.drop ?_ hsound fun _ hx => hx
    rw [List.forall₂_map_right_iff, List.forall₂_same]
    exact fun c hc => .cut (hok c hc)

/-- In a run in which every save of a delivery succeeds and no call is cut short while it
owes an announcement of a payment with a `webhook_url`, every committed transition of such
a payment has its delivery row once the call that made it has returned or is lost, and the
rows are as many as the transitions once all of them are. -/
theorem committed_isRecorded (hr : Reaches env (init now) es w)
    (hok : Along (World.step env) SavesDeliveries (init now) es) :
    (∀ m ∈ w.committed, w.db.HasUrl m.paymentId → (∀ c ∈ w.calls[m.call]?, c.returned = true) →
      ∃ d ∈ w.db.webhookDeliveries.rows, d.paymentId = m.paymentId ∧
        d.eventType = some m.event.name) ∧
    (w.quiet → ∀ id event, w.db.HasUrl id →
      (w.committed.filter fun m => m.paymentId = id ∧ m.event = event).length ≤
        (w.db.webhookDeliveries.rows.filter fun d =>
          d.paymentId = id ∧ d.eventType = some event.name).length) := by
  have h : w.Durable := hok.invariant (I := World.Durable) (fun _ _ _ ho hs hi => hi.step ho hs) hr
    Durable.init
  refine ⟨fun m hm hurl hret => ?_, fun hquiet id event hurl => ?_⟩
  · have hrow := (h.recorded m hm hurl).resolve_right fun ⟨c, hc, hkey⟩ => by
      rw [Call.owed, Call.undispatched_of_returned (hret c hc)] at hkey
      exact absurd hkey List.not_mem_nil
    obtain ⟨d, hd⟩ := List.exists_mem_of_ne_nil _ hrow
    obtain ⟨hd, hsub⟩ := List.mem_filter.mp hd
    have hsub : d.paymentId = m.paymentId ∧ d.eventType = some m.event.name := by
      simpa [WebhookDelivery.subject, Commit.key] using hsub
    exact ⟨d, hd, hsub⟩
  · have hcount := h.counted (id, event) hurl
    have hzero : (w.calls.map fun c => c.owed.count (id, event)).sum = 0 := by
      apply List.sum_eq_zero
      intro n hn
      obtain ⟨c, hc, rfl⟩ := List.mem_map.mp hn
      simp [Call.owed, Call.undispatched_of_returned (hquiet c hc)]
    have hcommit : (w.committed.map Commit.key).count (id, event) =
        (w.committed.filter fun m => m.paymentId = id ∧ m.event = event).length := by
      rw [List.count, List.countP_map, ← List.countP_eq_length_filter]
      exact List.countP_congr fun m _ => by simp [Commit.key]
    rw [hzero, add_zero, hcommit] at hcount
    simpa [Db.deliveriesFor, WebhookDelivery.subject] using hcount

end World

/-- Call 0 creates an intent with id `"10"`, memo `"11"` and a `webhook_url`. -/
def Sample.createWithUrl : List Event :=
  .create { Sample.request with webhookUrl := some "https://shop.example/hook" } ::
    Sample.turns 10 [0, 0, 0, 0]

/-- The intent is paid, and the process stops after the delivery row was written. -/
theorem World.committed_isRecorded_sample :
    let es := Sample.createWithUrl ++ .reconcile (Sample.record "11" "10.0000000" "TXA" "1") ::
      Sample.turns 20 [1, 1, 1, 1, 1, 1] ++ [.crash]
    ∃ w, World.Reaches Sample.env (.init 0) es w ∧ w.committed = [⟨1, "10", .completed⟩] ∧
      (∀ m ∈ w.committed, w.db.HasUrl m.paymentId →
        (∀ c ∈ w.calls[m.call]?, c.returned = true) →
        ∃ d ∈ w.db.webhookDeliveries.rows, d.paymentId = m.paymentId ∧
          d.eventType = some m.event.name) ∧
      (w.quiet → ∀ id event, w.db.HasUrl id →
        (w.committed.filter fun m => m.paymentId = id ∧ m.event = event).length ≤
          (w.db.webhookDeliveries.rows.filter fun d =>
            d.paymentId = id ∧ d.eventType = some event.name).length) := by
  intro es
  obtain ⟨w, hw, hc⟩ := exists_of_run (World.step Sample.env) (.init 0) es
    (P := fun w => w.committed = [⟨1, "10", .completed⟩]) (by decide)
  exact ⟨w, hw, hc, committed_isRecorded hw (by decide)⟩

/-- The process stops between the status update and the delivery row. -/
theorem World.committed_unrecorded :
    let es := Sample.createWithUrl ++ .reconcile (Sample.record "11" "10.0000000" "TXA" "1") ::
      Sample.turns 20 [1, 1, 1, 1, 1] ++ [.crash]
    ∃ w, World.Reaches Sample.env (.init 0) es w ∧ w.quiet ∧
      w.committed = [⟨1, "10", .completed⟩] ∧ w.db.webhookDeliveries.rows = [] ∧
      w.db.payments.rows.map (fun p => (p.id, p.status, p.webhookUrl)) =
        [("10", .completed, some "https://shop.example/hook")] :=
  exists_of_run _ _ _ (by decide)

end StellarGate
