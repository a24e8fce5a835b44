import StellarGate.Webhook.Senders
import StellarGate.Webhook.Verbatim

/-! When `delivered` is the last word on a delivery: the three senders write their outcome to the
row whatever it says by then. -/
namespace StellarGate
open Base

namespace Jobs

/-- Where no attempt at a delivery fails once another has succeeded, and none succeeds while a
failure is still to be written; the ids that are drawn are new. -/
def Consistent (l : List Sender) (s : Ledger) : Deed → Prop
  | .store id | .unsaved id => (∀ c ∈ s.created, c.id ≠ id) ∧ ∀ x ∈ l, x.id ≠ id
  | .answer id true => ∀ x ∈ l, x.id = id → ∀ o ∈ x.due, o.1 = .delivered
  | .answer id false | .block id =>
    (∀ d ∈ s.db.webhookDeliveries.rows, d.id = id → d.status ≠ .delivered) ∧
      ∀ x ∈ l, x.id = id → ∀ o ∈ x.due, o.1 ≠ .delivered
  | _ => True

/-- A failure that is still to be written is written to a row that is not delivered. -/
structure Undisputed (l : List Sender) (s : Ledger) : Prop where
  ids : ∀ d ∈ s.db.webhookDeliveries.rows, ∃ c ∈ s.created, c.id = d.id
  rows : ∀ x ∈ l, ∀ o ∈ x.due, o.1 ≠ .delivered →
    ∀ d ∈ s.db.webhookDeliveries.rows, d.id = x.id → d.status ≠ .delivered
  dues : ∀ x ∈ l, ∀ o ∈ x.due, o.1 ≠ .delivered → ∀ y ∈ l, y.id = x.id →
    ∀ o' ∈ y.due, o'.1 ≠ .delivered

/-- Every delivery known before was there before, and is still delivered if it was. -/
structure Stays (s t : Ledger) : Prop where
  created : s.created ⊆ t.created
  rows : ∀ d ∈ t.db.webhookDeliveries.rows, (∃ c ∈ s.created, c.id = d.id) →
    ∃ d₀ ∈ s.db.webhookDeliveries.rows, d₀.id = d.id ∧
    (d₀.status = .delivered → d.status = .delivered)

section
variable {site : Site} {s t u : Ledger} {l m : List Sender} {e : Deed}

theorem Stays.refl (s : Ledger) : Stays s s :=
  ⟨fun _ hc => hc, fun d hd _ => ⟨d, hd, rfl, fun h => h⟩⟩

theorem Stays.trans (h : Stays s t) (h' : Stays t u) : Stays s u := by
  refine ⟨fun c hc => h'.created (h.created hc), ?_⟩
  rintro d hd ⟨c, hc, hid⟩
  obtain ⟨d₁, hd₁, hid₁, hst₁⟩ := h'.rows d hd ⟨c, h.created hc, hid⟩
  obtain ⟨d₀, hd₀, hid₀, hst₀⟩ := h.rows d₁ hd₁ ⟨c, hc, hid.trans hid₁.symm⟩
  exact ⟨d₀, hd₀, hid₀.trans hid₁, fun hst => hst₁ (hst₀ hst)⟩

theorem Stays.of_rows (hcreated : t.created = s.created)
    (hrows : ∀ d ∈ t.db.webhookDeliveries.rows, ∃ d₀ ∈ s.db.webhookDeliveries.rows, d₀.id = d.id ∧
      (d₀.status = .delivered → d.status = .delivered)) : Stays s t :=
  ⟨fun _ hc => hcreated ▸ hc, fun d hd _ => hrows d hd⟩

/-- The senders at work may become fewer. -/
theorem Undisputed.subset (h : Undisputed l s) (hm : ∀ x ∈ m, x ∈ l) : Undisputed m s :=
  ⟨h.ids, fun x hx => h.rows x (hm x hx),
    fun x hx o ho hne y hy => h.dues x (hm x hx) o ho hne y (hm y hy)⟩

theorem Undisputed.join (h : Undisputed l s) (hm : ∀ x ∈ m, x ∈ l ∨ x.due = none) :
    Undisputed m s := by
  have hdue : ∀ x ∈ m, ∀ o ∈ x.due, x ∈ l := fun x hx o ho =>
    (hm x hx).resolve_right fun hnone => by simp [hnone] at ho
  refine ⟨h.ids, fun x hx o ho => h.rows x (hdue x hx o ho) o ho, ?_⟩
  intro x hx o ho hne y hy hid o' ho'
  exact h.dues x (hdue x hx o ho) o ho hne y (hdue y hy o' ho') hid o' ho'

theorem Undisputed.of_eq (h : Undisputed l s)
    (hrows : t.db.webhookDeliveries = s.db.webhookDeliveries) (hcreated : t.created = s.created) :
    Undisputed l t := by
  constructor
  · rw [hrows, hcreated]
    exact h.ids
  · rw [hrows]
    exact h.rows
  · exact h.dues

theorem Undisputed.of_rows (h : Undisputed l s) (hcreated : t.created = s.created)
    (hrows : ∀ d ∈ t.db.webhookDeliveries.rows, ∃ d₀ ∈ s.db.webhookDeliveries.rows, d₀.id = d.id ∧
      (d.status = .delivered → d₀.status = .delivered)) : Undisputed l t := by
  constructor
  · intro d hd
    obtain ⟨d₀, hd₀, hid, -⟩ := hrows d hd
    obtain ⟨c, hc, hcid⟩ := h.ids d₀ hd₀
    exact ⟨c, hcreated ▸ hc, hcid.trans hid⟩
  · intro x hx o ho hne d hd hdx hst
    obtain ⟨d₀, hd₀, hid, hst₀⟩ := hrows d hd
    exact h.rows x hx o ho hne d₀ hd₀ (hid.trans hdx) (hst₀ hst)
  · exact h.dues

theorem Undisputed.conclude {x y : Sender} {o : DeliveryStatus × ℤ} (h : Undisputed (l ++ x :: m) s)
    (hid : y.id = x.id) (hdue : y.due = some o)
    (hgood : o.1 = .delivered → ∀ z ∈ l ++ x :: m, z.id = x.id → ∀ o' ∈ z.due, o'.1 = .delivered)
    (hbad : o.1 ≠ .delivered →
      (∀ d ∈ s.db.webhookDeliveries.rows, d.id = x.id → d.status ≠ .delivered) ∧
      ∀ z ∈ l ++ x :: m, z.id = x.id → ∀ o' ∈ z.due, o'.1 ≠ .delivered) :
    Undisputed (l ++ y :: m) s := by
  have hcases : ∀ z ∈ l ++ y :: m, z ∈ l ++ x :: m ∨ z = y := by
    intro z hz
    simp only [List.mem_append, List.mem_cons] at hz ⊢
    tauto
  refine ⟨h.ids, ?_, ?_⟩
  · intro z hz p hp hne
    rcases hcases z hz with hz | rfl
    · exact h.rows z hz p hp hne
    · cases Option.some.inj (hdue.symm.trans hp)
      rw [hid]
      exact (hbad hne).1
  · intro a ha p hp hne b hb hba p' hp'
    rcases hcases a ha with hal | rfl <;> rcases hcases b hb with hbl | rfl
    · exact h.dues a hal p hp hne b hbl hba p' hp'
    · cases Option.some.inj (hdue.symm.trans hp')
      intro hdel
      exact hne (hgood hdel a hal (hba.symm.trans hid) p hp)
    · cases Option.some.inj (hdue.symm.trans hp)
      exact (hbad hne).2 b hbl (hba.trans hid) p' hp'
    · cases Option.some.inj (hdue.symm.trans hp)
      cases Option.some.inj (hdue.symm.trans hp')
      exact hne

theorem Undisputed.store {d : WebhookDelivery} {c : Created} (h : Undisputed (l ++ m) s)
    (hfresh : (∀ c ∈ s.created, c.id ≠ d.id) ∧ ∀ x ∈ l ++ m, x.id ≠ d.id)
    (hrows : t.db.webhookDeliveries.rows = s.db.webhookDeliveries.rows ++ [d])
    (hcreated : t.created = s.created ++ [c]) (hid : c.id = d.id) :
    Undisputed (l ++ ⟨d.id, 0, 0, true, true, none⟩ :: m) t ∧ Stays s t := by
  have hmem : ∀ x ∈ l ++ ⟨d.id, 0, 0, true, true, none⟩ :: m, x ∈ l ++ m ∨ x.due = none := by
    intro x hx
    simp only [List.mem_append, List.mem_cons] at hx ⊢
    rcases hx with hx | rfl | hx <;> simp [*]
  have hjoin := h.join hmem
  refine ⟨⟨?_, ?_, hjoin.dues⟩, ⟨?_, ?_⟩⟩
  · intro d' hd'
    rw [hrows] at hd'
    rw [hcreated]
    rcases List.mem_append.mp hd' with hd' | hd'
    · obtain ⟨c', hc', hid'⟩ := h.ids d' hd'
      exact ⟨c', List.mem_append_left _ hc', hid'⟩
    · rw [List.mem_singleton.mp hd']
      exact ⟨c, by simp, hid⟩
  · intro x hx o ho hne d' hd' hdx
    rw [hrows] at hd'
    rcases List.mem_append.mp hd' with hd' | hd'
    · exact hjoin.rows x hx o ho hne d' hd' hdx
    · rw [List.mem_singleton.mp hd'] at hdx
      rcases hmem x hx with hx | hnone
      · exact absurd hdx.symm (hfresh.2 x hx)
      · simp [hnone] at ho
  · rw [hcreated]
    exact List.subset_append_left _ _
  · rintro d' hd' ⟨c', hc', hid'⟩
    rw [hrows] at hd'
    rcases List.mem_append.mp hd' with hd' | hd'
    · exact ⟨d', hd', rfl, fun hst => hst⟩
    · rw [List.mem_singleton.mp hd'] at hid'
      exact absurd hid' (hfresh.1 c' hc')

theorem Undisputed.write {x : Sender} {status : DeliveryStatus} {now attempts : ℤ}
    (h : Undisputed (l ++ x :: m) s) (hdue : x.due = some (status, attempts)) :
    let t := { s with db := s.db.updateWebhookDelivery now x.id status attempts }
    Undisputed (l ++ m) t ∧ Stays s t := by
  intro t
  have hx : x ∈ l ++ x :: m := by simp
  have hsub : ∀ y ∈ l ++ m, y ∈ l ++ x :: m := by
    intro y hy
    simp only [List.mem_append, List.mem_cons] at hy ⊢
    tauto
  have hrows : ∀ d ∈ t.db.webhookDeliveries.rows, ∃ d₀ ∈ s.db.webhookDeliveries.rows, d₀.id = d.id ∧
      (d = d₀ ∨ (d₀.id = x.id ∧ d.status = status)) := by
    intro d hd
    obtain ⟨d₀, hd₀, rfl⟩ := (Table.mem_update (Db.deliveryRow_keys now status attempts)).mp hd
    refine ⟨d₀, hd₀, ?_⟩
    split_ifs with hhit
    · exact ⟨rfl, .inr ⟨of_decide_eq_true hhit, rfl⟩⟩
    · exact ⟨rfl, .inl rfl⟩
  constructor
  · refine ⟨?_, ?_, (h.subset hsub).dues⟩
    · intro d hd
      obtain ⟨d₀, hd₀, hid, -⟩ := hrows d hd
      rw [← hid]
      exact h.ids d₀ hd₀
    · intro y hy o ho hne d hd hdy
      obtain ⟨d₀, hd₀, hid, rfl | ⟨hx₀, hst⟩⟩ := hrows d hd
      · exact h.rows y (hsub y hy) o ho hne d hd₀ hdy
      · rw [hst]
        exact h.dues y (hsub y hy) o ho hne x hx (hx₀.symm.trans (hid.trans hdy)) _ hdue
  · refine .of_rows rfl fun d hd => ?_
    obtain ⟨d₀, hd₀, hid, rfl | ⟨hx₀, hst⟩⟩ := hrows d hd
    · exact ⟨d, hd₀, rfl, fun hdel => hdel⟩
    · refine ⟨d₀, hd₀, hid, fun hdel => ?_⟩
      by_contra hne
      rw [hst] at hne
      exact h.rows x hx _ hdue hne d₀ hd₀ hx₀ hdel

/-- A step that fits in keeps what is delivered. -/
theorem Move.stays (h : Move site e l s m t) (hok : Consistent l s e) (hl : Undisputed l s) :
    Undisputed m t ∧ Stays s t := by
  cases h with
  | idle _ hrows hcreated _ =>
    refine ⟨hl.of_eq hrows hcreated, .of_rows hcreated fun d hd => ?_⟩
    rw [hrows] at hd
    exact ⟨d, hd, rfl, fun hst => hst⟩
  | store a b hrows _ hcreated hid _ => exact hl.store hok hrows hcreated hid
  | unsaved a b _ id | start a b _ d =>
    refine ⟨hl.join fun x hx => ?_, .refl s⟩
    simp only [List.mem_append, List.mem_cons] at hx ⊢
    rcases hx with hx | rfl | hx <;> simp [*, Sender.of]
  | @pick a b _ ds running hrows _ _ =>
    refine ⟨hl.join fun x hx => ?_, .refl s⟩
    simp only [List.mem_append, List.mem_map] at hx ⊢
    rcases hx with hx | ⟨d, -, rfl⟩ | hx <;> simp [*, Sender.of]
  | quit a b _ d =>
    refine ⟨hl.subset fun x hx => ?_, .refl s⟩
    simp only [List.mem_append, List.mem_cons] at hx ⊢
    tauto
  | lost a b c _ =>
    refine ⟨hl.subset fun x hx => ?_, .refl s⟩
    simp only [List.mem_append] at hx ⊢
    tauto
  | block a b _ => exact ⟨hl.conclude rfl rfl (by simp) fun _ => hok, .refl s⟩
  | retry a b hdb hcreated _ =>
    have hrows : t.db.webhookDeliveries = s.db.webhookDeliveries := by rw [hdb]
    refine ⟨(hl.of_eq hrows hcreated).join fun x hx => ?_, .of_rows hcreated fun d hd => ?_⟩
    · simp only [List.mem_append, List.mem_cons] at hx ⊢
      rcases hx with hx | rfl | hx <;> simp [*]
    · rw [hrows] at hd
      exact ⟨d, hd, rfl, fun hst => hst⟩
  | @answer a b _ _ id base n stored ok p status hstatus hdb hcreated _ =>
    have hrows : t.db.webhookDeliveries = s.db.webhookDeliveries := by rw [hdb]
    constructor
    · refine (hl.conclude (y := ⟨id, base, n + 1, true, stored, some (status, base + (n + 1))⟩)
        rfl rfl ?_ ?_).of_eq hrows hcreated
      · intro hst
        cases hstatus.mpr hst
        exact hok
      · intro hst
        cases Bool.eq_false_iff.mpr fun h => hst (hstatus.mp h)
        exact hok
    · refine .of_rows hcreated fun d hd => ?_
      rw [hrows] at hd
      exact ⟨d, hd, rfl, fun hst => hst⟩
  | write a b => exact hl.write rfl
  | @requeue _ _ now merchantId ids =>
    have hrows : ∀ d ∈ (s.db.requeueFailedDeliveries now merchantId ids).2.webhookDeliveries.rows,
        ∃ d₀ ∈ s.db.webhookDeliveries.rows, d₀.id = d.id ∧
        (d.status = .delivered ↔ d₀.status = .delivered) := by
      intro d hd
      obtain ⟨d₀, hd₀, rfl⟩ := (Table.mem_update (Db.requeueRow_keys now)).mp hd
      refine ⟨d₀, hd₀, ?_⟩
      split_ifs with hhit
      · simp only [Db.requeueable, Bool.and_eq_true, decide_eq_true_eq] at hhit
        simp [Db.requeueRow, hhit.1.1]
      · exact ⟨rfl, Iff.rfl⟩
    constructor
    · exact hl.of_rows rfl fun d hd => by
        obtain ⟨d₀, hd₀, hid, hst⟩ := hrows d hd
        exact ⟨d₀, hd₀, hid, hst.mp⟩
    · exact .of_rows rfl fun d hd => by
        obtain ⟨d₀, hd₀, hid, hst⟩ := hrows d hd
        exact ⟨d₀, hd₀, hid, hst.mpr⟩
  | retain _ hrows =>
    constructor
    · exact hl.of_rows rfl fun d hd => by
        obtain ⟨d₀, hd₀, hid, hst, -⟩ := hrows d hd
        exact ⟨d₀, hd₀, hid.symm, fun h => hst ▸ h⟩
    · exact .of_rows rfl fun d hd => by
        obtain ⟨d₀, hd₀, hid, hst, -⟩ := hrows d hd
        exact ⟨d₀, hd₀, hid.symm, fun h => hst ▸ h⟩

/-- The step fits in with what the senders at work have achieved. -/
def FitsIn (site : Site) (w : Pool Job Ledger) (a : Act Request JobReply) : Prop :=
  Consistent (senders w) w.store (deed site w a)

theorem undisputed_step {w v : Pool Job Ledger} {a : Act Request JobReply} (hok : FitsIn site w a)
    (h : (machine site).step w a = some v)
    (hw : (∀ j ∈ w.procs, Ready site j) ∧ Undisputed (senders w) w.store) :
    ((∀ j ∈ v.procs, Ready site j) ∧ Undisputed (senders v) v.store) ∧ Stays w.store v.store := by
  obtain ⟨hundisputed, hstays⟩ := (step_move hw.1 h).stays hok hw.2
  exact ⟨⟨readyStep h hw.1, hundisputed⟩, hstays⟩

end

/-- In a run whose steps fit in, a delivery that is delivered stays delivered. -/
theorem delivered_absorbing {site : Site} {db : Db} {as bs : List (Act Request JobReply)}
    {w v : Pool Job Ledger} (hw : run (machine site).step (begin db) as = some w)
    (hv : run (machine site).step w bs = some v)
    (has : Along (machine site).step (FitsIn site) (begin db) as)
    (hbs : Along (machine site).step (FitsIn site) w bs) :
    ∀ d ∈ w.store.db.webhookDeliveries.rows, d.status = .delivered →
      ∀ d' ∈ v.store.db.webhookDeliveries.rows, d'.id = d.id → d'.status = .delivered := by
  have hinit : (∀ j ∈ (begin db).procs, Ready site j) ∧
      Undisputed (senders (begin db)) (begin db).store := by
    refine ⟨(fun j hj => nomatch hj), ⟨?_, ?_, ?_⟩⟩
    · exact fun d hd => nomatch hd
    · exact fun x hx => nomatch hx
    · exact fun x hx => nomatch hx
  have hreach := has.invariant
    (I := fun x => (∀ j ∈ x.procs, Ready site j) ∧ Undisputed (senders x) x.store)
    (fun x a y hok h hx => (undisputed_step hok h hx).1) hw hinit
  have hlast := hbs.invariant
    (I := fun x => ((∀ j ∈ x.procs, Ready site j) ∧ Undisputed (senders x) x.store) ∧
      Stays w.store x.store)
    (fun x a y hok h hx => by
      obtain ⟨hinv, hstays⟩ := undisputed_step hok h hx.1
      exact ⟨hinv, hx.2.trans hstays⟩) hv ⟨hreach, .refl w.store⟩
  intro d hd hst d' hd' hid
  obtain ⟨c, hc, hcid⟩ := hreach.2.ids d hd
  obtain ⟨d₀, hd₀, hid₀, hkeep⟩ := hlast.2.rows d' hd' ⟨c, hc, hcid.trans hid.symm⟩
  have hsame : d₀ = d := Table.eq_of_key (k := WebhookDelivery.id) (by simp) hd₀ hd (hid₀.trans hid)
  exact hkeep (hsame ▸ hst)

instance (l : List Sender) (s : Ledger) : ∀ e, Decidable (Consistent l s e)
  | .store id | .unsaved id =>
    inferInstanceAs (Decidable ((∀ c ∈ s.created, c.id ≠ id) ∧ ∀ x ∈ l, x.id ≠ id))
  | .answer id true =>
    inferInstanceAs (Decidable (∀ x ∈ l, x.id = id → ∀ o ∈ x.due, o.1 = .delivered))
  | .answer id false | .block id => inferInstanceAs (Decidable
      ((∀ d ∈ s.db.webhookDeliveries.rows, d.id = id → d.status ≠ .delivered) ∧
        ∀ x ∈ l, x.id = id → ∀ o ∈ x.due, o.1 ≠ .delivered))
  | .idle | .pick _ _ | .start _ | .quit _ | .retry _ | .write _ | .requeue _ | .retain | .lost =>
    .isTrue trivial

instance (site : Site) (w : Pool Job Ledger) (a : Act Request JobReply) :
    Decidable (FitsIn site w a) :=
  inferInstanceAs (Decidable (Consistent _ _ _))

namespace Sample

def stock : Db := { Db.empty with payments := ⟨[payment], by simp⟩ }

def accepted : List (Act Request JobReply) :=
  .spawn (.dispatch ⟨payment, .completed, none⟩) :: .exec 0 (reply 1777475400 true "d1") ::
    List.replicate 3 (.exec 0 (reply 1777475400 true "d2"))

/-- Job `i` is a redelivery of the delivery, with the receiver's answer. -/
def redelivered (i : ℕ) (ok : Bool) : List (Act Request JobReply) :=
  .spawn (.redeliverWebhook "m" "p1" "d1") :: List.replicate 3
    (.exec i (reply 1777480000 true "d2")) ++
    [.exec i (reply 1777480000 ok "d2"), .exec i (reply 1777480000 true "d2")]

def statuses (w : Pool Job Ledger) : List (String × DeliveryStatus) :=
  w.store.db.webhookDeliveries.rows.map fun d => (d.id, d.status)

end Sample

/-- A redelivery that the receiver accepts again. -/
theorem delivered_absorbing_redelivered : ∃ w v,
    run (machine Sample.site).step (begin Sample.stock) Sample.accepted = some w ∧
    run (machine Sample.site).step w (Sample.redelivered 1 true) = some v ∧
    Sample.statuses w = [("d1", .delivered)] ∧
    ∀ d ∈ w.store.db.webhookDeliveries.rows, d.status = .delivered →
      ∀ d' ∈ v.store.db.webhookDeliveries.rows, d'.id = d.id → d'.status = .delivered := by
  obtain ⟨w, hw, hstatus, hok, hv⟩ := exists_of_run (machine Sample.site).step (begin Sample.stock)
    Sample.accepted (P := fun w => Sample.statuses w = [("d1", .delivered)] ∧
      Along (machine Sample.site).step (FitsIn Sample.site) w (Sample.redelivered 1 true) ∧
      (run (machine Sample.site).step w (Sample.redelivered 1 true)).isSome = true)
      (by decide +kernel)
  obtain ⟨v, hv⟩ := Option.isSome_iff_exists.mp hv
  exact ⟨w, v, hw, hv, hstatus, delivered_absorbing hw hv (by decide +kernel) hok⟩

/-- A redelivery of a delivered row that the receiver refuses. -/
theorem delivered_then_failed : ∃ w v,
    run (machine Sample.site).step (begin Sample.stock) Sample.accepted = some w ∧
    run (machine Sample.site).step w (Sample.redelivered 1 false) = some v ∧
    Along (machine Sample.site).step (Machine.OnExec Fresh) (begin Sample.stock)
      (Sample.accepted ++ Sample.redelivered 1 false) ∧
    Sample.statuses w = [("d1", .delivered)] ∧ Sample.statuses v = [("d1", .failed)] := by
  obtain ⟨w, hw, hstatus, hv⟩ := exists_of_run (machine Sample.site).step (begin Sample.stock)
    Sample.accepted (P := fun w => Sample.statuses w = [("d1", .delivered)] ∧
      (run (machine Sample.site).step w (Sample.redelivered 1 false)).any
        (fun v => decide (Sample.statuses v = [("d1", .failed)])) = true) (by decide +kernel)
  obtain ⟨v, hv, hfailed⟩ :=
      exists_of_run _ _ _ (P := fun v => Sample.statuses v = [("d1", .failed)]) hv
  exact ⟨w, v, hw, hv, by decide +kernel, hstatus, hfailed⟩

end Jobs
end StellarGate
