import StellarGate.Webhook.Delivered

/-! What `attempts` counts. Every sender writes one more than it has read, so the column counts the
POSTs of a delivery as long as its senders come one after the other. -/
namespace StellarGate
open Base

namespace Jobs

/-- The deed starts the count of a delivery again. -/
def restarts (id : String) : Deed → Bool
  | .store i => i = id
  | .requeue ids => ids.contains id
  | _ => false

/-- The POSTs on record for a delivery. -/
def postsFor (id : String) (s : Ledger) : ℕ := s.sent.countP (·.deliveryId = id)

/-- The number of POSTs sent for a delivery since it was created or last
requeued, after one more step. -/
def recount (site : Site) (id : String) (w : Pool Job Ledger) (a : Act Request JobReply)
    (v : Pool Job Ledger) (n : ℕ) : ℕ :=
  if restarts id (deed site w a) then 0 else n + (postsFor id v.store - postsFor id w.store)

/-- Where the senders of a delivery come one after the other, and none is at work when it is
requeued; no statement fails and no process dies. -/
def Alone (id : String) (l : List Sender) : Deed → Prop
  | .store i => i = id → ∀ x ∈ l, x.id ≠ id
  | .pick _ ids | .requeue ids => id ∈ ids → ∀ x ∈ l, x.id ≠ id
  | .unsaved _ | .lost => False
  | _ => True

/-- What the sender at work on a delivery knows of it. -/
structure Tracks (x : Sender) (s : Ledger) (n : ℕ) : Prop where
  stored : x.stored = true
  count : x.base + x.sent = n
  due : ∀ o ∈ x.due, o.2 = n
  rows : ∀ d ∈ s.db.webhookDeliveries.rows, d.id = x.id → d.attempts = x.base

structure Counted (id : String) (l : List Sender) (s : Ledger) (n : ℕ) : Prop where
  one : l.countP (·.id = id) ≤ 1
  busy : ∀ x ∈ l, x.id = id → Tracks x s n
  idle : (∀ x ∈ l, x.id ≠ id) → ∀ d ∈ s.db.webhookDeliveries.rows, d.id = id → d.attempts = n

section
variable {site : Site} {id : String} {s t : Ledger} {l m : List Sender} {x y : Sender}
  {n k : ℕ} {e : Deed}

theorem Counted.others (h : Counted id (l ++ x :: m) s n) (hx : x.id = id) :
    ∀ y ∈ l ++ m, y.id ≠ id := by
  intro y hy hid
  have hpos : 0 < (l ++ m).countP (·.id = id) := List.countP_pos_iff.mpr ⟨y, hy, by simpa using hid⟩
  have hone := h.one
  simp only [List.countP_append, List.countP_cons, hx, decide_true, if_true] at hone hpos
  omega

theorem Tracks.of_eq (h : Tracks x s n) (hrows : t.db.webhookDeliveries = s.db.webhookDeliveries) :
    Tracks x t n := by
  refine ⟨h.stored, h.count, h.due, ?_⟩
  rw [hrows]
  exact h.rows

theorem Counted.of_eq (h : Counted id l s n)
    (hrows : t.db.webhookDeliveries = s.db.webhookDeliveries) :
    Counted id l t n := by
  refine ⟨h.one, fun x hx hid => (h.busy x hx hid).of_eq hrows, ?_⟩
  rw [hrows]
  exact h.idle

theorem Counted.replace (h : Counted id (l ++ x :: m) s n)
    (hrows : t.db.webhookDeliveries = s.db.webhookDeliveries) (hid : y.id = x.id)
    (hy : x.id = id → Tracks x s n → Tracks y t k) (hk : x.id ≠ id → k = n) :
    Counted id (l ++ y :: m) t k := by
  have hx : x ∈ l ++ x :: m := by simp
  refine ⟨?_, ?_, ?_⟩
  · have hone := h.one
    rw [List.countP_append, List.countP_cons] at hone ⊢
    rw [hid]
    exact hone
  · intro z hz hzid
    by_cases hxid : x.id = id
    · have hzy : z = y := by
        by_contra hne
        refine h.others hxid z ?_ hzid
        simp only [List.mem_append, List.mem_cons] at hz ⊢
        tauto
      rw [hzy]
      exact hy hxid (h.busy x hx hxid)
    · rw [hk hxid]
      refine (h.busy z ?_ hzid).of_eq hrows
      simp only [List.mem_append, List.mem_cons] at hz ⊢
      rcases hz with hz | rfl | hz
      · exact .inl hz
      · exact absurd (hid.symm.trans hzid) hxid
      · exact .inr (.inr hz)
  · intro hnone
    have hxid : x.id ≠ id := fun hxid => hnone y (by simp) (hid.trans hxid)
    rw [hk hxid, hrows]
    refine h.idle fun z hz hzid => ?_
    simp only [List.mem_append, List.mem_cons] at hz
    rcases hz with hz | rfl | hz
    · exact hnone z (by simp [hz]) hzid
    · exact hxid hzid
    · exact hnone z (by simp [hz]) hzid

theorem Counted.finish (h : Counted id (l ++ x :: m) s n)
    (hsame : ∀ d ∈ t.db.webhookDeliveries.rows, d.id ≠ x.id → d ∈ s.db.webhookDeliveries.rows)
    (hx : x.id = id → ∀ d ∈ t.db.webhookDeliveries.rows, d.id = id → d.attempts = n) :
    Counted id (l ++ m) t n := by
  have hsub : ∀ z ∈ l ++ m, z ∈ l ++ x :: m := by
    intro z hz
    simp only [List.mem_append, List.mem_cons] at hz ⊢
    tauto
  refine ⟨?_, ?_, ?_⟩
  · have hone := h.one
    rw [List.countP_append, List.countP_cons] at hone
    rw [List.countP_append]
    omega
  · intro z hz hzid
    have hxid : x.id ≠ id := fun hxid => h.others hxid z hz hzid
    obtain ⟨hstored, hcount, hdue, hrows⟩ := h.busy z (hsub z hz) hzid
    refine ⟨hstored, hcount, hdue, fun d hd hdz => hrows d (hsame d hd ?_) hdz⟩
    rw [hdz, hzid]
    exact hxid.symm
  · intro hnone d hd hdid
    by_cases hxid : x.id = id
    · exact hx hxid d hd hdid
    · refine h.idle (fun z hz hzid => ?_) d (hsame d hd fun he => hxid (he.symm.trans hdid)) hdid
      simp only [List.mem_append, List.mem_cons] at hz
      rcases hz with hz | rfl | hz
      · exact hnone z (by simp [hz]) hzid
      · exact hxid hzid
      · exact hnone z (by simp [hz]) hzid

theorem Counted.pick {ds : List WebhookDelivery} {running : Bool} (h : Counted id (l ++ m) s n)
    (hok : id ∈ ds.map WebhookDelivery.id → ∀ x ∈ l ++ m, x.id ≠ id)
    (hrows : ∀ d ∈ ds, ∃ row ∈ s.db.webhookDeliveries.rows, rowToWebhookDelivery row = d)
    (hids : (ds.map WebhookDelivery.id).Nodup) :
    Counted id (l ++ (ds.map (Sender.of · running) ++ m)) s n := by
  have hcases : ∀ z ∈ l ++ (ds.map (Sender.of · running) ++ m),
      z ∈ l ++ m ∨ ∃ d ∈ ds, z = .of d running := by
    intro z hz
    simp only [List.mem_append, List.mem_map] at hz ⊢
    rcases hz with hz | ⟨d, hd, rfl⟩ | hz
    · exact .inl (.inl hz)
    · exact .inr ⟨d, hd, rfl⟩
    · exact .inl (.inr hz)
  have hcount : (ds.map (Sender.of · running)).countP (·.id = id) =
      (ds.map WebhookDelivery.id).count id := by
    rw [List.count, List.countP_map, List.countP_map]
    rfl
  have hsum : (l ++ (ds.map (Sender.of · running) ++ m)).countP (·.id = id) =
      (l ++ m).countP (·.id = id) + (ds.map WebhookDelivery.id).count id := by
    rw [List.countP_append, List.countP_append, List.countP_append, hcount]
    omega
  refine ⟨?_, ?_, ?_⟩
  · rw [hsum]
    by_cases hin : id ∈ ds.map WebhookDelivery.id
    · have hzero : (l ++ m).countP (·.id = id) = 0 :=
        List.countP_eq_zero.mpr fun x hx => by simpa using hok hin x hx
      rw [hzero]
      have := List.nodup_iff_count_le_one.mp hids id
      omega
    · rw [List.count_eq_zero.mpr hin]
      exact h.one
  · intro z hz hzid
    rcases hcases z hz with hz | ⟨d, hd, rfl⟩
    · exact h.busy z hz hzid
    · have hidle := h.idle (hok (List.mem_map.mpr ⟨d, hd, hzid⟩))
      obtain ⟨row, hrow, rfl⟩ := hrows d hd
      have hn : row.attempts = n := hidle row hrow hzid
      refine ⟨rfl, ?_, (fun o ho => nomatch ho), fun d' hd' hid' => ?_⟩
      · simpa [Sender.of, rowToWebhookDelivery] using hn
      · have hd'n := hidle d' hd' (hid'.trans hzid)
        simpa [Sender.of, rowToWebhookDelivery, hn] using hd'n
  · intro hnone
    exact h.idle fun z hz => hnone z (by
      simp only [List.mem_append] at hz ⊢
      tauto)

theorem Counted.store {d : WebhookDelivery} (h : Counted id (l ++ m) s n)
    (hok : d.id = id → ∀ x ∈ l ++ m, x.id ≠ id) (hnew : d.attempts = 0)
    (hrows : t.db.webhookDeliveries.rows = s.db.webhookDeliveries.rows ++ [d])
    (hk : k = if d.id = id then 0 else n) :
    Counted id (l ++ ⟨d.id, 0, 0, true, true, none⟩ :: m) t k := by
  by_cases hid : d.id = id
  · rw [if_pos hid] at hk
    subst hk
    have hrow : ∀ d' ∈ t.db.webhookDeliveries.rows, d'.id = id → d'.attempts = 0 := by
      intro d' hd' hid'
      have hd : d ∈ t.db.webhookDeliveries.rows := by simp [hrows]
      have hsame : d' = d :=
        Table.eq_of_key (k := WebhookDelivery.id) (by simp) hd' hd (hid'.trans hid.symm)
      rw [hsame, hnew]
    have hzero : (l ++ m).countP (·.id = id) = 0 :=
      List.countP_eq_zero.mpr fun x hx => by simpa using hok hid x hx
    refine ⟨?_, ?_, ?_⟩
    · rw [List.countP_append] at hzero
      rw [List.countP_append, List.countP_cons, if_pos (by simpa using hid)]
      omega
    · intro z hz hzid
      simp only [List.mem_append, List.mem_cons] at hz
      rcases hz with hz | rfl | hz
      · exact absurd hzid (hok hid z (by simp [hz]))
      · exact ⟨rfl, rfl, (fun o ho => nomatch ho), fun d' hd' hid' => hrow d' hd' (hid'.trans hid)⟩
      · exact absurd hzid (hok hid z (by simp [hz]))
    · exact fun _ => hrow
  · rw [if_neg hid] at hk
    subst hk
    have hsame : ∀ d' ∈ t.db.webhookDeliveries.rows, d'.id = id →
        d' ∈ s.db.webhookDeliveries.rows := by
      intro d' hd' hid'
      rw [hrows] at hd'
      rcases List.mem_append.mp hd' with hd' | hd'
      · exact hd'
      · rw [List.mem_singleton.mp hd'] at hid'
        exact absurd hid' hid
    refine ⟨?_, ?_, ?_⟩
    · have hone := h.one
      rw [List.countP_append] at hone
      rw [List.countP_append, List.countP_cons, if_neg (by simpa using hid)]
      omega
    · intro z hz hzid
      simp only [List.mem_append, List.mem_cons] at hz
      have hz' : z ∈ l ++ m := by
        rcases hz with hz | rfl | hz
        · simp [hz]
        · exact absurd hzid hid
        · simp [hz]
      obtain ⟨hstored, hcount, hdue, htrack⟩ := h.busy z hz' hzid
      exact ⟨hstored, hcount, hdue, fun d' hd' hdz => htrack d' (hsame d' hd' (hdz.trans hzid)) hdz⟩
    · intro hnone d' hd' hid'
      refine h.idle (fun z hz => hnone z ?_) d' (hsame d' hd' hid') hid'
      simp only [List.mem_append, List.mem_cons] at hz ⊢
      tauto

variable (id) in
theorem postsFor_sent {i : String} {stored : Bool} {p : Post}
    (h : t.sent = s.sent ++ if stored then [⟨i, p⟩] else []) :
    postsFor id t = postsFor id s + if stored ∧ i = id then 1 else 0 := by
  unfold postsFor
  rw [h, List.countP_append]
  cases stored
  · simp
  · by_cases hi : i = id <;> simp [hi]

theorem Tracks.send {stored : Bool} {base : ℤ} {j : ℕ} {i : String}
    {due : Option (DeliveryStatus × ℤ)} (h : Tracks ⟨i, base, j, true, stored, none⟩ s n)
    (hrows : t.db.webhookDeliveries = s.db.webhookDeliveries)
    (hdue : ∀ o ∈ due, o.2 = base + (j + 1)) :
    Tracks ⟨i, base, j + 1, true, stored, due⟩ t (n + 1) := by
  have hcount : base + j = n := h.count
  refine ⟨h.stored, ?_, fun o ho => ?_, ?_⟩
  · push_cast
    omega
  · rw [hdue o ho]
    push_cast
    omega
  · rw [hrows]
    exact h.rows

theorem Counted.send {stored : Bool} {base : ℤ} {j : ℕ} {i : String} {p : Post}
    {due : Option (DeliveryStatus × ℤ)}
    (h : Counted id (l ++ ⟨i, base, j, true, stored, none⟩ :: m) s n) (hdb : t.db = s.db)
    (hsent : t.sent = s.sent ++ if stored then [⟨i, p⟩] else [])
    (hdue : ∀ o ∈ due, o.2 = base + (j + 1)) :
    Counted id (l ++ ⟨i, base, j + 1, true, stored, due⟩ :: m) t
      (n + (postsFor id t - postsFor id s)) := by
  have hrows : t.db.webhookDeliveries = s.db.webhookDeliveries := by rw [hdb]
  have hposts := postsFor_sent id hsent
  refine h.replace hrows rfl (fun hi htrack => ?_) fun hi => ?_
  · have hone : postsFor id t - postsFor id s = 1 := by
      rw [hposts, if_pos ⟨htrack.stored, hi⟩]
      omega
    rw [hone]
    exact htrack.send hrows hdue
  · rw [hposts, if_neg fun hand => hi hand.2]
    omega

theorem Counted.write {stored : Bool} {base now attempts : ℤ} {j : ℕ} {i : String}
    {status : DeliveryStatus}
    (h : Counted id (l ++ ⟨i, base, j, true, stored, some (status, attempts)⟩ :: m) s n) :
    Counted id (l ++ m) { s with db := s.db.updateWebhookDelivery now i status attempts } n := by
  have hmem := @Table.mem_update _ _ _ s.db.webhookDeliveries (fun d => decide (d.id = i))
    (Db.deliveryRow now status attempts) (Db.deliveryRow_keys now status attempts)
  refine h.finish (fun d hd hne => ?_) fun hi d hd hid => ?_
  · obtain ⟨d₀, hd₀, rfl⟩ := hmem.mp hd
    split_ifs at hne ⊢ with hhit
    · exact absurd (of_decide_eq_true hhit) hne
    · exact hd₀
  · have htrack := h.busy _ (by simp) hi
    obtain ⟨d₀, hd₀, rfl⟩ := hmem.mp hd
    split_ifs at hid ⊢ with hhit
    · exact htrack.due _ rfl
    · exact absurd (decide_eq_true (hid.trans hi.symm)) hhit

theorem Counted.requeue {now : ℤ} {merchantId : String} {ids : List String} (h : Counted id l s n)
    (hok : id ∈ (s.db.webhookDeliveries.rows.filter (Db.requeueable merchantId ids s.db)).map
      WebhookDelivery.id → ∀ x ∈ l, x.id ≠ id)
    (hk : k = if ((s.db.webhookDeliveries.rows.filter (Db.requeueable merchantId ids s.db)).map
      WebhookDelivery.id).contains id then 0 else n) :
    Counted id l { s with db := (s.db.requeueFailedDeliveries now merchantId ids).2 } k := by
  have hmem := @Table.mem_update _ _ _ s.db.webhookDeliveries (Db.requeueable merchantId ids s.db)
    (Db.requeueRow now) (Db.requeueRow_keys now)
  have hhit : ∀ d ∈ s.db.webhookDeliveries.rows, Db.requeueable merchantId ids s.db d = true →
      d.id = id →
      id ∈ (s.db.webhookDeliveries.rows.filter (Db.requeueable merchantId ids s.db)).map
        WebhookDelivery.id := fun d hd hq hid =>
    List.mem_map.mpr ⟨d, List.mem_filter.mpr ⟨hd, hq⟩, hid⟩
  by_cases hin : id ∈ (s.db.webhookDeliveries.rows.filter (Db.requeueable merchantId ids s.db)).map
      WebhookDelivery.id
  · rw [if_pos (by simpa using hin)] at hk
    subst hk
    have hnone := hok hin
    refine ⟨h.one, fun x hx hid => absurd hid (hnone x hx), fun _ d hd hid => ?_⟩
    obtain ⟨d₀, hd₀, rfl⟩ := hmem.mp hd
    split_ifs at hid ⊢ with hq
    · rfl
    · -- a row of this id that is not hit would be a second one
      obtain ⟨d₁, hd₁, hid₁⟩ := List.mem_map.mp hin
      obtain ⟨hd₁, hq₁⟩ := List.mem_filter.mp hd₁
      have hsame : d₀ = d₁ :=
        Table.eq_of_key (k := WebhookDelivery.id) (by simp) hd₀ hd₁ (hid.trans hid₁.symm)
      exact absurd (hsame ▸ hq₁) hq
  · rw [if_neg (by simpa using hin)] at hk
    subst hk
    have hsame : ∀ d ∈ (s.db.requeueFailedDeliveries now merchantId ids).2.webhookDeliveries.rows,
        d.id = id → d ∈ s.db.webhookDeliveries.rows := by
      intro d hd hid
      obtain ⟨d₀, hd₀, rfl⟩ := hmem.mp hd
      split_ifs at hid ⊢ with hq
      · exact absurd (hhit d₀ hd₀ hq hid) hin
      · exact hd₀
    refine ⟨h.one, fun x hx hid => ?_, fun hnone d hd hid => h.idle hnone d (hsame d hd hid) hid⟩
    obtain ⟨hstored, hcount, hdue, hrows⟩ := h.busy x hx hid
    exact ⟨hstored, hcount, hdue, fun d hd hdx => hrows d (hsame d hd (hdx.trans hid)) hdx⟩

theorem Counted.retain {db : Db} (h : Counted id l s n)
    (hrows : ∀ d ∈ db.webhookDeliveries.rows, ∃ d₀ ∈ s.db.webhookDeliveries.rows,
      d.id = d₀.id ∧ d.status = d₀.status ∧ d.attempts = d₀.attempts) : Counted id l
        { s with db } n := by
  refine ⟨h.one, fun x hx hid => ?_, fun hnone d hd hid => ?_⟩
  · obtain ⟨hstored, hcount, hdue, htrack⟩ := h.busy x hx hid
    refine ⟨hstored, hcount, hdue, fun d hd hdx => ?_⟩
    obtain ⟨d₀, hd₀, hid₀, -, hatt⟩ := hrows d hd
    rw [hatt]
    exact htrack d₀ hd₀ (hid₀.symm.trans hdx)
  · obtain ⟨d₀, hd₀, hid₀, -, hatt⟩ := hrows d hd
    rw [hatt]
    exact h.idle hnone d₀ hd₀ (hid₀.symm.trans hid)

/-- A step that lets the senders come one after the other keeps the count. -/
theorem Move.counted (h : Move site e l s m t) (hok : Alone id l e) (hl : Counted id l s n) :
    Counted id m t (if restarts id e then 0 else n + (postsFor id t - postsFor id s)) := by
  have hquiet (hsent : t.sent = s.sent) : n + (postsFor id t - postsFor id s) = n := by
    unfold postsFor
    rw [hsent]
    omega
  cases h with
  | idle _ hrows _ hsent =>
    rw [hquiet hsent]
    exact hl.of_eq hrows
  | store a b hrows hnew _ _ hsent =>
    rw [hquiet hsent]
    exact hl.store hok hnew.2 hrows (by simp [restarts])
  | unsaved a b _ i => exact hok.elim
  | pick a b hrows hids _ =>
    rw [hquiet rfl]
    exact hl.pick hok hrows hids
  | start a b _ d =>
    rw [hquiet rfl]
    exact hl.replace rfl rfl (fun _ htrack => ⟨rfl, htrack.count, htrack.due, htrack.rows⟩) fun _ =>
      rfl
  | quit a b _ d =>
    rw [hquiet rfl]
    refine hl.finish (fun d' hd' _ => hd') fun hid d' hd' hid' => ?_
    have htrack := hl.busy _ (by simp) hid
    have hcount : d.attempts + (0 : ℕ) = (n : ℤ) := htrack.count
    rw [htrack.rows d' hd' (hid'.trans hid.symm)]
    simpa [Sender.of] using hcount
  | block a b _ =>
    rw [hquiet rfl]
    refine hl.replace rfl rfl (fun _ htrack => ⟨htrack.stored, htrack.count, ?_, htrack.rows⟩)
      fun _ => rfl
    rintro o ⟨⟩
    simpa [restarts] using htrack.count
  | retry a b hdb _ hsent => exact hl.send hdb hsent fun o ho => by cases ho
  | answer a b _ hdb _ hsent =>
    refine hl.send hdb hsent ?_
    rintro o ⟨⟩
    rfl
  | write a b =>
    rw [hquiet rfl]
    exact hl.write
  | requeue _ =>
    rw [hquiet rfl]
    exact hl.requeue hok rfl
  | retain _ hrows =>
    rw [hquiet rfl]
    exact hl.retain hrows
  | lost a b c _ => exact hok.elim

end

/-- The senders of a delivery come one after the other. -/
def OneByOne (site : Site) (id : String) (w : Pool Job Ledger) (a : Act Request JobReply) : Prop :=
  Alone id (senders w) (deed site w a)

/-- Where the senders of a delivery come one after the other, `attempts` is the number of POSTs sent
for it since it was created or last requeued, whenever no sender of it is at work. -/
theorem attempts_eq_posts {site : Site} {db : Db} {id : String} {as : List (Act Request JobReply)}
    {w : Pool Job Ledger} (hr : run (machine site).step (begin db) as = some w)
    (hok : Along (machine site).step (OneByOne site id) (begin db) as)
    (hidle : ∀ x ∈ senders w, x.id ≠ id) :
    ∀ d ∈ w.store.db.webhookDeliveries.rows, d.id = id →
      d.attempts = observe (machine site).step (recount site id) 0 (begin db) as := by
  have hinv := hok.observe (f := recount site id) (g := 0)
    (I := fun x n => (∀ j ∈ x.procs, Ready site j) ∧ Counted id (senders x) x.store n)
    (fun x a y n hok h hx => ⟨readyStep h hx.1, (step_move hx.1 h).counted hok hx.2⟩) hr
    ⟨(fun j hj => nomatch hj),
      ⟨by simp [senders, begin], (fun x hx => nomatch hx), fun _ d hd => nomatch hd⟩⟩
  exact hinv.2.idle hidle

instance (id : String) (l : List Sender) : ∀ e, Decidable (Alone id l e)
  | .store i => inferInstanceAs (Decidable (i = id → ∀ x ∈ l, x.id ≠ id))
  | .pick _ ids | .requeue ids => inferInstanceAs (Decidable (id ∈ ids → ∀ x ∈ l, x.id ≠ id))
  | .unsaved _ | .lost => .isFalse fun h => h
  | .idle | .start _ | .quit _ | .block _ | .retry _ | .answer _ _ | .write _ | .retain =>
    .isTrue trivial

instance (site : Site) (id : String) (w : Pool Job Ledger) (a : Act Request JobReply) :
    Decidable (OneByOne site id w a) :=
  inferInstanceAs (Decidable (Alone _ _ _))

def Undisturbed : Act Request JobReply → Prop
  | .exec _ r => r.works = true
  | .cut _ => False
  | .spawn _ | .fail _ => True

instance : ∀ a, Decidable (Undisturbed a)
  | .exec _ r => inferInstanceAs (Decidable (r.works = true))
  | .cut _ => .isFalse id
  | .spawn _ | .fail _ => .isTrue trivial

namespace Sample

/-- Jobs 1 and 2 are redeliveries of the delivery that overlap. -/
def overlapping : List (Act Request JobReply) :=
  .spawn (.redeliverWebhook "m" "p1" "d1") :: .spawn (.redeliverWebhook "m" "p1" "d1") ::
    (List.replicate 3 (.exec 1 (reply 1777480000 true "d2")) ++
      List.replicate 5 (.exec 2 (reply 1777480000 true "d2")) ++
      List.replicate 2 (.exec 1 (reply 1777480000 true "d2")))

def attempts (w : Pool Job Ledger) : List (String × ℤ) :=
  w.store.db.webhookDeliveries.rows.map fun d => (d.id, d.attempts)

end Sample

/-- A dispatch and a redelivery that is refused, one after the other. -/
theorem attempts_eq_posts_redelivered : ∃ w,
    run (machine Sample.site).step (begin Sample.stock)
      (Sample.accepted ++ Sample.redelivered 1 false) = some w ∧
    Sample.attempts w = [("d1", 2)] ∧
    ∀ d ∈ w.store.db.webhookDeliveries.rows, d.id = "d1" →
      d.attempts = observe (machine Sample.site).step (recount Sample.site "d1") 0
        (begin Sample.stock) (Sample.accepted ++ Sample.redelivered 1 false) := by
  obtain ⟨w, hw, hatt, hidle⟩ := exists_of_run (machine Sample.site).step (begin Sample.stock)
    (Sample.accepted ++ Sample.redelivered 1 false)
    (P := fun w => Sample.attempts w = [("d1", 2)] ∧ ∀ x ∈ senders w, x.id ≠ "d1")
    (by decide +kernel)
  exact ⟨w, hw, hatt, attempts_eq_posts hw (by decide +kernel) hidle⟩

/-- Two redeliveries that overlap write the same number: three POSTs count as two. -/
theorem overlapping_miscounted : ∃ w,
    run (machine Sample.site).step (begin Sample.stock) (Sample.accepted ++ Sample.overlapping) =
      some w ∧
    (∀ a ∈ Sample.accepted ++ Sample.overlapping, Undisturbed a) ∧ senders w = [] ∧
    Sample.attempts w = [("d1", 2)] ∧
    observe (machine Sample.site).step (recount Sample.site "d1") 0 (begin Sample.stock)
      (Sample.accepted ++ Sample.overlapping) = 3 := by
  obtain ⟨w, hw, hidle, hatt⟩ := exists_of_run (machine Sample.site).step (begin Sample.stock)
    (Sample.accepted ++ Sample.overlapping)
    (P := fun w => senders w = [] ∧ Sample.attempts w = [("d1", 2)]) (by decide +kernel)
  exact ⟨w, hw, by decide, hidle, hatt, by decide +kernel⟩

end Jobs
end StellarGate
