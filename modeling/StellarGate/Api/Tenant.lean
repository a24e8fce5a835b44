import StellarGate.Api.Merchant

/-! Tenant isolation: what a merchant's requests see and change depends on the rows
of that merchant alone. -/
namespace StellarGate
open Base Listing

def Db.OwnDelivery (m : String) (db : Db) (d : WebhookDelivery) : Prop :=
  d ∈ db.webhookDeliveries.rows ∧ db.owns m d.paymentId = true

/-- A key without `last_used_at`. -/
def ApiKey.lasting (k : ApiKey) : ApiKey := { k with lastUsedAt := none }

namespace Tenant

/-- The databases hold the same payments of the merchant and the same deliveries of those. -/
structure SameRows (m : String) (db db' : Db) : Prop where
  payments : ∀ p : Payment, p.merchantId = m → (p ∈ db.payments.rows ↔ p ∈ db'.payments.rows)
  deliveries : ∀ d, db.OwnDelivery m d ↔ db'.OwnDelivery m d

/-- The stores agree on everything of the merchant. -/
structure Agree (m : String) (s s' : Store) : Prop where
  keys : ∀ k : ApiKey, k.merchantId = m → (k ∈ s.keys.apiKeys.rows ↔ k ∈ s'.keys.apiKeys.rows)
  rows : SameRows m s.db s'.db

/-- The stores agree on everything of the merchant, `last_used_at` aside. -/
structure AgreeAside (m : String) (s s' : Store) : Prop where
  keys : ∀ k : ApiKey, k.merchantId = m →
    (k.lasting ∈ s.keys.apiKeys.rows.map ApiKey.lasting ↔
      k.lasting ∈ s'.keys.apiKeys.rows.map ApiKey.lasting)
  rows : SameRows m s.db s'.db

/-- From `s` to `t` no row has changed that is not the merchant's: of the tables it has rows in
the others are the same ones in the same places, and the other tables are the same. -/
structure OthersKept (m : String) (s t : Store) : Prop where
  payments : t.db.payments = s.db.payments
  processedTransactions : t.db.processedTransactions = s.db.processedTransactions
  idempotencyKeys : t.db.idempotencyKeys = s.db.idempotencyKeys
  merchants : t.keys.merchants = s.keys.merchants
  deliveries : t.db.webhookDeliveries.rows.filter (fun d => !s.db.owns m d.paymentId) =
    s.db.webhookDeliveries.rows.filter (fun d => !s.db.owns m d.paymentId)
  apiKeys : t.keys.apiKeys.rows.filter (fun k => k.merchantId ≠ m) =
    s.keys.apiKeys.rows.filter (fun k => k.merchantId ≠ m)

/-- The header carries a usable key of the merchant. -/
def Authenticated (hash : String → String) (m : String) (authorization : Option String)
    (s : Store) : Prop :=
  ∃ key, Merchant.bearerToken authorization = some key ∧
    ∃ k ∈ s.keys.apiKeys.rows, k.keyHash = hash key ∧ k.activeOf m = true

variable {m paymentId deliveryId : String} {db db' : Db} {s s' : Store}

theorem owns_iff : db.owns m paymentId = true ↔
    ∃ p ∈ db.payments.rows, p.id = paymentId ∧ p.merchantId = m := by
  simp [Db.owns]

namespace SameRows

theorem symm (h : SameRows m db db') : SameRows m db' db :=
  ⟨fun p hp => (h.payments p hp).symm, fun d => (h.deliveries d).symm⟩

theorem owns_of (h : SameRows m db db') (ho : db.owns m paymentId = true) :
    db'.owns m paymentId = true := by
  obtain ⟨p, hp, hid, hm⟩ := owns_iff.mp ho
  exact owns_iff.mpr ⟨p, (h.payments p hm).mp hp, hid, hm⟩

theorem owns_eq (h : SameRows m db db') : db.owns m paymentId = db'.owns m paymentId :=
  Bool.eq_iff_iff.mpr ⟨h.owns_of, h.symm.owns_of⟩

theorem selectPayments (h : SameRows m db db') {p : Payment → Bool}
    (hp : ∀ r, p r = true → r.merchantId = m) :
    selectNewest Payment.stamp p db.payments.rows =
      selectNewest Payment.stamp p db'.payments.rows := by
  refine selectNewest_congr (db.payments.unique Payment.id List.mem_cons_self)
    (db'.payments.unique Payment.id List.mem_cons_self) fun r => ?_
  constructor
  · rintro ⟨hr, ht⟩
    exact ⟨(h.payments r (hp r ht)).mp hr, ht⟩
  · rintro ⟨hr, ht⟩
    exact ⟨(h.payments r (hp r ht)).mpr hr, ht⟩

theorem selectDeliveries (h : SameRows m db db') {p p' : WebhookDelivery → Bool}
    (hp : ∀ d, p d = true ↔ p' d = true) (ho : ∀ d, p d = true → db.owns m d.paymentId = true) :
    selectNewest WebhookDelivery.stamp p db.webhookDeliveries.rows =
      selectNewest WebhookDelivery.stamp p' db'.webhookDeliveries.rows := by
  refine selectNewest_congr (db.webhookDeliveries.unique WebhookDelivery.id List.mem_cons_self)
    (db'.webhookDeliveries.unique WebhookDelivery.id List.mem_cons_self) fun d => ?_
  constructor
  · rintro ⟨hd, ht⟩
    exact ⟨((h.deliveries d).mp ⟨hd, ho d ht⟩).1, (hp d).mp ht⟩
  · rintro ⟨hd, ht⟩
    have ht' := (hp d).mpr ht
    exact ⟨((h.deliveries d).mpr ⟨hd, h.owns_of (ho d ht')⟩).1, ht'⟩

theorem listPayments (h : SameRows m db db') (status : Option String) (n offset : ℤ) :
    db.listPayments m status n offset = db'.listPayments m status n offset := by
  unfold Db.listPayments
  rw [h.selectPayments fun r hr => by simp at hr; exact hr.1]

theorem listPaymentsKeyset (h : SameRows m db db') (status : Option String) (n : ℤ)
    (cursor : Option (String × String)) :
    db.listPaymentsKeyset m status n cursor = db'.listPaymentsKeyset m status n cursor := by
  unfold Db.listPaymentsKeyset
  rw [h.selectPayments fun r hr => by simp at hr; exact hr.1.1]

theorem countPayments (h : SameRows m db db') (status : Option String) :
    db.countPayments m status = db'.countPayments m status := by
  unfold Db.countPayments
  rw [← @selectNewest_length _ Payment.stamp, ← @selectNewest_length _ Payment.stamp,
    h.selectPayments fun r hr => by simp at hr; exact hr.1]

theorem listWebhookDeliveriesKeyset (h : SameRows m db db') (ho : db.owns m paymentId = true)
    (status : Option String) (n : ℤ) (cursor : Option (String × String)) :
    db.listWebhookDeliveriesKeyset paymentId status n cursor =
      db'.listWebhookDeliveriesKeyset paymentId status n cursor := by
  unfold Db.listWebhookDeliveriesKeyset
  rw [h.selectDeliveries (fun d => Iff.rfl) fun d hd => by
    simp only [Bool.and_eq_true, decide_eq_true_eq] at hd
    rw [hd.1.1]
    exact ho]

theorem listDeliveriesForMerchant (h : SameRows m db db') (status : String) (n : ℤ)
    (cursor : Option (String × String)) :
    db.listDeliveriesForMerchant m status n cursor = db'.listDeliveriesForMerchant m status n
      cursor := by
  unfold Db.listDeliveriesForMerchant
  rw [h.selectDeliveries (fun d => by rw [h.owns_eq]) fun d hd => by
    simp only [Bool.and_eq_true] at hd
    exact hd.1.1]

/-- A payment of another merchant and a missing one look the same. -/
theorem ownPayment_cases (m paymentId : String) (db : Db) :
    (db.owns m paymentId = false ∧ ownPayment m paymentId db = .error paymentNotFound) ∨
      ∃ p ∈ db.payments.rows, p.id = paymentId ∧ p.merchantId = m ∧
        ownPayment m paymentId db = .ok (rowToPayment p) := by
  unfold ownPayment
  cases hg : db.getPayment paymentId with
  | none =>
    refine .inl ⟨?_, rfl⟩
    by_contra ho
    obtain ⟨p, hp, hid, -⟩ := owns_iff.mp (by simpa using ho)
    rw [← hid, Db.getPayment_of_mem hp] at hg
    cases hg
  | some q =>
    obtain ⟨p, hp, rfl, hid⟩ := Db.getPayment_eq_some hg
    have hown : (rowToPayment p).merchantId = p.merchantId := rfl
    by_cases hm : p.merchantId = m
    · refine .inr ⟨p, hp, hid, hm, ?_⟩
      rw [Option.filter_some, hown, if_pos (decide_eq_true hm)]
    · refine .inl ⟨?_, ?_⟩
      rotate_left
      · rw [Option.filter_some, hown, if_neg (by simpa using hm)]
      by_contra ho
      obtain ⟨p', hp', hid', hm'⟩ := owns_iff.mp (by simpa using ho)
      rw [Db.eq_of_id hp' hp (hid'.trans hid.symm)] at hm'
      exact hm hm'

theorem ownPayment (h : SameRows m db db') :
    ownPayment m paymentId db = ownPayment m paymentId db' := by
  rcases ownPayment_cases m paymentId db with ⟨ho, he⟩ | ⟨p, hp, hid, hm, he⟩
  · rcases ownPayment_cases m paymentId db' with ⟨-, he'⟩ | ⟨p, hp, hid, hm, -⟩
    · rw [he, he']
    · rw [h.owns_eq, owns_iff.mpr ⟨p, hp, hid, hm⟩] at ho
      cases ho
  · rcases ownPayment_cases m paymentId db' with ⟨ho, -⟩ | ⟨p', hp', hid', -, he'⟩
    · rw [← h.owns_eq, owns_iff.mpr ⟨p, hp, hid, hm⟩] at ho
      cases ho
    · rw [he, he', Db.eq_of_id ((h.payments p hm).mp hp) hp' (hid.trans hid'.symm)]

theorem list (h : SameRows m db db') (q : ListQuery) :
    Listing.list m q db = Listing.list m q db' := by
  unfold Listing.list
  simp only [h.listPayments, h.listPaymentsKeyset, h.countPayments]

theorem listWebhooks (h : SameRows m db db') (jsonEvent : String → Option String)
    (q : ListDeliveryQuery) :
    Listing.listWebhooks jsonEvent m paymentId q db = Listing.listWebhooks jsonEvent m paymentId
      q db' := by
  unfold Listing.listWebhooks
  rw [← h.ownPayment]
  rcases ownPayment_cases m paymentId db with ⟨-, he⟩ | ⟨p, hp, hid, hm, he⟩
  · simp only [he]
  · simp only [he, h.listWebhookDeliveriesKeyset (owns_iff.mpr ⟨p, hp, hid, hm⟩)]

theorem listMerchantWebhooks (h : SameRows m db db') (jsonEvent : String → Option String)
    (q : ListDeliveryQuery) :
    Listing.listMerchantWebhooks jsonEvent m q db = Listing.listMerchantWebhooks jsonEvent m
      q db' := by
  unfold Listing.listMerchantWebhooks
  simp only [h.listDeliveriesForMerchant]

end SameRows

/-! The two endpoints that write. -/
section Writes
variable {hit hit' : WebhookDelivery → Bool} {f : WebhookDelivery → WebhookDelivery}
  (hf : ∀ k ∈ [WebhookDelivery.id], ∀ d, k (f d) = k d) (hpay : ∀ d, (f d).paymentId = d.paymentId)

def updateDeliveries (hit : WebhookDelivery → Bool) (f : WebhookDelivery → WebhookDelivery)
    (hf : ∀ k ∈ [WebhookDelivery.id], ∀ d, k (f d) = k d) (db : Db) : Db :=
  { db with webhookDeliveries := db.webhookDeliveries.update hit f hf }

include hpay

theorem ownDelivery_update {d : WebhookDelivery} :
    (updateDeliveries hit f hf db).OwnDelivery m d ↔
      ∃ r, db.OwnDelivery m r ∧ (if hit r then f r else r) = d := by
  have hkeep (r : WebhookDelivery) : (if hit r then f r else r).paymentId = r.paymentId := by
    split_ifs
    · exact hpay r
    · rfl
  have howns : ∀ id, (updateDeliveries hit f hf db).owns m id = db.owns m id := fun id => rfl
  unfold Db.OwnDelivery
  rw [howns]
  constructor
  · rintro ⟨hd, ho⟩
    obtain ⟨r, hr, rfl⟩ := (Table.mem_update hf).mp hd
    rw [hkeep] at ho
    exact ⟨r, ⟨hr, ho⟩, rfl⟩
  · rintro ⟨r, ⟨hr, ho⟩, rfl⟩
    rw [hkeep]
    exact ⟨(Table.mem_update hf).mpr ⟨r, hr, rfl⟩, ho⟩

/-- Updates that treat the merchant's deliveries alike keep the databases alike. -/
theorem SameRows.update (h : SameRows m db db')
    (hhit : ∀ d, db.OwnDelivery m d → hit d = hit' d) :
    SameRows m (updateDeliveries hit f hf db) (updateDeliveries hit' f hf db') := by
  refine ⟨h.payments, fun d => ?_⟩
  rw [ownDelivery_update hf hpay, ownDelivery_update hf hpay]
  constructor
  · rintro ⟨r, hr, rfl⟩
    exact ⟨r, (h.deliveries r).mp hr, by rw [hhit r hr]⟩
  · rintro ⟨r, hr, rfl⟩
    have hr' := (h.deliveries r).mpr hr
    exact ⟨r, hr', by rw [hhit r hr']⟩

theorem others_update (hown : ∀ d ∈ db.webhookDeliveries.rows, hit d = true →
    db.owns m d.paymentId = true) :
    (updateDeliveries hit f hf db).webhookDeliveries.rows.filter (fun d => !db.owns m d.paymentId) =
      db.webhookDeliveries.rows.filter (fun d => !db.owns m d.paymentId) := by
  refine Table.filter_update hf (fun d => by rw [hpay]) fun d hd ht => ?_
  rw [hown d hd ht]
  rfl

end Writes
theorem delivery_eq_of_id {d d' : WebhookDelivery} (hd : d ∈ db.webhookDeliveries.rows)
    (hd' : d' ∈ db.webhookDeliveries.rows) (h : d.id = d'.id) : d = d' :=
  Table.eq_of_key (k := WebhookDelivery.id) (by simp) hd hd' h

theorem findDelivery_cases (ho : db.owns m paymentId = true) (deliveryId : String) :
    (∃ d, db.OwnDelivery m d ∧ d.id = deliveryId ∧ d.paymentId = paymentId ∧
      Merchant.findDelivery m paymentId deliveryId db = .ok (rowToWebhookDelivery d)) ∨
    ((∀ d ∈ db.webhookDeliveries.rows, d.id = deliveryId → d.paymentId ≠ paymentId) ∧
      Merchant.findDelivery m paymentId deliveryId db = .error Merchant.deliveryNotFound) := by
  unfold Merchant.findDelivery
  rcases SameRows.ownPayment_cases m paymentId db with ⟨hn, -⟩ | ⟨p, -, -, -, he⟩
  · rw [ho] at hn
    cases hn
  simp only [he, Db.getWebhookDelivery]
  cases hf : db.webhookDeliveries.rows.find? (·.id = deliveryId) with
  | none =>
    refine .inr ⟨fun d hd hid => ?_, rfl⟩
    exact absurd hid (by simpa using List.find?_eq_none.mp hf d hd)
  | some d =>
    have hd := List.mem_of_find?_eq_some hf
    have hid : d.id = deliveryId := by simpa using List.find?_some hf
    have hpay : (rowToWebhookDelivery d).paymentId = d.paymentId := rfl
    simp only [Option.map_some, hpay]
    by_cases hp : d.paymentId = paymentId
    · rw [if_pos hp]
      exact .inl ⟨d, ⟨hd, hp ▸ ho⟩, hid, hp, rfl⟩
    · rw [if_neg hp]
      refine .inr ⟨fun d' hd' hid' => ?_, rfl⟩
      rw [delivery_eq_of_id hd' hd (hid'.trans hid.symm)]
      exact hp

theorem SameRows.findDelivery (h : SameRows m db db') :
    Merchant.findDelivery m paymentId deliveryId db =
      Merchant.findDelivery m paymentId deliveryId db' := by
  by_cases ho : db.owns m paymentId = true
  · rcases findDelivery_cases ho deliveryId with ⟨d, hd, hid, hp, he⟩ | ⟨hn, he⟩
    · have hd' := (h.deliveries d).mp hd
      rcases findDelivery_cases (h.owns_of ho) deliveryId with ⟨d', hd'', hid', -, he'⟩ | ⟨hn, -⟩
      · rw [he, he', delivery_eq_of_id hd'.1 hd''.1 (hid.trans hid'.symm)]
      · exact absurd hp (hn d hd'.1 hid)
    · rcases findDelivery_cases (h.owns_of ho) deliveryId with ⟨d', hd', hid', hp', -⟩ | ⟨-, he'⟩
      · exact absurd hp' (hn d' ((h.deliveries d').mpr hd').1 hid')
      · rw [he, he']
  · unfold Merchant.findDelivery
    rw [← h.ownPayment]
    rcases ownPayment_cases m paymentId db with ⟨-, he⟩ | ⟨p, hp, hid, hm, -⟩
    · simp only [he]
    · exact absurd (owns_iff.mpr ⟨p, hp, hid, hm⟩) ho

theorem own_of_findDelivery {d : WebhookDelivery}
    (h : Merchant.findDelivery m paymentId deliveryId db = .ok d) :
    ∀ r ∈ db.webhookDeliveries.rows, r.id = deliveryId → db.owns m r.paymentId = true := by
  intro r hr hid
  have ho : db.owns m paymentId = true := by
    by_contra ho
    unfold Merchant.findDelivery at h
    rcases SameRows.ownPayment_cases m paymentId db with ⟨-, he⟩ | ⟨p, hp, hid, hm, -⟩
    · simp only [he] at h
      cases h
    · exact ho (owns_iff.mpr ⟨p, hp, hid, hm⟩)
  rcases findDelivery_cases ho deliveryId with ⟨d', hd', hid', -, -⟩ | ⟨-, he⟩
  · rw [delivery_eq_of_id hr hd'.1 (hid.trans hid'.symm)]
    exact hd'.2
  · rw [he] at h
    cases h

section Handle
variable {sign : ℤ → String → String} {jsonEvent : String → Option String} {x : Exchange}

theorem redeliver_congr (h : SameRows m db db') :
    let r := Merchant.redeliverWebhook sign jsonEvent x m paymentId deliveryId db
    let r' := Merchant.redeliverWebhook sign jsonEvent x m paymentId deliveryId db'
    r.1 = r'.1 ∧ r.2.1 = r'.2.1 ∧ SameRows m r.2.2 r'.2.2 := by
  simp only [Merchant.redeliverWebhook]
  rw [← h.findDelivery]
  cases hf : Merchant.findDelivery m paymentId deliveryId db with
  | error e => exact ⟨rfl, rfl, h⟩
  | ok d =>
    by_cases ha : x.allowed d.url = true
    · simp only [ha, Bool.not_true, Bool.false_eq_true, if_false, true_and]
      exact h.update (Db.deliveryRow_keys _ _ _) (fun _ => rfl) fun _ _ => rfl
    · simp only [ha, Bool.not_false, if_true, true_and]
      exact h

theorem requeueable_eq (h : SameRows m db db') (ids : List String) :
    db.requeueable m ids = db'.requeueable m ids := by
  funext d
  simp only [Db.requeueable, h.owns_eq]

theorem requeue_congr (h : SameRows m db db') (now : ℤ) (ids : List String) :
    (db.requeueFailedDeliveries now m ids).1 = (db'.requeueFailedDeliveries now m ids).1 ∧
      SameRows m (db.requeueFailedDeliveries now m ids).2
        (db'.requeueFailedDeliveries now m ids).2 := by
  constructor
  · simp only [Db.requeueFailedDeliveries]
    rw [← @selectNewest_length _ WebhookDelivery.stamp,
      ← @selectNewest_length _ WebhookDelivery.stamp, h.selectDeliveries fun d => by
      rw [requeueable_eq h]]
    intro d hd
    simp only [Db.requeueable, Bool.and_eq_true] at hd
    exact hd.1.2
  · exact h.update (Db.requeueRow_keys now) (fun _ => rfl) fun d _ => by rw [requeueable_eq h]

variable (sign jsonEvent x)

theorem handle_congr (h : SameRows m db db') (req : AuthedRequest) :
    let r := Merchant.handle sign jsonEvent x m req db
    let r' := Merchant.handle sign jsonEvent x m req db'
    r.1 = r'.1 ∧ r.2.1 = r'.2.1 ∧ SameRows m r.2.2 r'.2.2 := by
  cases req with
  | list q => exact ⟨by simp only [Merchant.handle, h.list], rfl, h⟩
  | listWebhooks paymentId q => exact ⟨by simp only [Merchant.handle, h.listWebhooks], rfl, h⟩
  | listMerchantWebhooks q => exact ⟨by simp only [Merchant.handle, h.listMerchantWebhooks], rfl, h⟩
  | redeliver paymentId deliveryId => exact redeliver_congr h
  | redeliverBulk deliveryIds =>
    simp only [Merchant.handle, Merchant.redeliverWebhooksBulk, true_and]
    split_ifs
    · exact ⟨rfl, h⟩
    · obtain ⟨hcount, hrows⟩ := requeue_congr h x.writeAt (deliveryIds.getD [])
      exact ⟨by rw [hcount], hrows⟩

/-- A handler keeps the payments, the tables it has no business with and the
deliveries of others. -/
theorem handle_kept (m : String) (db : Db) (req : AuthedRequest) :
    let t := (Merchant.handle sign jsonEvent x m req db).2.2
    t.payments = db.payments ∧ t.processedTransactions = db.processedTransactions ∧
      t.idempotencyKeys = db.idempotencyKeys ∧
      t.webhookDeliveries.rows.filter (fun d => !db.owns m d.paymentId) =
        db.webhookDeliveries.rows.filter (fun d => !db.owns m d.paymentId) := by
  cases req with
  | list q | listWebhooks paymentId q | listMerchantWebhooks q => exact ⟨rfl, rfl, rfl, rfl⟩
  | redeliver paymentId deliveryId =>
    simp only [Merchant.handle, Merchant.redeliverWebhook]
    cases hf : Merchant.findDelivery m paymentId deliveryId db with
    | error e => exact ⟨rfl, rfl, rfl, rfl⟩
    | ok d =>
      by_cases ha : x.allowed d.url = true
      · simp only [ha, Bool.not_true, Bool.false_eq_true, if_false]
        refine ⟨rfl, rfl, rfl, others_update (Db.deliveryRow_keys _ _ _) (fun _ => rfl) ?_⟩
        intro r hr hid
        exact own_of_findDelivery hf r hr (by simpa using hid)
      · simp only [ha, Bool.not_false, if_true]
        exact ⟨trivial, trivial, trivial, trivial⟩
  | redeliverBulk deliveryIds =>
    simp only [Merchant.handle, Merchant.redeliverWebhooksBulk]
    split_ifs
    · exact ⟨rfl, rfl, rfl, rfl⟩
    · refine ⟨rfl, rfl, rfl, others_update (Db.requeueRow_keys x.writeAt) (fun _ => rfl) ?_⟩
      intro d _ hd
      simp only [Db.requeueable, Bool.and_eq_true] at hd
      exact hd.1.2

end Handle

/-! From the header to the merchant. -/
section Auth
variable {hash : String → String} {authorization : Option String}

theorem Agree.aside (h : Agree m s s') : AgreeAside m s s' := by
  have hone {s s' : Store} (h : Agree m s s') (k : ApiKey) (hk : k.merchantId = m)
      (hm : k.lasting ∈ s.keys.apiKeys.rows.map ApiKey.lasting) :
      k.lasting ∈ s'.keys.apiKeys.rows.map ApiKey.lasting := by
    obtain ⟨j, hj, he⟩ := List.mem_map.mp hm
    have hjm : j.merchantId = m := (congrArg ApiKey.merchantId he).trans hk
    exact List.mem_map.mpr ⟨j, (h.keys j hjm).mp hj, he⟩
  have hsymm : Agree m s' s := ⟨fun k hk => (h.keys k hk).symm, h.rows.symm⟩
  exact ⟨fun k hk => ⟨hone h k hk, hone hsymm k hk⟩, h.rows⟩

theorem Agree.authenticated (h : Agree m s s') (ha : Authenticated hash m authorization s) :
    Authenticated hash m authorization s' := by
  obtain ⟨key, hkey, k, hk, hhash, hact⟩ := ha
  have hm : k.merchantId = m := by
    simp only [ApiKey.activeOf, Bool.and_eq_true, decide_eq_true_eq] at hact
    exact hact.1
  exact ⟨key, hkey, k, (h.keys k hm).mp hk, hhash, hact⟩

/-- A lookup with a merchant's key finds the merchant and touches
`last_used_at` of that key alone. -/
theorem findMerchantByKey_of_active (now : ℤ) {keys : KeyDb} {k : ApiKey} {key : String}
    (hk : k ∈ keys.apiKeys.rows) (hhash : k.keyHash = hash key) (hact : k.activeOf m = true) :
    ∃ t : KeyDb, keys.findMerchantByKey hash now key = (some m, t) ∧ t.merchants = keys.merchants ∧
      t.apiKeys.rows.map ApiKey.lasting = keys.apiKeys.rows.map ApiKey.lasting ∧
      t.apiKeys.rows.filter (fun k => k.merchantId ≠ m) =
        keys.apiKeys.rows.filter (fun k => k.merchantId ≠ m) := by
  simp only [ApiKey.activeOf, Bool.and_eq_true, decide_eq_true_eq] at hact
  have hfind : keys.apiKeys.rows.find? (fun k => k.keyHash = hash key && k.revokedAt.isNone) =
      some k := by
    cases hf : keys.apiKeys.rows.find? fun k => k.keyHash = hash key && k.revokedAt.isNone with
    | none =>
      have := List.find?_eq_none.mp hf k hk
      simp [hhash, hact.2] at this
    | some j =>
      have hj := List.find?_some hf
      simp only [Bool.and_eq_true, decide_eq_true_eq] at hj
      rw [Table.eq_of_key (k := ApiKey.keyHash) (by simp) (List.mem_of_find?_eq_some hf) hk
        (hj.1.trans hhash.symm)]
  let apiKeys :=
    keys.apiKeys.update (KeyDb.refreshable now k.id) (KeyDb.refreshRow now)
      (KeyDb.refreshRow_keys now)
  refine ⟨{ keys with apiKeys }, by simp only [KeyDb.findMerchantByKey, hfind, hact.1, apiKeys],
    rfl, ?_, ?_⟩
  · rw [Table.update_rows, List.map_map]
    refine List.map_congr_left fun j _ => ?_
    simp only [Function.comp_apply]
    split_ifs <;> rfl
  · refine Table.filter_update (KeyDb.refreshRow_keys now) (fun _ => rfl) fun j hj hr => ?_
    simp only [KeyDb.refreshable, Bool.and_eq_true, decide_eq_true_eq] at hr
    have hjk : j = k := Table.eq_of_key (k := ApiKey.id) (by simp) hj hk hr.1
    simp [hjk, hact.1]

variable (sign : ℤ → String → String) (jsonEvent : String → Option String) (x : Exchange)

theorem authMiddleware_eq (ha : Authenticated hash m authorization s) (req : AuthedRequest) :
    ∃ t : KeyDb, t.merchants = s.keys.merchants ∧
      t.apiKeys.rows.map ApiKey.lasting = s.keys.apiKeys.rows.map ApiKey.lasting ∧
      t.apiKeys.rows.filter (fun k => k.merchantId ≠ m) =
        s.keys.apiKeys.rows.filter (fun k => k.merchantId ≠ m) ∧
      Merchant.authMiddleware sign jsonEvent x hash authorization req s =
        let r := Merchant.handle sign jsonEvent x m req s.db
        (r.1, r.2.1, ⟨r.2.2, t⟩) := by
  obtain ⟨key, hkey, k, hk, hhash, hact⟩ := ha
  obtain ⟨t, hfind, hm, hlast, hothers⟩ := findMerchantByKey_of_active x.authAt hk hhash hact
  exact ⟨t, hm, hlast, hothers, by simp only [Merchant.authMiddleware, hkey, hfind]⟩

theorem getById_eq (ha : Authenticated hash m authorization s) (id : String) :
    ∃ t : KeyDb, t.merchants = s.keys.merchants ∧
      t.apiKeys.rows.map ApiKey.lasting = s.keys.apiKeys.rows.map ApiKey.lasting ∧
      t.apiKeys.rows.filter (fun k => k.merchantId ≠ m) =
        s.keys.apiKeys.rows.filter (fun k => k.merchantId ≠ m) ∧
      Merchant.getById x hash authorization id s =
        (Merchant.respond (fun p => .payment (toJson p)) (ownPayment m id s.db), ⟨s.db, t⟩) := by
  obtain ⟨key, hkey, k, hk, hhash, hact⟩ := ha
  obtain ⟨t, hfind, hm, hlast, hothers⟩ := findMerchantByKey_of_active x.authAt hk hhash hact
  simp only [Merchant.getById, ownPayment, hkey, hfind]
  cases hg : s.db.getPayment id with
  | none => exact ⟨s.keys, rfl, rfl, rfl, rfl⟩
  | some p =>
    refine ⟨t, hm, hlast, hothers, ?_⟩
    by_cases hp : p.merchantId = m
    · simp only [Option.filter_some, hp, decide_true, if_true, Merchant.respond]
    · have hp' : ¬ m = p.merchantId := Ne.symm hp
      simp only [Option.filter_some, hp, hp', decide_false, Bool.false_eq_true, if_false,
        Merchant.respond]

end Auth

/-- A request of a merchant depends on the merchant's rows alone, and changes no others. -/
theorem isolated {hash : String → String} {sign : ℤ → String → String}
    {jsonEvent : String → Option String} {x : Exchange} {m : String} {authorization : Option String}
    {s s' : Store} (h : Agree m s s') (ha : Authenticated hash m authorization s)
    (req : MerchantRequest) :
    let r := Merchant.serve sign jsonEvent x hash authorization req s
    let r' := Merchant.serve sign jsonEvent x hash authorization req s'
    r.1 = r'.1 ∧ r.2.1 = r'.2.1 ∧ AgreeAside m r.2.2 r'.2.2 ∧ OthersKept m s r.2.2 := by
  have ha' := h.authenticated ha
  have haside := h.aside.keys
  cases req with
  | getById id =>
    obtain ⟨t, hm, hlast, hothers, he⟩ := getById_eq x ha id
    obtain ⟨t', -, hlast', -, he'⟩ := getById_eq x ha' id
    simp only [Merchant.serve, he, he', h.rows.ownPayment, true_and]
    exact ⟨⟨by simpa only [hlast, hlast'] using haside, h.rows⟩, ⟨rfl, rfl, rfl, hm, rfl, hothers⟩⟩
  | authed req =>
    obtain ⟨t, hm, hlast, hothers, he⟩ := authMiddleware_eq sign jsonEvent x ha req
    obtain ⟨t', -, hlast', -, he'⟩ := authMiddleware_eq sign jsonEvent x ha' req
    obtain ⟨hresponse, hposts, hrows⟩ := handle_congr sign jsonEvent x h.rows req
    obtain ⟨hpay, hproc, hidem, hdel⟩ := handle_kept sign jsonEvent x m s.db req
    simp only [Merchant.serve, he, he']
    exact ⟨hresponse, hposts, ⟨by simpa only [hlast, hlast'] using haside, hrows⟩,
      ⟨hpay, hproc, hidem, hm, hdel, hothers⟩⟩

namespace Sample

def payment (id merchantId memo : String) : Payment :=
  ⟨id, merchantId, "GDEST", memo, "1.0000000", "XLM", none, .pending, none, none, none,
    "2026-04-29T15:00:00Z", "2026-04-29T15:00:00Z", "2026-04-29T16:00:00Z"⟩

def delivery (id paymentId : String) : WebhookDelivery :=
  ⟨id, paymentId, "https://shop.example/hook", "payload", some "payment.completed", .failed, 3,
    none, none, "2026-04-29T15:30:00Z"⟩

def keys : KeyDb :=
  { KeyDb.empty with
    apiKeys := ⟨[⟨"k1", "m", "sha256:sg_1", "sg_1", none, "2026-04-29T14:00:00Z", none, none⟩], by
      simp⟩ }

/-- One payment of the merchant `m`, with a delivery. -/
def alone : Store where
  db := { Db.empty with
    payments := ⟨[payment "p1" "m" "memo1"], by simp⟩
    webhookDeliveries := ⟨[delivery "d1" "p1"], by simp⟩ }
  keys := keys

/-- The same, beside a payment of the merchant `n` with a delivery. -/
def shared : Store where
  db := { Db.empty with
    payments := ⟨[payment "p1" "m" "memo1", payment "p2" "n" "memo2"], by decide⟩
    webhookDeliveries := ⟨[delivery "d1" "p1", delivery "d2" "p2"], by decide⟩ }
  keys := keys

def exchange : Exchange := ⟨1777476000, 1777476000, 1777476001, fun _ => true, fun _ => some 200⟩

theorem agree : Agree "m" alone shared := by
  refine ⟨fun k _ => Iff.rfl, ⟨?_, ?_⟩⟩
  · intro p hp
    have hne : p ≠ payment "p2" "n" "memo2" := by
      rintro rfl
      exact absurd hp (by decide)
    simp [alone, shared, hne]
  · intro d
    have hne : d = delivery "d2" "p2" → shared.db.owns "m" d.paymentId = false := by
      rintro rfl
      decide
    have hsame : ∀ id, alone.db.owns "m" id = shared.db.owns "m" id := by
      intro id
      simp [Db.owns, alone, shared, payment]
    unfold Db.OwnDelivery
    rw [hsame]
    constructor
    · rintro ⟨hd, ho⟩
      refine ⟨?_, ho⟩
      rw [List.mem_singleton.mp hd]
      exact List.mem_cons_self
    · rintro ⟨hd, ho⟩
      refine ⟨?_, ho⟩
      rcases List.mem_cons.mp hd with rfl | hd
      · exact List.mem_cons_self
      · rw [hne (List.mem_singleton.mp hd)] at ho
        cases ho

end Sample

theorem isolated_foreign :
    let r := Merchant.serve (fun _ b => b) (fun _ => none) Sample.exchange ("sha256:" ++ ·)
      (some "Bearer sg_1") (.authed (.redeliver "p2" "d2")) Sample.alone
    let r' := Merchant.serve (fun _ b => b) (fun _ => none) Sample.exchange ("sha256:" ++ ·)
      (some "Bearer sg_1") (.authed (.redeliver "p2" "d2")) Sample.shared
    r.1 = r'.1 ∧ r.2.1 = r'.2.1 ∧ AgreeAside "m" r.2.2 r'.2.2 ∧ OthersKept "m" Sample.alone r.2.2 :=
  isolated Sample.agree ⟨"sg_1", by decide, _, List.mem_cons_self, by decide, by decide⟩ _

end Tenant
end StellarGate
