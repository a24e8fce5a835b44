import StellarGate.Api.Listing

/-! Following `next_cursor` through the listing endpoints: what a client gets to see. -/
namespace StellarGate
open Base

namespace Listing

/-- Strictly earlier in a listing. -/
def Newer (a b : String × String) : Prop := b.1 < a.1 ∨ (a.1 = b.1 ∧ b.2 < a.2)

/-- Keyset pagination is exact: over an unchanged database the pages hold every matching row
once, newest first, within `⌊m / n⌋ + 1` requests for `m` of them; over a changing one no row
comes twice, and once the end is reached every row that matched at each request came. -/
structure Exact {β : Type} (stamp : β → String × String)
    (request : Option String → Db → Option (List β × Option String)) (matching : Db → List β)
    (n : ℕ) (Ok : Db → Prop) : Prop where
  unchanged : ∀ db, Ok db → ∃ pages,
    follow request none (List.replicate ((matching db).length / n + 1) db) = some (pages, true) ∧
    pages.flatten.Perm (matching db) ∧ (pages.flatten.map stamp).Pairwise Newer
  changing : ∀ dbs, (∀ db ∈ dbs, Ok db) →
    ∃ pages done, follow request none dbs = some (pages, done) ∧
    (pages.flatten.map stamp).Pairwise Newer ∧
    (done = true → ∀ s, (∀ db ∈ dbs.take pages.length, s ∈ (matching db).map stamp) →
      s ∈ pages.flatten.map stamp)

section
variable {ρ β : Type} {stampRow : ρ → String × String} {stamp : β → String × String} {view : ρ → β}
  {table : Db → List ρ} {p : Db → ρ → Bool} {n : ℕ} {Ok : Db → Prop}
  {request : Option String → Db → Option (List β × Option String)}

/-- The cursor that goes with a place in the listing. -/
def cursorAt (k : (String ×ₗ String)ᵒᵈ) : String :=
  encodeCursor (ofLex (OrderDual.ofDual k)).1 (ofLex (OrderDual.ofDual k)).2

def pageRows (stampRow : ρ → String × String) (p : ρ → Bool) (n : ℕ)
    (cursor : Option (String × String)) (rows : List ρ) : List ρ :=
  (selectNewest stampRow (fun r => p r && beyond cursor (stampRow r)) rows).take n

theorem newer_of_sorted {l : List ρ} (h : SortedBy (listed stampRow) l) :
    (l.map stampRow).Pairwise Newer := by
  refine List.pairwise_map.mpr (h.imp fun hlt => ?_)
  unfold listed at hlt
  rw [OrderDual.toDual_lt_toDual, Prod.Lex.lt_iff] at hlt
  rcases hlt with hlt | ⟨heq, hlt⟩
  · exact .inl hlt
  · exact .inr ⟨heq.symm, hlt⟩

theorem pageRows_eq {rows : List ρ} {p : ρ → Bool} (hid : (rows.map fun r => (stampRow r).2).Nodup)
    (c : Option (String ×ₗ String)ᵒᵈ) :
    pageRows stampRow p n (c.map fun k => ofLex (OrderDual.ofDual k)) rows =
      (afterCursor (listed stampRow) c (selectNewest stampRow p rows)).take n := by
  have hc : (c.map fun k => ofLex (OrderDual.ofDual k)).map (fun s => OrderDual.toDual (toLex s)) =
      c := by
    cases c <;> rfl
  unfold pageRows
  rw [selectNewest_beyond hid, hc]

theorem nextCursor_eq (page : List ρ) :
    nextCursor n (page.map stampRow) =
      (if page.length = n then page.getLast?.map (listed stampRow) else none).map cursorAt := by
  unfold nextCursor
  by_cases h : page.length = n
  · rw [if_pos h, if_pos (by rw [List.length_map, h]), List.getLast?_map, Option.map_map,
      Option.map_map]
    rfl
  · rw [if_neg h, if_neg (by rw [List.length_map, Nat.cast_inj]; exact h)]
    rfl

section Page
variable (hn : 0 < n) (hid : ∀ db, ((table db).map fun r => (stampRow r).2).Nodup)
  (hrow : ∀ db, Ok db → ∀ r ∈ table db, p db r = true →
    stamp (view r) = stampRow r ∧ '\t' ∉ (stampRow r).1.toList)
  (hreq : ∀ db, Ok db → ∀ cursor : Option (String × String), (∀ c ∈ cursor, '\t' ∉ c.1.toList) →
    request (cursor.map fun c => encodeCursor c.1 c.2) db =
      some ((pageRows stampRow (p db) n cursor (table db)).map view,
        nextCursor n ((pageRows stampRow (p db) n cursor (table db)).map stampRow)))
include hrow

theorem stamps_eq {db : Db} (hok : Ok db) {l : List ρ}
    (hl : ∀ r ∈ l, r ∈ selectNewest stampRow (p db) (table db)) :
    (l.map view).map stamp = l.map stampRow := by
  rw [List.map_map]
  refine List.map_congr_left fun r hr => ?_
  obtain ⟨hin, hp⟩ := mem_selectNewest.mp (hl r hr)
  exact (hrow db hok r hin hp).1

include hid hreq

theorem follow_request {dbs : List Db} (hok : ∀ db ∈ dbs, Ok db) {c : Option (String ×ₗ String)ᵒᵈ}
    (hc : ∀ k ∈ c, '\t' ∉ (ofLex (OrderDual.ofDual k)).1.toList) :
    follow request (c.map cursorAt) dbs =
      (follow (fetchPage (listed stampRow) n) c
        (dbs.map fun db => selectNewest stampRow (p db) (table db))).map
        fun r => (r.1.map (List.map view), r.2) := by
  -- the cursors that are handed out hold a stamp of a row, so they decode to it
  refine follow_map (P := fun c => ∀ k ∈ c, '\t' ∉ (ofLex (OrderDual.ofDual k)).1.toList)
    (fun db => selectNewest stampRow (p db) (table db)) cursorAt view ?_ hc
  intro db hdb c hc
  refine ⟨_, _, rfl, ?_, ?_⟩
  · intro k hk
    split_ifs at hk
    · obtain ⟨r, hr, rfl⟩ := Option.map_eq_some_iff.mp hk
      have hmem := (mem_afterCursor.mp (List.mem_of_mem_take (List.mem_of_getLast? hr))).1
      obtain ⟨hin, hp⟩ := mem_selectNewest.mp hmem
      exact (hrow db (hok db hdb) r hin hp).2
    · cases hk
  · have h := hreq db (hok db hdb) (c.map fun k => ofLex (OrderDual.ofDual k)) (by
      intro s hs
      obtain ⟨k, hk, rfl⟩ := Option.map_eq_some_iff.mp hs
      exact hc k hk)
    rw [pageRows_eq (hid db), nextCursor_eq, Option.map_map] at h
    exact h

include hn

/-- The keyset endpoints have this in common: a page shows the first `n` matching rows after the
cursor and hands out the stamp of its last row. -/
theorem exact_of_page :
    Exact stamp request (fun db => ((table db).filter (p db)).map view) n Ok := by
  have hsorted (db : Db) : SortedBy (listed stampRow) (selectNewest stampRow (p db) (table db)) :=
    selectNewest_sorted (hid db)
  have hperm (db : Db) : (selectNewest stampRow (p db) (table db)).Perm
    ((table db).filter (p db)) :=
    List.perm_insertionSort _ _
  have hflat (pages : List (List ρ)) : (pages.map (List.map view)).flatten =
    pages.flatten.map view :=
    List.map_flatten.symm
  constructor
  · intro db hok
    have hlen : ((table db).filter (p db)).length =
      (selectNewest stampRow (p db) (table db)).length :=
      (hperm db).length_eq.symm
    obtain ⟨pages, hfollow, heq⟩ := follow_static (c := none) hn (hsorted db) le_rfl
    simp only [afterCursor] at hfollow heq
    refine ⟨pages.map (List.map view), ?_, ?_, ?_⟩
    · rw [show (none : Option String) = Option.map cursorAt none from rfl,
        follow_request hid hrow hreq (by simp [hok]) (by simp)]
      simp only [List.length_map, hlen, List.map_replicate, hfollow, Option.map_some]
    · rw [hflat, heq]
      exact (hperm db).map view
    · rw [hflat, heq, stamps_eq hrow hok fun _ hr => hr]
      exact newer_of_sorted (hsorted db)
  · intro dbs hok
    have hex : ∃ pages done, follow (fetchPage (listed stampRow) n) none
        (dbs.map fun db => selectNewest stampRow (p db) (table db)) = some (pages, done) :=
      exists_follow _ _
    obtain ⟨pages, done, hf⟩ := hex
    have hl : ∀ l ∈ dbs.map fun db => selectNewest stampRow (p db) (table db),
        SortedBy (listed stampRow) l := by
      intro l hl
      obtain ⟨db, -, rfl⟩ := List.mem_map.mp hl
      exact hsorted db
    have hstamps : (pages.flatten.map view).map stamp = pages.flatten.map stampRow := by
      rw [List.map_map]
      refine List.map_congr_left fun r hr => ?_
      obtain ⟨l, hl, hrl⟩ := exists_mem_of_follow hf hr
      obtain ⟨db, hdb, rfl⟩ := List.mem_map.mp hl
      obtain ⟨hin, hp⟩ := mem_selectNewest.mp hrl
      exact (hrow db (hok db hdb) r hin hp).1
    refine ⟨pages.map (List.map view), done, ?_, ?_, ?_⟩
    · rw [show (none : Option String) = Option.map cursorAt none from rfl,
        follow_request hid hrow hreq hok (by simp), hf]
      rfl
    · rw [hflat, hstamps]
      exact newer_of_sorted (follow_sorted hn hl hf).1
    · rintro rfl s hs
      rw [hflat, hstamps]
      obtain ⟨r, hr, hrs⟩ := follow_complete hn hl hf (k := OrderDual.toDual (toLex s)) (by simp)
        (by
          intro l hl'
          rw [← List.map_take] at hl'
          obtain ⟨db, hdb, rfl⟩ := List.mem_map.mp hl'
          have hdb' := List.mem_of_mem_take hdb
          obtain ⟨x, hx, rfl⟩ := List.mem_map.mp (hs db (by rwa [List.length_map]))
          obtain ⟨r, hr, rfl⟩ := List.mem_map.mp hx
          obtain ⟨hin, hp⟩ := List.mem_filter.mp hr
          refine ⟨r, mem_selectNewest.mpr ⟨hin, hp⟩, ?_⟩
          rw [(hrow db (hok db hdb') r hin hp).1]
          rfl)
      exact List.mem_map.mpr ⟨r, hr, by simpa [listed] using hrs⟩

end Page
end

/-! The three endpoints. -/

def PaymentView.stamp (v : PaymentView) : String × String := (v.createdAt, v.id)
def DeliverySummary.stamp (v : DeliverySummary) : String × String := (v.createdAt, v.id)
def DeliveryView.stamp (v : DeliveryView) : String × String := (v.createdAt, v.id)

/-- Every listed timestamp passes through a cursor unchanged. -/
def PlainStamps (db : Db) : Prop :=
  (∀ p ∈ db.payments.rows, Plain p.createdAt) ∧ ∀ d ∈ db.webhookDeliveries.rows, Plain d.createdAt

variable (jsonEvent : String → Option String) (merchantId paymentId : String)
  (status : Option String) (limit : Option ℤ)

/-- A request of `GET /payments` from a cursor on. -/
def requestPayments (cursor : Option String) (db : Db) :
    Option (List PaymentView × Option String) :=
  (list merchantId ⟨status, limit, none, cursor, none⟩ db).toOption.map fun r =>
  (r.payments, r.nextCursor)

/-- A request of `GET /payments/:id/webhooks` from a cursor on. -/
def requestWebhooks (cursor : Option String) (db : Db) :
    Option (List DeliverySummary × Option String) :=
  (listWebhooks jsonEvent merchantId paymentId ⟨status, limit, cursor⟩ db).toOption.map
    fun r => (r.deliveries, r.nextCursor)

/-- A request of `GET /payments/webhooks` from a cursor on. -/
def requestMerchantWebhooks (cursor : Option String) (db : Db) :
    Option (List DeliveryView × Option String) :=
  (listMerchantWebhooks jsonEvent merchantId ⟨status, limit, cursor⟩ db).toOption.map
    fun r => (r.deliveries, r.nextCursor)

/-- The rows `GET /payments` is about, as it shows them. -/
def matchingPayments (db : Db) : List PaymentView :=
  (db.payments.rows.filter fun p => p.merchantId = merchantId && hasStatus status p.status.name).map
    fun p => toJson (rowToPayment p)

def matchingWebhooks (db : Db) : List DeliverySummary :=
  (db.webhookDeliveries.rows.filter fun d =>
    d.paymentId = paymentId && hasStatus status d.status.name).map
    fun d => summary jsonEvent (rowToWebhookDelivery d)

def matchingMerchantWebhooks (db : Db) : List DeliveryView :=
  (db.webhookDeliveries.rows.filter fun d =>
    db.owns merchantId d.paymentId && d.status.name = status.getD "failed").map
    fun d => deliveryToJson jsonEvent (rowToWebhookDelivery d)

variable {jsonEvent merchantId paymentId status limit}

theorem effectiveLimit_bounds : 1 ≤ effectiveLimit limit ∧ effectiveLimit limit ≤ 100 := by
  unfold effectiveLimit maxLimit
  omega

theorem limit_effectiveLimit {ρ : Type} (l : List ρ) :
    Db.limit (effectiveLimit limit) l = l.take (effectiveLimit limit).toNat := by
  obtain ⟨hpos, -⟩ := @effectiveLimit_bounds limit
  exact if_neg (by omega)

theorem mem_pageRows {ρ : Type} {stampRow : ρ → String × String} {p : ρ → Bool} {n : ℕ}
    {cursor : Option (String × String)} {rows : List ρ} {r : ρ}
    (h : r ∈ pageRows stampRow p n cursor rows) : r ∈ rows :=
  (mem_selectNewest.mp (List.mem_of_mem_take h)).1

theorem stamp_rowToPayment {p : Payment} (h : Plain p.createdAt) :
    (rowToPayment p).stamp = p.stamp := by
  simp only [Payment.stamp, rowToPayment, normalizeTs_of_plain h]

theorem stamp_rowToWebhookDelivery {d : WebhookDelivery} (h : Plain d.createdAt) :
    (rowToWebhookDelivery d).stamp = d.stamp := by
  simp only [WebhookDelivery.stamp, rowToWebhookDelivery, normalizeTs_of_plain h]

theorem payments_ids (db : Db) : (db.payments.rows.map fun p => (Payment.stamp p).2).Nodup :=
  db.payments.unique Payment.id List.mem_cons_self

theorem deliveries_ids (db : Db) :
    (db.webhookDeliveries.rows.map fun d => (WebhookDelivery.stamp d).2).Nodup :=
  db.webhookDeliveries.unique WebhookDelivery.id List.mem_cons_self

theorem checkStatus_ok {valid : List String} (h : ∀ s ∈ status, valid.contains s = true) :
    checkStatus status valid = .ok () := by
  unfold checkStatus
  split
  · rfl
  · next s => rw [if_pos (h s rfl)]

theorem readCursor_encode {cursor : Option (String × String)}
    (h : ∀ c ∈ cursor, '\t' ∉ c.1.toList) :
    readCursor (cursor.map fun c => encodeCursor c.1 c.2) = .ok cursor := by
  cases cursor with
  | none => rfl
  | some c => simp only [Option.map_some, readCursor, decodeCursor_encodeCursor (h c rfl)]

theorem toNat_effectiveLimit : (((effectiveLimit limit).toNat : ℕ) : ℤ) = effectiveLimit limit := by
  obtain ⟨hpos, -⟩ := @effectiveLimit_bounds limit
  omega

theorem requestPayments_eq (hs : ∀ s ∈ status, validStatuses.contains s = true) {db : Db}
    (hok : ∀ p ∈ db.payments.rows, Plain p.createdAt) {cursor : Option (String × String)}
    (hc : ∀ c ∈ cursor, '\t' ∉ c.1.toList) :
    let page := pageRows Payment.stamp
      (fun p => p.merchantId = merchantId && hasStatus status p.status.name)
      (effectiveLimit limit).toNat cursor db.payments.rows
    requestPayments merchantId status limit (cursor.map fun c => encodeCursor c.1 c.2) db =
      some (page.map fun p => toJson (rowToPayment p),
        nextCursor (effectiveLimit limit).toNat (page.map Payment.stamp)) := by
  intro page
  have hstamp : (page.map rowToPayment).map Payment.stamp = page.map Payment.stamp := by
    rw [List.map_map]
    exact List.map_congr_left fun p hp => stamp_rowToPayment (hok p (mem_pageRows hp))
  have hview : (page.map rowToPayment).map toJson = page.map fun p => toJson (rowToPayment p) := by
    rw [List.map_map]
    rfl
  rw [toNat_effectiveLimit]
  cases cursor with
  | none =>
    have hpage : db.listPayments merchantId status (effectiveLimit limit) 0 =
        page.map rowToPayment := by
      simp only [Db.listPayments, limit_effectiveLimit, page, pageRows, beyond, Bool.and_true,
        Int.toNat_zero, List.drop_zero]
    simp only [requestPayments, list, checkStatus_ok hs, Option.map_none,
      Option.getD_none, max_self, hpage, hstamp, hview]
    rfl
  | some c =>
    have hpage : db.listPaymentsKeyset merchantId status (effectiveLimit limit) (some (c.1, c.2)) =
        page.map rowToPayment := by
      simp only [Db.listPaymentsKeyset, limit_effectiveLimit, page, pageRows]
    simp only [requestPayments, list, checkStatus_ok hs, Option.map_some,
      decodeCursor_encodeCursor (hc c rfl), hpage, hstamp, hview]
    rfl

theorem payments_exact (hs : ∀ s ∈ status, validStatuses.contains s = true) :
    Exact PaymentView.stamp (requestPayments merchantId status limit)
      (matchingPayments merchantId status) (effectiveLimit limit).toNat PlainStamps := by
  have hrow : ∀ db, PlainStamps db → ∀ p ∈ db.payments.rows,
      (p.merchantId = merchantId && hasStatus status p.status.name) = true →
      PaymentView.stamp (toJson (rowToPayment p)) = p.stamp ∧ '\t' ∉ (Payment.stamp p).1.toList :=
    fun db hok p hp _ => ⟨stamp_rowToPayment (hok.1 p hp), (hok.1 p hp).2.2⟩
  obtain ⟨hpos, -⟩ := @effectiveLimit_bounds limit
  exact exact_of_page (by omega) payments_ids hrow fun db hok cursor hc =>
    requestPayments_eq hs hok.1 hc

def Owned (merchantId paymentId : String) (db : Db) : Prop :=
  ∃ payment ∈ db.payments.rows, payment.id = paymentId ∧ payment.merchantId = merchantId

theorem ownPayment_of_owned {db : Db} (h : Owned merchantId paymentId db) :
    ∃ payment, ownPayment merchantId paymentId db = .ok payment := by
  obtain ⟨payment, hmem, rfl, rfl⟩ := h
  refine ⟨rowToPayment payment, ?_⟩
  have hown : (rowToPayment payment).merchantId = payment.merchantId := rfl
  simp only [ownPayment, Db.getPayment_of_mem hmem, Option.filter_some, hown, decide_true, if_true]

theorem deliveries_page {db : Db} (hok : PlainStamps db) {p : WebhookDelivery → Bool}
    {cursor : Option (String × String)} {n : ℕ} :
    let page := pageRows WebhookDelivery.stamp p n cursor db.webhookDeliveries.rows
    (page.map rowToWebhookDelivery).map WebhookDelivery.stamp = page.map WebhookDelivery.stamp := by
  intro page
  rw [List.map_map]
  exact List.map_congr_left fun d hd => stamp_rowToWebhookDelivery (hok.2 d (mem_pageRows hd))

theorem requestWebhooks_eq (hs : ∀ s ∈ status, validDeliveryStatuses.contains s = true) {db : Db}
    (hok : PlainStamps db ∧ Owned merchantId paymentId db) {cursor : Option (String × String)}
    (hc : ∀ c ∈ cursor, '\t' ∉ c.1.toList) :
    let page := pageRows WebhookDelivery.stamp
      (fun d => d.paymentId = paymentId && hasStatus status d.status.name)
      (effectiveLimit limit).toNat cursor db.webhookDeliveries.rows
    requestWebhooks jsonEvent merchantId paymentId status limit
        (cursor.map fun c => encodeCursor c.1 c.2) db =
      some (page.map fun d => summary jsonEvent (rowToWebhookDelivery d),
        nextCursor (effectiveLimit limit).toNat (page.map WebhookDelivery.stamp)) := by
  intro page
  obtain ⟨payment, hpayment⟩ := ownPayment_of_owned hok.2
  have hpage : db.listWebhookDeliveriesKeyset paymentId status (effectiveLimit limit) cursor =
      page.map rowToWebhookDelivery := by
    simp only [Db.listWebhookDeliveriesKeyset, limit_effectiveLimit, page, pageRows]
  have hview : (page.map rowToWebhookDelivery).map (summary jsonEvent) =
      page.map fun d => summary jsonEvent (rowToWebhookDelivery d) := by
    rw [List.map_map]
    rfl
  rw [toNat_effectiveLimit]
  simp only [requestWebhooks, listWebhooks, checkStatus_ok hs, hpayment,
    readCursor_encode hc, hpage, deliveries_page hok.1, hview, page]
  rfl

theorem webhooks_exact (hs : ∀ s ∈ status, validDeliveryStatuses.contains s = true) :
    Exact DeliverySummary.stamp (requestWebhooks jsonEvent merchantId paymentId status limit)
      (matchingWebhooks jsonEvent paymentId status) (effectiveLimit limit).toNat
      fun db => PlainStamps db ∧ Owned merchantId paymentId db := by
  have hrow : ∀ db, PlainStamps db ∧ Owned merchantId paymentId db →
      ∀ d ∈ db.webhookDeliveries.rows,
      (d.paymentId = paymentId && hasStatus status d.status.name) = true →
      DeliverySummary.stamp (summary jsonEvent (rowToWebhookDelivery d)) = d.stamp ∧
        '\t' ∉ (WebhookDelivery.stamp d).1.toList :=
    fun db hok d hd _ => ⟨stamp_rowToWebhookDelivery (hok.1.2 d hd), (hok.1.2 d hd).2.2⟩
  obtain ⟨hpos, -⟩ := @effectiveLimit_bounds limit
  exact exact_of_page (by omega) deliveries_ids hrow fun db hok cursor hc =>
    requestWebhooks_eq hs hok hc

theorem requestMerchantWebhooks_eq
    (hs : validDeliveryStatuses.contains (status.getD "failed") = true) {db : Db}
    (hok : PlainStamps db) {cursor : Option (String × String)}
    (hc : ∀ c ∈ cursor, '\t' ∉ c.1.toList) :
    let page := pageRows WebhookDelivery.stamp
      (fun d => db.owns merchantId d.paymentId && d.status.name = status.getD "failed")
      (effectiveLimit limit).toNat cursor db.webhookDeliveries.rows
    requestMerchantWebhooks jsonEvent merchantId status limit
        (cursor.map fun c => encodeCursor c.1 c.2) db =
      some (page.map fun d => deliveryToJson jsonEvent (rowToWebhookDelivery d),
        nextCursor (effectiveLimit limit).toNat (page.map WebhookDelivery.stamp)) := by
  intro page
  have hpage : db.listDeliveriesForMerchant merchantId (status.getD "failed") (effectiveLimit limit)
      cursor = page.map rowToWebhookDelivery := by
    simp only [Db.listDeliveriesForMerchant, limit_effectiveLimit, page, pageRows]
  have hview : (page.map rowToWebhookDelivery).map (deliveryToJson jsonEvent) =
      page.map fun d => deliveryToJson jsonEvent (rowToWebhookDelivery d) := by
    rw [List.map_map]
    rfl
  rw [toNat_effectiveLimit]
  simp only [requestMerchantWebhooks, listMerchantWebhooks, hs, readCursor_encode hc, hpage,
    deliveries_page hok, hview, page, Bool.not_true, Bool.false_eq_true, if_false]
  rfl

theorem merchantWebhooks_exact (hs : validDeliveryStatuses.contains (status.getD "failed") = true) :
    Exact DeliveryView.stamp (requestMerchantWebhooks jsonEvent merchantId status limit)
      (matchingMerchantWebhooks jsonEvent merchantId status)
      (effectiveLimit limit).toNat PlainStamps := by
  have hrow : ∀ db, PlainStamps db → ∀ d ∈ db.webhookDeliveries.rows,
      (db.owns merchantId d.paymentId && d.status.name = status.getD "failed") = true →
      DeliveryView.stamp (deliveryToJson jsonEvent (rowToWebhookDelivery d)) = d.stamp ∧
        '\t' ∉ (WebhookDelivery.stamp d).1.toList :=
    fun db hok d hd _ => ⟨stamp_rowToWebhookDelivery (hok.2 d hd), (hok.2 d hd).2.2⟩
  obtain ⟨hpos, -⟩ := @effectiveLimit_bounds limit
  exact exact_of_page (by omega) deliveries_ids hrow
    fun db hok cursor hc => requestMerchantWebhooks_eq hs hok hc

/-- Following `next_cursor` is exact at the three endpoints, for every filter they
accept and every limit. -/
theorem keyset_exact (jsonEvent : String → Option String) (merchantId paymentId : String)
    (status : Option String) (limit : Option ℤ) :
    ((∀ s ∈ status, validStatuses.contains s = true) →
      Exact PaymentView.stamp (requestPayments merchantId status limit)
        (matchingPayments merchantId status) (effectiveLimit limit).toNat PlainStamps) ∧
    ((∀ s ∈ status, validDeliveryStatuses.contains s = true) →
      (Exact DeliverySummary.stamp (requestWebhooks jsonEvent merchantId paymentId status limit)
        (matchingWebhooks jsonEvent paymentId status) (effectiveLimit limit).toNat
        fun db => PlainStamps db ∧ Owned merchantId paymentId db) ∧
      Exact DeliveryView.stamp (requestMerchantWebhooks jsonEvent merchantId status limit)
        (matchingMerchantWebhooks jsonEvent merchantId status) (effectiveLimit limit).toNat
        PlainStamps) := by
  refine ⟨payments_exact, fun hs => ⟨webhooks_exact hs, merchantWebhooks_exact ?_⟩⟩
  cases status with
  | none => decide
  | some s => exact hs s rfl

namespace Sample

def payment (id createdAt : String) : Payment :=
  ⟨id, "m", "GDEST", id, "1.0000000", "XLM", none, .pending, none, none, none, createdAt, createdAt,
    "2026-04-29T16:00:00Z"⟩

def db (createdAt : String) : Db :=
  { Db.empty with payments := ⟨[payment "p1" createdAt], by simp⟩ }

def tied : Db :=
  { Db.empty with
    payments := ⟨["p2", "p3", "p1"].map fun id => payment id "2026-04-29T15:00:00Z", by decide⟩ }

theorem tied_plain : PlainStamps tied := by
  refine ⟨?_, fun d hd => absurd hd List.not_mem_nil⟩
  intro p hp
  obtain ⟨id, -, rfl⟩ := List.mem_map.mp hp
  show Plain "2026-04-29T15:00:00Z"
  decide

end Sample

/-- The end of the first page lies between payments of one second. -/
theorem keyset_exact_tied : ∃ pages,
    follow (requestPayments "m" (some "pending") (some 2)) none [Sample.tied, Sample.tied] =
      some (pages, true) ∧
      pages.flatten.Perm (matchingPayments "m" (some "pending") Sample.tied) ∧
      pages.flatten.length = 3 ∧ (pages.flatten.map PaymentView.stamp).Pairwise Newer ∧
      ∀ v ∈ pages.flatten, v.createdAt = "2026-04-29T15:00:00Z" := by
  have hs : ∀ s ∈ some "pending", validStatuses.contains s = true := by
    rintro s ⟨⟩
    decide
  have hlimit : (effectiveLimit (some 2)).toNat = 2 := by decide
  have hlength : (matchingPayments "m" (some "pending") Sample.tied).length = 3 := by decide
  obtain ⟨pages, hfollow, hperm, hnewer⟩ :=
    ((keyset_exact (fun _ => none) "m" "p1" (some "pending") (some 2)).1
      hs).unchanged _ Sample.tied_plain
  rw [hlength, hlimit] at hfollow
  refine ⟨pages, hfollow, hperm, hperm.length_eq.trans hlength, hnewer, fun v hv => ?_⟩
  have hall : ∀ v ∈ matchingPayments "m" (some "pending") Sample.tied,
      v.createdAt = "2026-04-29T15:00:00Z" := by
    decide
  exact hall v (hperm.mem_iff.mp hv)

/-- Every listed timestamp has the form of its `CHECK`. -/
def TsForms (db : Db) : Prop :=
  (∀ p ∈ db.payments.rows, hasTsForm p.createdAt = true) ∧
    ∀ d ∈ db.webhookDeliveries.rows, hasTsForm d.createdAt = true

namespace Sample

/-- A timestamp of the stored form that `normalize_ts` does not return unchanged. -/
def blankTs : String := " 026-04-29T15:00:00Z"

def blankRow : PaymentView := toJson (rowToPayment (payment "p1" blankTs))
def blankCursor : String := encodeCursor "026-04-29T15:00:00Z" "p1"

theorem blank_tsForms : TsForms (db blankTs) := by
  refine ⟨?_, fun d hd => nomatch hd⟩
  intro p hp
  rw [List.mem_singleton.mp hp]
  decide

theorem blank_nextCursor :
    nextCursor 1 ([rowToPayment (payment "p1" blankTs)].map Payment.stamp) = some blankCursor := by
  have hrow : rowToPayment (payment "p1" blankTs) =
      ⟨"p1", "m", "GDEST", "p1", "1.0000000", "XLM", none, .pending, none, none, none,
        "026-04-29T15:00:00Z", "026-04-29T15:00:00Z", "2026-04-29T16:00:00Z"⟩ := by decide
  rw [hrow]
  rfl

theorem blank_request {cursor : Option String} (h : cursor = none ∨ cursor = some blankCursor) :
    requestPayments "m" none (some 1) cursor (db blankTs) =
      some ([blankRow], some blankCursor) := by
  have hlimit : effectiveLimit (some 1) = 1 := by decide
  rcases h with rfl | rfl
  · have hpage : (db blankTs).listPayments "m" none 1 0 =
      [rowToPayment (payment "p1" blankTs)] := by decide
    simp only [requestPayments, list, checkStatus, hlimit, Option.getD_none, max_self, hpage,
      blank_nextCursor]
    rfl
  · have hdecode : decodeCursor blankCursor = some ("026-04-29T15:00:00Z", "p1") :=
      decodeCursor_encodeCursor (by decide)
    have hpage : (db blankTs).listPaymentsKeyset "m" none 1 (some ("026-04-29T15:00:00Z", "p1")) =
        [rowToPayment (payment "p1" blankTs)] := by decide
    simp only [requestPayments, list, checkStatus, hlimit, hdecode, hpage, blank_nextCursor]
    rfl

end Sample

/-- `_` also stands for a blank, which `normalize_ts` trims: the cursor then lies after the
row it was made from. -/
theorem blank_returned_twice : ¬ Exact PaymentView.stamp (requestPayments "m" none (some 1))
    (matchingPayments "m" none) 1 TsForms := by
  intro h
  let db := Sample.db Sample.blankTs
  let row := Sample.blankRow
  have hfollow : follow (requestPayments "m" none (some 1)) none [db, db] =
      some ([[row], [row]], false) := by
    simp only [follow, db, row, Sample.blank_request (.inl rfl), Sample.blank_request (.inr rfl),
      Option.map_some]
  obtain ⟨pages, done, hpages, hnewer, -⟩ :=
      h.changing [db, db] (by simp [db, Sample.blank_tsForms])
  obtain ⟨rfl, -⟩ := Prod.mk.inj (Option.some.inj (hpages.symm.trans hfollow))
  have hself : Newer (PaymentView.stamp row) (PaymentView.stamp row) := by
    have hpair : [PaymentView.stamp row, PaymentView.stamp row].Pairwise Newer := hnewer
    exact List.rel_of_pairwise_cons hpair List.mem_cons_self
  rcases hself with hlt | ⟨-, hlt⟩ <;> exact lt_irrefl _ hlt

end Listing
end StellarGate
