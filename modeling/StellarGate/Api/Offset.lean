import StellarGate.Api.Pagination

/-! Offset pagination of `GET /payments` beside cursor pagination: one listing read by
position and by value. -/
namespace StellarGate
open Base

namespace Listing
variable (merchantId : String) (status : Option String)

/-- A request of `GET /payments` at an offset. -/
def requestOffset (limit offset : Option ℤ) (includeTotal : Option Bool) (db : Db) :
    Option (List PaymentView × Option String) :=
  (list merchantId ⟨status, limit, offset, none, includeTotal⟩ db).toOption.map
    fun r => (r.payments, r.nextCursor)

/-- Following `next_cursor` from a cursor on returns these rows and ends, with pages of any size. -/
def Enumerates (db : Db) (cursor : Option String) (rows : List PaymentView) : Prop :=
  ∀ limit : Option ℤ, ∃ requests pages,
    follow (requestPayments merchantId status limit) cursor (List.replicate requests db) =
    some (pages, true) ∧
    pages.flatten = rows

/-- The offset page is a window of what cursor pagination enumerates, it hands out no cursor
exactly when it is short, and its cursor leads to what follows the window. -/
def OffsetAgrees (db : Db) (rows : List PaymentView) (limit offset : Option ℤ)
    (includeTotal : Option Bool) : Prop :=
  ∃ page next, requestOffset merchantId status limit offset includeTotal db = some (page, next) ∧
    page = (rows.drop (max (offset.getD 0) 0).toNat).take (effectiveLimit limit).toNat ∧
    (next = none ↔ page.length < (effectiveLimit limit).toNat) ∧
    ∀ cursor ∈ next, Enumerates merchantId status db (some cursor)
      (rows.drop ((max (offset.getD 0) 0).toNat + (effectiveLimit limit).toNat))

/-- Both ways of paging agree at every limit and offset. -/
def ModesAgree (db : Db) : Prop :=
  ∃ rows, Enumerates merchantId status db none rows ∧
    ∀ limit offset includeTotal, OffsetAgrees merchantId status db rows limit offset includeTotal

variable {merchantId status} {limit offset : Option ℤ} {includeTotal : Option Bool} {db : Db}

/-- The rows of `GET /payments` in the order of the listing. -/
def ordered (merchantId : String) (status : Option String) (db : Db) : List Payment :=
  selectNewest Payment.stamp (fun p => p.merchantId = merchantId && hasStatus status p.status.name)
    db.payments.rows

theorem ordered_sorted : SortedBy (listed Payment.stamp) (ordered merchantId status db) :=
  selectNewest_sorted (payments_ids db)

/-- After the last row of a full window comes what follows the window. -/
theorem afterCursor_window {o n : ℕ} {front : List Payment} {x : Payment}
    (hp : ((ordered merchantId status db).drop o).take n = front ++ [x]) :
    afterCursor (listed Payment.stamp) (some (listed Payment.stamp x))
      (ordered merchantId status db) = (ordered merchantId status db).drop (o + n) := by
  have hsplit : ordered merchantId status db =
      ((ordered merchantId status db).take o ++ front) ++ x :: (ordered merchantId status db).drop
      (o + n) := by
    have hwindow : (ordered merchantId status db).drop o =
        front ++ [x] ++ (ordered merchantId status db).drop (o + n) := by
      rw [← hp, ← List.drop_drop, List.take_append_drop]
    conv_lhs => rw [← List.take_append_drop o (ordered merchantId status db), hwindow]
    simp only [List.append_assoc, List.singleton_append]
  have hsorted : SortedBy (listed Payment.stamp) (ordered merchantId status db) := ordered_sorted
  rw [hsplit] at hsorted
  unfold afterCursor
  conv_lhs => rw [hsplit]
  exact after_append_cons hsorted

section Plain
variable (hs : ∀ s ∈ status, validStatuses.contains s = true)
  (hok : ∀ p ∈ db.payments.rows, Plain p.createdAt)
include hs hok

/-- From the place of a row on, the requests return what comes after it. -/
theorem enumerates_after {c : Option (String ×ₗ String)ᵒᵈ}
    (hc : ∀ k ∈ c, '\t' ∉ (ofLex (OrderDual.ofDual k)).1.toList) :
    Enumerates merchantId status db (c.map cursorAt)
      ((afterCursor (listed Payment.stamp) c (ordered merchantId status db)).map
        fun p => toJson (rowToPayment p)) := by
  intro limit
  obtain ⟨hpos, -⟩ := @effectiveLimit_bounds limit
  have hrow : ∀ db : Db, (∀ p ∈ db.payments.rows, Plain p.createdAt) → ∀ p ∈ db.payments.rows,
      (p.merchantId = merchantId && hasStatus status p.status.name) = true →
      PaymentView.stamp (toJson (rowToPayment p)) = p.stamp ∧ '\t' ∉ (Payment.stamp p).1.toList :=
    fun db hok p hp _ => ⟨stamp_rowToPayment (hok p hp), (hok p hp).2.2⟩
  have hsorted : SortedBy (listed Payment.stamp) (ordered merchantId status db) := ordered_sorted
  obtain ⟨pages, hfollow, hflat⟩ :=
    follow_static (n := (effectiveLimit limit).toNat) (c := c) (by omega) hsorted le_rfl
  generalize (afterCursor (listed Payment.stamp) c (ordered merchantId status db)).length /
    (effectiveLimit limit).toNat + 1 = requests at hfollow
  refine ⟨requests, pages.map (List.map fun p => toJson (rowToPayment p)), ?_, ?_⟩
  · have hdbs : ∀ db' ∈ List.replicate requests db, ∀ p ∈ db'.payments.rows, Plain p.createdAt := by
      intro db' hdb'
      rw [List.eq_of_mem_replicate hdb']
      exact hok
    rw [follow_request payments_ids hrow (fun db hok cursor hc => requestPayments_eq hs hok hc)
      hdbs hc, List.map_replicate]
    unfold ordered at hfollow
    rw [hfollow]
    rfl
  · rw [← List.map_flatten, hflat]

theorem requestOffset_eq :
    let page := ((ordered merchantId status db).drop (max (offset.getD 0) 0).toNat).take
      (effectiveLimit limit).toNat
    requestOffset merchantId status limit offset includeTotal db =
      some (page.map fun p => toJson (rowToPayment p),
        nextCursor (effectiveLimit limit).toNat (page.map Payment.stamp)) := by
  intro page
  have hmem : ∀ p ∈ page, p ∈ db.payments.rows := fun p hp =>
    (mem_selectNewest.mp (List.mem_of_mem_drop (List.mem_of_mem_take hp))).1
  have hstamp : (page.map rowToPayment).map Payment.stamp = page.map Payment.stamp := by
    rw [List.map_map]
    exact List.map_congr_left fun p hp => stamp_rowToPayment (hok p (hmem p hp))
  have hpage : db.listPayments merchantId status (effectiveLimit limit) (max (offset.getD 0) 0) =
      page.map rowToPayment := by
    simp only [Db.listPayments, limit_effectiveLimit, page, ordered]
  have hview : (page.map rowToPayment).map toJson = page.map fun p => toJson (rowToPayment p) := by
    rw [List.map_map]
    rfl
  rw [toNat_effectiveLimit]
  simp only [requestOffset, list, checkStatus_ok hs, hpage, hstamp, hview]
  rfl

theorem offsetAgrees :
    OffsetAgrees merchantId status db
      ((ordered merchantId status db).map fun p => toJson (rowToPayment p))
        limit offset includeTotal := by
  obtain ⟨hpos, -⟩ := @effectiveLimit_bounds limit
  have hn : 0 < (effectiveLimit limit).toNat := by omega
  refine ⟨_, _, requestOffset_eq hs hok, ?_, ?_, ?_⟩
  · rw [List.map_take, List.map_drop]
  · rw [nextCursor_eq, Option.map_eq_none_iff, List.length_map]
    split_ifs with hfull
    · rw [Option.map_eq_none_iff, List.getLast?_eq_none_iff, ← List.length_eq_zero_iff, hfull]
      omega
    · have hle := List.length_take_le (effectiveLimit limit).toNat
        ((ordered merchantId status db).drop (max (offset.getD 0) 0).toNat)
      simp only [true_iff]
      omega
  · intro cursor hcursor
    rw [nextCursor_eq] at hcursor
    obtain ⟨k, hk, rfl⟩ := Option.map_eq_some_iff.mp hcursor
    split_ifs at hk with hfull
    obtain ⟨x, hx, rfl⟩ := Option.map_eq_some_iff.mp hk
    obtain ⟨front, hfront⟩ := List.getLast?_eq_some_iff.mp hx
    have hmem : x ∈ ordered merchantId status db :=
      List.mem_of_mem_drop (List.mem_of_mem_take (List.mem_of_getLast? hx))
    have htab : ∀ k ∈ some (listed Payment.stamp x),
        '\t' ∉ (ofLex (OrderDual.ofDual k)).1.toList := by
      rintro k ⟨⟩
      exact (hok x (mem_selectNewest.mp hmem).1).2.2
    have hrest := @enumerates_after merchantId status db hs hok _ htab
    rw [afterCursor_window hfront, List.map_drop] at hrest
    exact hrest

end Plain

/-- Offset and cursor pagination agree on every table whose timestamps pass
through a cursor unchanged. -/
theorem modes_agree (merchantId : String) (status : Option String)
    (hs : ∀ s ∈ status, validStatuses.contains s = true) (db : Db)
    (hok : ∀ p ∈ db.payments.rows, Plain p.createdAt) : ModesAgree merchantId status db := by
  refine ⟨_, enumerates_after hs hok (c := none) (by simp), ?_⟩
  intro limit offset includeTotal
  exact offsetAgrees hs hok

/-- The first page of two ends between payments of one second, and its cursor leads to the rest. -/
theorem modes_agree_tied : ∃ rows page cursor,
    Enumerates "m" (some "pending") Sample.tied none rows ∧
      requestOffset "m" (some "pending") (some 2) none none Sample.tied = some (page, some cursor) ∧
      page = rows.take 2 ∧ page.length = 2 ∧
      Enumerates "m" (some "pending") Sample.tied (some cursor) (rows.drop 2) := by
  have hs : ∀ s ∈ some "pending", validStatuses.contains s = true := by
    rintro s ⟨⟩
    decide
  obtain ⟨rows, hrows, hagree⟩ :=
      modes_agree "m" (some "pending") hs Sample.tied Sample.tied_plain.1
  obtain ⟨page, next, hrequest, hpage, hnext, hrest⟩ := hagree (some 2) none none
  have hlength : (requestOffset "m" (some "pending") (some 2) none none Sample.tied).map
      (·.1.length) = some 2 := by
    decide
  rw [hrequest, Option.map_some, Option.some.injEq] at hlength
  cases hcursor : next with
  | none =>
    rw [hlength] at hnext
    exact absurd (hnext.mp hcursor) (by decide)
  | some cursor =>
    exact ⟨rows, page, cursor, hrows, hcursor ▸ hrequest, hpage, hlength, hrest cursor hcursor⟩

/-- The requests from the cursor of the blank row never come to an end. -/
theorem follow_blank (requests : ℕ) {cursor : Option String}
    (h : cursor = none ∨ cursor = some Sample.blankCursor) (pages : List (List PaymentView)) :
    follow (requestPayments "m" none (some 1)) cursor
      (List.replicate requests (Sample.db Sample.blankTs)) ≠ some (pages, true) := by
  induction requests generalizing cursor pages with
  | zero => simp [follow]
  | succ requests ih =>
    intro hfollow
    simp only [List.replicate_succ, follow, Sample.blank_request h] at hfollow
    obtain ⟨⟨rest, done⟩, hrest, heq⟩ := Option.map_eq_some_iff.mp hfollow
    obtain ⟨-, rfl⟩ := Prod.mk.inj heq
    exact ih (.inr rfl) rest hrest

/-- A row whose timestamp starts with a blank comes again in cursor mode after the
offset page that showed it. -/
theorem blank_modes_disagree : TsForms (Sample.db Sample.blankTs) ∧
    ¬ ModesAgree "m" none (Sample.db Sample.blankTs) := by
  refine ⟨Sample.blank_tsForms, ?_⟩
  rintro ⟨rows, -, hagree⟩
  obtain ⟨page, next, hrequest, -, -, hnext⟩ := hagree (some 1) none none
  have hfirst : requestOffset "m" none (some 1) none none (Sample.db Sample.blankTs) =
      some ([Sample.blankRow], some Sample.blankCursor) := Sample.blank_request (.inl rfl)
  obtain ⟨-, rfl⟩ := Prod.mk.inj (Option.some.inj (hrequest.symm.trans hfirst))
  obtain ⟨requests, pages, hfollow, -⟩ := hnext Sample.blankCursor rfl (some 1)
  exact follow_blank requests (.inr rfl) pages hfollow

end Listing
end StellarGate
