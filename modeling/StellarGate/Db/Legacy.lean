import StellarGate.Db.Migrate

/-! A file from before the `CHECK` constraints and from before `api_keys`: what the migration makes
of its timestamps and of its merchants' keys. -/
namespace StellarGate
open Base

def instant (ts : String) : Option ℤ := (readTs ts).map Prod.snd

/-- The form that the repair at startup passes over. -/
def bare (ts : String) : Bool := (readTs ts).any fun r => r.1 = .bare

/-- `UPDATE … SET ts = … WHERE ts NOT LIKE '%T%'`, for one value. -/
def normalised (ts : String) : String := if lacksT ts then repairTs ts else ts

/-- `migrate`, for one row of `payments`. -/
def migrated (p : StoredPayment) : StoredPayment :=
  { p with
    createdAt := normalised p.createdAt
    updatedAt := normalised p.updatedAt
    expiresAt := (p.expiresAt.or (hourAfter p.createdAt)).map normalised }

def migratedDelivery (d : WebhookDelivery) : WebhookDelivery :=
  { d with createdAt := normalised d.createdAt }

/-- The new text passes the `CHECK` constraints and denotes the instant. -/
def Strict (t : Option ℤ) (ts : String) : Prop := hasTsForm ts = true ∧ instant ts = t

section Values
variable {ts : String} {form : TsForm} {t : ℤ}

theorem readTs_normalised (h : readTs ts = some (form, t)) :
    readTs (normalised ts) = some (if form = .spaced then .zoned else form, t) := by
  unfold normalised
  by_cases hform : form = .spaced
  · subst hform
    rw [if_pos ((lacksT_iff h).mpr rfl), if_pos rfl]
    exact readTs_repairTs h
  · rw [if_neg (by rw [lacksT_iff h]; exact hform), if_neg hform]
    exact h

theorem lacksT_normalised (h : readTs ts = some (form, t)) : lacksT (normalised ts) = false := by
  rw [Bool.eq_false_iff]
  intro hlacks
  have hspaced := (lacksT_iff (readTs_normalised h)).mp hlacks
  split_ifs at hspaced with hform
  exact hform hspaced

/-- The repair leaves the strict text of the same instant exactly where the old text is not bare. -/
theorem strict_normalised_iff (h : (readTs ts).isSome) :
    Strict (instant ts) (normalised ts) ↔ bare ts = false := by
  obtain ⟨⟨form, t⟩, hread⟩ := Option.isSome_iff_exists.mp h
  have hnew := readTs_normalised hread
  simp only [Strict, instant, bare, hread, hnew, Option.map_some, Option.any_some, and_true,
    hasTsForm_iff hnew, decide_eq_false_iff_not]
  cases form <;> decide

theorem readTs_strftime (h : InRange t) : readTs (strftime t) = some (.zoned, t) := by
  have hread := unixTime_strftime h
  obtain ⟨date, time, hts, hdate, -⟩ := unixTime_eq_some hread
  have hwritten := readTs_write (reads_of_unixTime hread hts hdate) .zoned
  rwa [← hts, String.ofList_toList] at hwritten

theorem hourAfter_eq (h : readTs ts = some (form, t)) :
    hourAfter ts = if InRange (t + 3600) then some (strftime (t + 3600)) else none := by
  rw [hourAfter, h]
  rfl

/-- The added expiry is an hour later, within the years that SQLite's date functions know. -/
theorem strict_hourAfter_iff (h : readTs ts = some (form, t)) :
    (∃ new ∈ (hourAfter ts).map normalised, Strict (some (t + 3600)) new) ↔ InRange (t + 3600) := by
  rw [hourAfter_eq h]
  split_ifs with hin
  · refine iff_of_true ⟨_, rfl, ?_⟩ hin
    have hread := readTs_strftime hin
    have hstrict := strict_normalised_iff
      (by rw [hread]; rfl : (readTs (strftime (t + 3600))).isSome)
    simp only [instant, bare, hread, Option.map_some, Option.any_some] at hstrict
    exact hstrict.mpr rfl
  · exact iff_of_false (by simp) hin

/-- What is added is repaired already, and what could not be added cannot be added later. -/
theorem hourAfter_normalised (h : readTs ts = some (form, t)) :
    hourAfter (normalised ts) = hourAfter ts := by
  rw [hourAfter_eq h, hourAfter_eq (readTs_normalised h)]

end Values

section Rows
variable {f : DbFile} {now : ℤ} {draw : String → String} {p : StoredPayment}

theorem addExpiry_where : (if p.expiresAt.isNone then addExpiry p else p) =
    { p with expiresAt := p.expiresAt.or (hourAfter p.createdAt) } := by
  cases hexp : p.expiresAt with
  | none => rfl
  | some ts =>
    have hsame : { p with expiresAt := some ts } = p := by rw [← hexp]
    exact hsame.symm

theorem repairCreated_where : (if lacksT p.createdAt then repairCreated p else p) =
    { p with createdAt := normalised p.createdAt } := by
  unfold normalised
  split_ifs <;> rfl

theorem repairUpdated_where : (if lacksT p.updatedAt then repairUpdated p else p) =
    { p with updatedAt := normalised p.updatedAt } := by
  unfold normalised
  split_ifs <;> rfl

theorem repairExpires_where : (if p.expiresAt.any lacksT then repairExpires p else p) =
    { p with expiresAt := p.expiresAt.map normalised } := by
  cases hexp : p.expiresAt with
  | none =>
    have hsame : { p with expiresAt := none } = p := by rw [← hexp]
    exact hsame.symm
  | some ts =>
    rw [Option.any_some, Option.map_some, normalised, repairExpires, hexp, Option.map_some]
    split_ifs
    · rfl
    · rw [← hexp]

variable (f now draw) in
theorem migrate_payments : (migrate now draw f).payments.rows = f.payments.rows.map migrated := by
  simp only [migrate, DbFile.backfillExpiry, DbFile.carryOver, DbFile.backfillCredits,
    DbFile.normalise, Table.update_rows, List.map_map]
  refine List.map_congr_left fun p _ => ?_
  simp only [Function.comp_apply, addExpiry_where, repairCreated_where, repairUpdated_where,
    repairExpires_where, migrated]

variable (f now draw) in
theorem migrate_deliveries :
    (migrate now draw f).webhookDeliveries.rows =
    f.webhookDeliveries.rows.map migratedDelivery := by
  have hwhere (d : WebhookDelivery) : (if lacksT d.createdAt then repairDelivery d else d) =
      migratedDelivery d := by
    unfold migratedDelivery normalised
    split_ifs <;> rfl
  simp only [migrate, DbFile.backfillExpiry, DbFile.carryOver, DbFile.backfillCredits,
    DbFile.normalise, Table.update_rows, hwhere]

variable (f now draw) in
theorem migrate_credits : (migrate now draw f).processedTransactions =
    f.processedTransactions.insertAll (f.payments.rows.filterMap (legacyCredit now)) := by
  have hsame : (f.backfillExpiry.payments.rows).filterMap (legacyCredit now) =
      f.payments.rows.filterMap (legacyCredit now) := by
    simp only [DbFile.backfillExpiry, Table.update_rows, addExpiry_where, List.filterMap_map]
    rfl
  rw [← hsame]
  rfl

/-- `randomblob` draws ids that are new. -/
def KeyDb.FreshDraws (draw : String → String) (db : KeyDb) : Prop :=
  (db.apiKeys.rows.map ApiKey.id ++ db.merchants.rows.map fun m => draw m.id).Nodup

theorem KeyDb.FreshDraws.nodup {db : KeyDb} (h : db.FreshDraws draw) :
    ((db.apiKeys.rows ++ (db.merchants.rows.filter carriable).map fun m => legacyKey
      (draw m.id) m).map ApiKey.id).Nodup := by
  rw [List.map_append, List.map_map]
  exact List.Nodup.sublist ((List.Sublist.refl _).append (List.filter_sublist.map _)) h

/-- The timestamps are in the forms that `normalize_ts` documents. -/
structure DbFile.Documented (f : DbFile) : Prop where
  payments : ∀ p ∈ f.payments.rows, (readTs p.createdAt).isSome ∧ (readTs p.updatedAt).isSome ∧
    ∀ ts ∈ p.expiresAt, (readTs ts).isSome
  deliveries : ∀ d ∈ f.webhookDeliveries.rows, (readTs d.createdAt).isSome

theorem isSome_readTs_expiry {created : TsForm × ℤ} (hcreated : readTs p.createdAt = some created)
    (hexpires : ∀ ts ∈ p.expiresAt, (readTs ts).isSome) :
    ∀ ts ∈ p.expiresAt.or (hourAfter p.createdAt), (readTs ts).isSome := by
  intro ts hts
  cases hexp : p.expiresAt with
  | some old =>
    rw [hexp] at hts
    exact hexpires ts (hexp.trans hts)
  | none =>
    rw [hexp, Option.none_or, hourAfter_eq hcreated] at hts
    split_ifs at hts with hin
    · cases hts
      rw [readTs_strftime hin]
      rfl
    · cases hts

/-- One run of the migration leaves nothing for the next. -/
theorem current_migrate (hdoc : f.Documented) (hdraw : f.keys.FreshDraws draw) :
    (migrate now draw f).Current where
  expiry p' hp' hnone := by
    rw [migrate_payments] at hp'
    obtain ⟨p, hp, rfl⟩ := List.mem_map.mp hp'
    obtain ⟨⟨form, t⟩, hread⟩ := Option.isSome_iff_exists.mp (hdoc.payments p hp).1
    have hor : p.expiresAt.or (hourAfter p.createdAt) = none := Option.map_eq_none_iff.mp hnone
    exact (hourAfter_normalised hread).trans (Option.or_eq_none_iff.mp hor).2
  carried m hm hcarriable := by
    have hissued : legacyKey (draw m.id) m ∈ (f.keys.merchants.rows.filter carriable).map
        fun m => legacyKey (draw m.id) m :=
      List.mem_map.mpr ⟨m, List.mem_filter.mpr ⟨hm, hcarriable⟩, rfl⟩
    exact List.mem_map.mp (Table.second_mem_insertAll hdraw.nodup hissued)
  credited p' hp' txHash htx hne hpaid := by
    rw [migrate_payments] at hp'
    obtain ⟨p, hp, rfl⟩ := List.mem_map.mp hp'
    obtain ⟨stroops, hparse⟩ := Option.isSome_iff_exists.mp hpaid
    have hcredit : legacyCredit now p = some ⟨p.id, txHash, stroops, strftime now⟩ := by
      have htx' : p.txHash = some txHash := htx
      have hparse' : p.paidAmount.bind parseStroops = some stroops := hparse
      simp [legacyCredit, htx', hparse', Option.filter, hne]
    have hkey := Table.key_mem_insertAll (t := f.processedTransactions)
      (List.mem_filterMap.mpr ⟨p, hp, hcredit⟩)
    rw [← migrate_credits f now draw] at hkey
    exact List.mem_map.mp hkey
  payments p' hp' := by
    rw [migrate_payments] at hp'
    obtain ⟨p, hp, rfl⟩ := List.mem_map.mp hp'
    obtain ⟨hcreated, hupdated, hexpires⟩ := hdoc.payments p hp
    obtain ⟨_, hcreated⟩ := Option.isSome_iff_exists.mp hcreated
    obtain ⟨_, hupdated⟩ := Option.isSome_iff_exists.mp hupdated
    refine ⟨lacksT_normalised hcreated, lacksT_normalised hupdated, ?_⟩
    have hany : ((p.expiresAt.or (hourAfter p.createdAt)).map normalised).any lacksT = false := by
      cases hor : p.expiresAt.or (hourAfter p.createdAt) with
      | none => rfl
      | some ts =>
        obtain ⟨_, hread⟩ := Option.isSome_iff_exists.mp
          (isSome_readTs_expiry hcreated hexpires ts hor)
        exact lacksT_normalised hread
    exact hany
  deliveries d' hd' := by
    rw [migrate_deliveries] at hd'
    obtain ⟨d, hd, rfl⟩ := List.mem_map.mp hd'
    obtain ⟨_, hread⟩ := Option.isSome_iff_exists.mp (hdoc.deliveries d hd)
    exact lacksT_normalised hread

/-- When a payment is due: at its expiry, or an hour after its creation. -/
def dueInstant (p : StoredPayment) : Option ℤ :=
  match p.expiresAt with
  | some ts => instant ts
  | none => (instant p.createdAt).map (· + 3600)

/-- A row of `payments` and what the migration has to make of it. -/
structure RepairedPayment (p q : StoredPayment) : Prop where
  created : Strict (instant p.createdAt) q.createdAt
  updated : Strict (instant p.updatedAt) q.updatedAt
  expires : ∃ ts ∈ q.expiresAt, Strict (dueInstant p) ts
  rest : { q with createdAt := p.createdAt, updatedAt := p.updatedAt, expiresAt := p.expiresAt } = p

/-- Every timestamp of `g` is strict and denotes what it denoted in `f`. -/
structure Repaired (f g : DbFile) : Prop where
  payments : List.Forall₂ RepairedPayment f.payments.rows g.payments.rows
  deliveries : List.Forall₂ (fun d e => Strict (instant d.createdAt) e.createdAt)
    f.webhookDeliveries.rows g.webhookDeliveries.rows

/-- No timestamp has a `T` and no `Z`, and an expiry that is missing falls into the years that
SQLite's date functions know. -/
structure Repairable (f : DbFile) : Prop where
  payments : ∀ p ∈ f.payments.rows, bare p.createdAt = false ∧ bare p.updatedAt = false ∧
    p.expiresAt.any bare = false
  deliveries : ∀ d ∈ f.webhookDeliveries.rows, bare d.createdAt = false
  expiry : ∀ p ∈ f.payments.rows, p.expiresAt = none → ∀ t ∈ instant p.createdAt, InRange (t + 3600)

theorem repairedPayment_iff (hcreated : (readTs p.createdAt).isSome)
    (hupdated : (readTs p.updatedAt).isSome) (hexpires : ∀ ts ∈ p.expiresAt, (readTs ts).isSome) :
    RepairedPayment p (migrated p) ↔
      (bare p.createdAt = false ∧ bare p.updatedAt = false ∧ p.expiresAt.any bare = false) ∧
        (p.expiresAt = none → ∀ t ∈ instant p.createdAt, InRange (t + 3600)) := by
  have hdue : (∃ ts ∈ (migrated p).expiresAt, Strict (dueInstant p) ts) ↔
      p.expiresAt.any bare = false ∧
      (p.expiresAt = none → ∀ t ∈ instant p.createdAt, InRange (t + 3600)) := by
    unfold dueInstant migrated
    cases hexp : p.expiresAt with
    | some ts => simp [strict_normalised_iff (hexpires ts hexp)]
    | none =>
      obtain ⟨⟨form, t⟩, hread⟩ := Option.isSome_iff_exists.mp hcreated
      have hiff := strict_hourAfter_iff hread
      simpa [instant, hread] using hiff
  constructor
  · rintro ⟨hc, hu, he, -⟩
    have hdue := hdue.mp he
    exact ⟨⟨(strict_normalised_iff hcreated).mp hc, (strict_normalised_iff hupdated).mp hu, hdue.1⟩,
      hdue.2⟩
  · rintro ⟨⟨hc, hu, he⟩, hin⟩
    exact ⟨(strict_normalised_iff hcreated).mpr hc, (strict_normalised_iff hupdated).mpr hu,
      hdue.mpr ⟨he, hin⟩, rfl⟩

theorem repaired_iff (hdoc : f.Documented) : Repaired f (migrate now draw f) ↔ Repairable f := by
  have hpayments : List.Forall₂ RepairedPayment f.payments.rows (migrate now draw f).payments.rows ↔
      ∀ p ∈ f.payments.rows, (bare p.createdAt = false ∧ bare p.updatedAt = false ∧
        p.expiresAt.any bare = false) ∧
        (p.expiresAt = none → ∀ t ∈ instant p.createdAt, InRange (t + 3600)) := by
    rw [migrate_payments, List.forall₂_map_right_iff, List.forall₂_same]
    refine forall₂_congr fun p hp => ?_
    obtain ⟨hcreated, hupdated, hexpires⟩ := hdoc.payments p hp
    exact repairedPayment_iff hcreated hupdated hexpires
  have hdeliveries : List.Forall₂ (fun d e => Strict (instant d.createdAt) e.createdAt)
      f.webhookDeliveries.rows (migrate now draw f).webhookDeliveries.rows ↔
      ∀ d ∈ f.webhookDeliveries.rows, bare d.createdAt = false := by
    rw [migrate_deliveries, List.forall₂_map_right_iff, List.forall₂_same]
    exact forall₂_congr fun d hd => strict_normalised_iff (hdoc.deliveries d hd)
  constructor
  · rintro ⟨hp, hd⟩
    have hp := hpayments.mp hp
    exact ⟨fun p h => (hp p h).1, hdeliveries.mp hd, fun p h => (hp p h).2⟩
  · rintro ⟨hp, hd, he⟩
    exact ⟨hpayments.mpr fun p h => ⟨hp p h, he p h⟩, hdeliveries.mpr hd⟩

end Rows

/-- The migration repairs every timestamp of a legacy file, once and for all, just when none of them
has a `T` and no `Z` and no missing expiry is out of range. -/
theorem legacy_repaired_iff {f : DbFile} {now : ℤ} {draw : String → String} (hdoc : f.Documented)
    (hdraw : f.keys.FreshDraws draw) :
    (Repaired f (migrate now draw f) ∧
      ∀ now' draw', migrate now' draw' (migrate now draw f) = migrate now draw f) ↔
      Repairable f := by
  rw [← @repaired_iff f now draw hdoc]
  exact and_iff_left fun now' draw' => migrate_eq_self (current_migrate hdoc hdraw)

/-! The keys of the merchants of a file without `api_keys`. -/
section Keys
variable {f : DbFile} {now now' : ℤ} {draw hash : String → String} {m : Merchant} {raw : String}

theorem migrate_apiKeys (hnone : f.keys.apiKeys.rows = []) (hdraw : f.keys.FreshDraws draw) :
    (migrate now draw f).keys.apiKeys.rows =
      (f.keys.merchants.rows.filter carriable).map fun m => legacyKey (draw m.id) m := by
  have hhash : ((f.keys.merchants.rows.filter carriable).map Merchant.apiKeyHash).Nodup :=
    (f.keys.merchants.unique Merchant.apiKeyHash (by simp)).sublist (List.filter_sublist.map _)
  have hfresh : ∀ k ∈ [ApiKey.id, ApiKey.keyHash], ((f.keys.apiKeys.rows ++
      (f.keys.merchants.rows.filter carriable).map fun m => legacyKey (draw m.id) m).map
        k).Nodup := by
    intro k hk
    rcases List.mem_pair.mp hk with rfl | rfl
    · exact hdraw.nodup
    · rw [hnone, List.nil_append, List.map_map]
      exact hhash
  have hrows := Table.insertAll_of_fresh hfresh
  rwa [hnone, List.nil_append] at hrows

/-- The key of a merchant is carried over just when the merchant's `created_at` passes the
`CHECK` of `api_keys`. -/
theorem legacyKey_resolves_iff (hnone : f.keys.apiKeys.rows = []) (hdraw : f.keys.FreshDraws draw)
    (hm : m ∈ f.keys.merchants.rows) (hhash : m.apiKeyHash ≠ "") (hraw : hash raw = m.apiKeyHash) :
    ((migrate now draw f).keys.findMerchantByKey hash now' raw).1 = some m.id ↔
      hasTsForm m.createdAt = true := by
  have hfind : (migrate now draw f).keys.apiKeys.rows.find?
        (fun k => k.keyHash = hash raw && k.revokedAt.isNone) =
      ((f.keys.merchants.rows.filter carriable).find? fun x => x.apiKeyHash = m.apiKeyHash).map
        fun m => legacyKey (draw m.id) m := by
    rw [migrate_apiKeys hnone hdraw, List.find?_map, hraw]
    simp [legacyKey, Function.comp_def]
  have honly : ∀ x ∈ f.keys.merchants.rows.filter carriable, x.apiKeyHash = m.apiKeyHash → x = m :=
    fun x hx heq => Table.eq_of_key (k := Merchant.apiKeyHash) (by simp)
      (List.mem_filter.mp hx).1 hm heq
  rw [KeyDb.findMerchantByKey, hfind]
  cases hx : (f.keys.merchants.rows.filter carriable).find? fun x =>
    x.apiKeyHash = m.apiKeyHash with
  | none =>
    refine iff_of_false (by simp) fun hform => ?_
    have hnot := List.find?_eq_none.mp hx m
      (List.mem_filter.mpr ⟨hm, by simp [carriable, hhash, hform]⟩)
    simp at hnot
  | some x =>
    have hmem := List.mem_of_find?_eq_some hx
    obtain rfl := honly x hmem (by simpa using List.find?_some hx)
    have hcarriable := (List.mem_filter.mp hmem).2
    rw [carriable, Bool.and_eq_true] at hcarriable
    exact iff_of_true rfl hcarriable.2

end Keys

namespace Sample

def legacyPayment (createdAt updatedAt : String) (expiresAt : Option String) : StoredPayment :=
  { id := "p1", merchantId := "m", destinationAddress := "GATE", memo := "MEMO", amount := "10",
    asset := "XLM", assetIssuer := none, status := .pending, webhookUrl := none, txHash := none,
    paidAmount := none, createdAt, updatedAt, expiresAt }

def legacyFile (p : StoredPayment) : DbFile := { DbFile.empty with payments := ⟨[p], by simp⟩ }

/-- A file as the old `datetime('now')` default left it, before the expiry was stored. -/
def spacedFile : DbFile :=
  legacyFile (legacyPayment "2026-04-29 15:00:00" "2026-04-29 15:10:00" none)

/-- A file with a timestamp that has a `T` and no `Z`. -/
def bareFile : DbFile :=
  legacyFile (legacyPayment "2026-04-29 15:00:00" "2026-04-29T15:10:00"
    (some "2026-04-29 16:00:00"))

end Sample

theorem spaced_repaired :
    Repaired Sample.spacedFile (migrate 0 id Sample.spacedFile) ∧ ∀ now' draw',
      migrate now' draw' (migrate 0 id Sample.spacedFile) = migrate 0 id Sample.spacedFile :=
  (legacy_repaired_iff ⟨by decide, by decide⟩ (by unfold KeyDb.FreshDraws; decide)).mpr
    ⟨by decide, by decide, by decide⟩

/-- The repair takes the `T` of `2026-04-29T15:10:00` for the mark of a repaired timestamp. -/
theorem bare_not_repaired : Sample.bareFile.Documented ∧
    (migrate 0 id Sample.bareFile).payments.rows.map StoredPayment.updatedAt =
      ["2026-04-29T15:10:00"] ∧
    ¬ Repaired Sample.bareFile (migrate 0 id Sample.bareFile) := by
  have hdoc : Sample.bareFile.Documented := ⟨by decide, by decide⟩
  refine ⟨hdoc, by decide, fun hrepaired => ?_⟩
  have hbare := ((repaired_iff hdoc).mp hrepaired).payments _ (List.mem_singleton_self _)
  exact absurd hbare.2.1 (by decide)

namespace Sample

def merchantFile (createdAt : String) : DbFile :=
  { DbFile.empty with keys := ⟨⟨[⟨"m", "digest", createdAt⟩], by simp⟩, .empty⟩ }

end Sample

theorem zonedKey_resolves :
    ((migrate 0 id (Sample.merchantFile "2026-04-29T15:00:00Z")).keys.findMerchantByKey
      (fun _ => "digest") 0 "key").1 = some "m" := by
  have hdraw : (Sample.merchantFile "2026-04-29T15:00:00Z").keys.FreshDraws id := by
    unfold KeyDb.FreshDraws
    decide
  have hm : ⟨"m", "digest", "2026-04-29T15:00:00Z"⟩ ∈
      (Sample.merchantFile "2026-04-29T15:00:00Z").keys.merchants.rows := by decide
  exact (legacyKey_resolves_iff rfl hdraw hm (by decide) rfl).mpr (by decide)

/-- A merchant from before the strict timestamps is locked out. -/
theorem spacedKey_lost : readTs "2026-04-29 15:00:00" = some (.spaced, 1777474800) ∧
    (migrate 0 id (Sample.merchantFile "2026-04-29 15:00:00")).keys.apiKeys.rows = [] ∧
    ((migrate 0 id (Sample.merchantFile "2026-04-29 15:00:00")).keys.findMerchantByKey
      (fun _ => "digest") 0 "key").1 = none := by
  decide

end StellarGate
