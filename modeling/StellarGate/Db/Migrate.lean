import StellarGate.Addresses
import StellarGate.Db.Forms
import StellarGate.Db.Keys

/-! What every start does to a database file (`migrate` and `backfill_asset_issuers` in
`src/db.rs`). A table or a column that an older file lacks reads as empty or NULL, so that creating
it changes nothing here. -/
namespace StellarGate
open Base

/-- A row of `payments` on file. Older rows may have no expiry. -/
structure StoredPayment where
  id : String
  merchantId : String
  destinationAddress : String
  memo : String
  amount : String
  asset : String
  assetIssuer : Option String
  status : PaymentStatus
  webhookUrl : Option String
  txHash : Option String
  paidAmount : Option String
  createdAt : String
  updatedAt : String
  expiresAt : Option String
  deriving DecidableEq, Repr

/-- A row of `kv_state`. -/
structure KvState where
  key : String
  value : String
  updatedAt : String
  deriving DecidableEq, Repr

structure DbFile where
  payments : Table StoredPayment String [StoredPayment.id, StoredPayment.memo]
  processedTransactions : Table ProcessedTx (String × String) [ProcessedTx.key]
  webhookDeliveries : Table WebhookDelivery String [WebhookDelivery.id]
  idempotencyKeys : Table IdempotencyKey (String × String) [IdempotencyKey.key]
  kvState : Table KvState String [KvState.key]
  keys : KeyDb

def DbFile.empty : DbFile := ⟨.empty, .empty, .empty, .empty, .empty, .empty⟩

def legacyKey (id : String) (m : Merchant) : ApiKey :=
  { id, merchantId := m.id, keyHash := m.apiKeyHash, keyPrefix := "legacy",
    label := some "migrated", createdAt := m.createdAt, lastUsedAt := none, revokedAt := none }

/-- The merchants whose key can be carried over: `api_key_hash <> ''`, and a `created_at` that
passes the `CHECK` of `api_keys`. -/
def carriable (m : Merchant) : Bool := m.apiKeyHash ≠ "" && hasTsForm m.createdAt

/-- `INSERT OR IGNORE INTO api_keys … SELECT … FROM merchants`. `draw` is
`lower(hex(randomblob(16)))`, by the merchant it is drawn for. -/
def KeyDb.carryOver (draw : String → String) (db : KeyDb) : KeyDb :=
  let issued := (db.merchants.rows.filter carriable).map fun m => legacyKey (draw m.id) m
  { db with apiKeys := db.apiKeys.insertAll issued }

def legacyCredit (now : ℤ) (p : StoredPayment) : Option ProcessedTx :=
  (p.txHash.filter (· ≠ "")).bind fun txHash => (p.paidAmount.bind parseStroops).map fun stroops =>
    ⟨p.id, txHash, stroops, strftime now⟩

/-- `strftime(…, created_at, '+1 hour')`. -/
def hourAfter (ts : String) : Option String :=
  (readTs ts).bind fun r => strftimeChecked (r.2 + 3600)

def addExpiry (p : StoredPayment) : StoredPayment := { p with expiresAt := hourAfter p.createdAt }

def repairCreated (p : StoredPayment) : StoredPayment :=
  { p with createdAt := repairTs p.createdAt }

def repairUpdated (p : StoredPayment) : StoredPayment :=
  { p with updatedAt := repairTs p.updatedAt }

def repairExpires (p : StoredPayment) : StoredPayment :=
  { p with expiresAt := p.expiresAt.map repairTs }

def repairDelivery (d : WebhookDelivery) : WebhookDelivery :=
  { d with createdAt := repairTs d.createdAt }

def setIssuer (issuer : String) (p : StoredPayment) : StoredPayment :=
  { p with assetIssuer := some issuer }

/-- None of the repairs touches a key column. -/
abbrev KeepsKeys (f : StoredPayment → StoredPayment) : Prop :=
  ∀ k ∈ [StoredPayment.id, StoredPayment.memo], ∀ p, k (f p) = k p

theorem keepsKeys {f : StoredPayment → StoredPayment} (hid : ∀ p, (f p).id = p.id)
    (hmemo : ∀ p, (f p).memo = p.memo) : KeepsKeys f := by
  simp only [KeepsKeys, List.forall_mem_cons, List.not_mem_nil, false_imp_iff,
    implies_true, and_true]
  exact ⟨hid, hmemo⟩

theorem addExpiry_keys : KeepsKeys addExpiry := keepsKeys (fun _ => rfl) fun _ => rfl
theorem repairCreated_keys : KeepsKeys repairCreated := keepsKeys (fun _ => rfl) fun _ => rfl
theorem repairUpdated_keys : KeepsKeys repairUpdated := keepsKeys (fun _ => rfl) fun _ => rfl
theorem repairExpires_keys : KeepsKeys repairExpires := keepsKeys (fun _ => rfl) fun _ => rfl
theorem setIssuer_keys (issuer : String) : KeepsKeys (setIssuer issuer) :=
  keepsKeys (fun _ => rfl) fun _ => rfl

theorem repairDelivery_keys : ∀ k ∈ [WebhookDelivery.id], ∀ d, k (repairDelivery d) = k d := by
  simp [repairDelivery]

namespace DbFile

/-- `UPDATE payments SET expires_at = … WHERE expires_at IS NULL`. -/
def backfillExpiry (f : DbFile) : DbFile :=
  { f with payments := f.payments.update (·.expiresAt.isNone) addExpiry addExpiry_keys }

def carryOver (draw : String → String) (f : DbFile) : DbFile :=
  { f with keys := f.keys.carryOver draw }

/-- The backfill of `processed_transactions`. -/
def backfillCredits (now : ℤ) (f : DbFile) : DbFile :=
  let credits := f.payments.rows.filterMap (legacyCredit now)
  { f with processedTransactions := f.processedTransactions.insertAll credits }

/-- The four statements
`UPDATE … SET col = replace(col, ' ', 'T') || 'Z' WHERE col NOT LIKE '%T%'`. -/
def normalise (f : DbFile) : DbFile :=
  { f with
    payments := ((f.payments.update (lacksT ·.createdAt) repairCreated repairCreated_keys).update
      (lacksT ·.updatedAt) repairUpdated repairUpdated_keys).update
      (·.expiresAt.any lacksT) repairExpires repairExpires_keys
    webhookDeliveries := f.webhookDeliveries.update (lacksT ·.createdAt)
      repairDelivery repairDelivery_keys }

end DbFile

def migrate (now : ℤ) (draw : String → String) (f : DbFile) : DbFile :=
  (((f.backfillExpiry).carryOver draw).backfillCredits now).normalise

/-- `upper(asset) = upper(?) AND (asset_issuer IS NULL OR asset_issuer = '')`. -/
def lacksIssuer (code : String) (p : StoredPayment) : Bool :=
  asciiUpper p.asset = asciiUpper code && (p.assetIssuer.getD "" = "")

def backfillAssetIssuers (accepted : List AcceptedAsset) (f : DbFile) : DbFile :=
  accepted.foldl (fun f asset =>
    match asset.issuer with
    | none => f
    | some issuer =>
      let hit := lacksIssuer asset.code
      { f with payments := f.payments.update hit (setIssuer issuer) (setIssuer_keys issuer) }) f

/-- There is nothing left for `migrate` to do. -/
structure DbFile.Current (f : DbFile) : Prop where
  expiry : ∀ p ∈ f.payments.rows, p.expiresAt = none → hourAfter p.createdAt = none
  carried : ∀ m ∈ f.keys.merchants.rows, carriable m = true →
    ∃ k ∈ f.keys.apiKeys.rows, k.keyHash = m.apiKeyHash
  credited : ∀ p ∈ f.payments.rows, ∀ txHash ∈ p.txHash, txHash ≠ "" →
    (p.paidAmount.bind parseStroops).isSome →
      ∃ r ∈ f.processedTransactions.rows, r.key = (p.id, txHash)
  payments : ∀ p ∈ f.payments.rows, lacksT p.createdAt = false ∧ lacksT p.updatedAt = false ∧
    p.expiresAt.any lacksT = false
  deliveries : ∀ d ∈ f.webhookDeliveries.rows, lacksT d.createdAt = false

section
variable {f : DbFile} {now : ℤ} {draw : String → String} {p : StoredPayment} {r : ProcessedTx}

theorem legacyCredit_eq_some (h : legacyCredit now p = some r) :
    ∃ txHash ∈ p.txHash, txHash ≠ "" ∧ (p.paidAmount.bind parseStroops).isSome ∧
      r.key = (p.id, txHash) := by
  obtain ⟨txHash, hfilter, h⟩ := Option.bind_eq_some_iff.mp h
  obtain ⟨stroops, hparse, rfl⟩ := Option.map_eq_some_iff.mp h
  obtain ⟨htx, hne⟩ := Option.filter_eq_some_iff.mp hfilter
  exact ⟨txHash, htx, by simpa using hne, by rw [hparse]; rfl, rfl⟩

theorem DbFile.Current.backfillExpiry_eq_self (h : f.Current) : f.backfillExpiry = f := by
  have hrows : f.payments.update (·.expiresAt.isNone) addExpiry addExpiry_keys = f.payments := by
    apply Table.ext
    rw [Table.update_rows]
    calc
      f.payments.rows.map (fun p => if p.expiresAt.isNone then addExpiry p else p) =
          f.payments.rows.map id := List.map_congr_left fun p hp => by
        split_ifs with hnone
        · have hexp := Option.isNone_iff_eq_none.mp hnone
          have hsame : addExpiry p = p := by
            rw [addExpiry, h.expiry p hp hexp, ← hexp]
          exact hsame
        · rfl
      _ = f.payments.rows := List.map_id _
  rw [DbFile.backfillExpiry, hrows]

theorem KeyDb.carryOver_eq_self {db : KeyDb}
    (h : ∀ m ∈ db.merchants.rows, carriable m = true → ∃ k ∈ db.apiKeys.rows,
      k.keyHash = m.apiKeyHash) :
    db.carryOver draw = db := by
  have hrows : db.apiKeys.insertAll
      ((db.merchants.rows.filter carriable).map fun m => legacyKey (draw m.id) m) = db.apiKeys := by
    apply Table.insertAll_eq_self
    intro k hk
    obtain ⟨m, hm, rfl⟩ := List.mem_map.mp hk
    obtain ⟨hm, hcarriable⟩ := List.mem_filter.mp hm
    obtain ⟨k, hk, hhash⟩ := h m hm hcarriable
    exact ⟨ApiKey.keyHash, by simp, List.mem_map.mpr ⟨k, hk, hhash⟩⟩
  rw [KeyDb.carryOver, hrows]

theorem DbFile.Current.backfillCredits_eq_self (h : f.Current) : f.backfillCredits now = f := by
  have hrows : f.processedTransactions.insertAll (f.payments.rows.filterMap (legacyCredit now)) =
      f.processedTransactions := by
    apply Table.insertAll_eq_self
    intro r hr
    obtain ⟨p, hp, hcredit⟩ := List.mem_filterMap.mp hr
    obtain ⟨txHash, htx, hne, hpaid, hkey⟩ := legacyCredit_eq_some hcredit
    obtain ⟨r', hr', hkey'⟩ := h.credited p hp txHash htx hne hpaid
    exact ⟨ProcessedTx.key, by simp, List.mem_map.mpr ⟨r', hr', hkey'.trans hkey.symm⟩⟩
  rw [DbFile.backfillCredits, hrows]

theorem DbFile.Current.normalise_eq_self (h : f.Current) : f.normalise = f := by
  have hcreated : f.payments.update (lacksT ·.createdAt) repairCreated repairCreated_keys =
    f.payments :=
    Table.update_eq_self fun p hp => (h.payments p hp).1
  have hupdated : f.payments.update (lacksT ·.updatedAt) repairUpdated repairUpdated_keys =
    f.payments :=
    Table.update_eq_self fun p hp => (h.payments p hp).2.1
  have hexpires : f.payments.update (·.expiresAt.any lacksT) repairExpires repairExpires_keys =
    f.payments :=
    Table.update_eq_self fun p hp => (h.payments p hp).2.2
  have hdeliveries : f.webhookDeliveries.update (lacksT ·.createdAt)
      repairDelivery repairDelivery_keys = f.webhookDeliveries := Table.update_eq_self h.deliveries
  rw [DbFile.normalise, hcreated, hupdated, hexpires, hdeliveries]

theorem migrate_eq_self (h : f.Current) : migrate now draw f = f := by
  have hkeys : f.carryOver draw = f := by
    rw [DbFile.carryOver, KeyDb.carryOver_eq_self h.carried]
  rw [migrate, h.backfillExpiry_eq_self, hkeys, h.backfillCredits_eq_self, h.normalise_eq_self]

theorem backfillAssetIssuers_eq_self {accepted : List AcceptedAsset}
    (h : ∀ p ∈ f.payments.rows, ∀ asset ∈ accepted, asset.issuer.isSome →
      lacksIssuer asset.code p = false) :
    backfillAssetIssuers accepted f = f := by
  induction accepted with
  | nil => rfl
  | cons asset accepted ih =>
    have hrest := ih fun p hp asset ha => h p hp asset (List.mem_cons_of_mem _ ha)
    rw [backfillAssetIssuers, List.foldl_cons]
    cases hissuer : asset.issuer with
    | none => exact hrest
    | some issuer =>
      have hsame : f.payments.update (lacksIssuer asset.code) (setIssuer issuer)
          (setIssuer_keys issuer) = f.payments :=
        Table.update_eq_self fun p hp => h p hp asset List.mem_cons_self (by rw [hissuer]; rfl)
      simp only [hsame]
      exact hrest

end

end StellarGate
