import StellarGate.Base.Table
import StellarGate.Db.Timestamp

/-! The tables of `src/db.rs` that merchants and their API keys live in, with the
statements on them. `hash` is the SHA-256 digest `hash_api_key` stores a key as. -/
namespace StellarGate
open Base

/-- A row of `merchants`. -/
structure Merchant where
  id : String
  apiKeyHash : String
  createdAt : String
  deriving DecidableEq, Repr

/-- A row of `api_keys`. -/
structure ApiKey where
  id : String
  merchantId : String
  keyHash : String
  keyPrefix : String
  label : Option String
  createdAt : String
  lastUsedAt : Option String
  revokedAt : Option String
  deriving DecidableEq, Repr

/-- `merchant_id = ? AND revoked_at IS NULL`. -/
def ApiKey.activeOf (merchantId : String) (k : ApiKey) : Bool :=
  k.merchantId = merchantId && k.revokedAt.isNone

structure KeyDb where
  merchants : Table Merchant String [Merchant.id, Merchant.apiKeyHash]
  apiKeys : Table ApiKey String [ApiKey.id, ApiKey.keyHash]

namespace KeyDb

def empty : KeyDb := ⟨.empty, .empty⟩

/-- `generate_api_key` from its random digits: the raw key and the prefix kept of it. -/
def generateApiKey (digits : String) : String × String :=
  let raw := "sg_" ++ digits
  (raw, String.ofList (raw.toList.take 12))

/-- The row an `INSERT INTO api_keys` writes. -/
def newKey (hash : String → String) (now : ℤ) (id merchantId raw keyPrefix : String)
    (label : Option String) : ApiKey :=
  { id, merchantId, keyHash := hash raw, keyPrefix, label, createdAt := strftime now,
    lastUsedAt := none, revokedAt := none }

/-- `create_api_key`: it fails on a taken id or digest. -/
def createApiKey (hash : String → String) (now : ℤ) (id merchantId raw keyPrefix : String)
    (label : Option String) (db : KeyDb) : Option KeyDb :=
  (db.apiKeys.insert (newKey hash now id merchantId raw keyPrefix label)).map
    fun apiKeys => { db with apiKeys }

/-- `create_merchant`: one transaction, so a failing insert leaves nothing behind. -/
def createMerchant (hash : String → String) (now : ℤ) (id keyId raw keyPrefix : String)
    (db : KeyDb) : Option KeyDb :=
  (db.merchants.insert ⟨id, hash raw, strftime now⟩).bind fun merchants =>
    createApiKey hash now keyId id raw keyPrefix (some "initial") { db with merchants }

def merchantExists (merchantId : String) (db : KeyDb) : Bool :=
  db.merchants.rows.any (·.id = merchantId)

def countActiveApiKeys (merchantId : String) (db : KeyDb) : ℕ :=
  db.apiKeys.rows.countP (ApiKey.activeOf merchantId)

/-- The `WHERE` clause of `revoke_api_key`. -/
def revocable (merchantId keyId : String) (k : ApiKey) : Bool :=
  k.id = keyId && k.activeOf merchantId

def revokeRow (now : ℤ) (k : ApiKey) : ApiKey := { k with revokedAt := some (strftime now) }

theorem revokeRow_keys (now : ℤ) :
    ∀ f ∈ [ApiKey.id, ApiKey.keyHash], ∀ k, f (revokeRow now k) = f k := by
  simp [revokeRow]

/-- `revoke_api_key`, with whether a row was updated. -/
def revokeApiKey (now : ℤ) (merchantId keyId : String) (db : KeyDb) : Bool × KeyDb :=
  let hit := revocable merchantId keyId
  let apiKeys := db.apiKeys.update hit (revokeRow now) (revokeRow_keys now)
  (db.apiKeys.rows.any hit, { db with apiKeys })

/-- The refresh of `last_used_at` hits a key at most once a minute. -/
def refreshable (now : ℤ) (keyId : String) (k : ApiKey) : Bool :=
  k.id = keyId && k.lastUsedAt.all fun t => t < strftime (now - 60)

def refreshRow (now : ℤ) (k : ApiKey) : ApiKey := { k with lastUsedAt := some (strftime now) }

theorem refreshRow_keys (now : ℤ) :
    ∀ f ∈ [ApiKey.id, ApiKey.keyHash], ∀ k, f (refreshRow now k) = f k := by
  simp [refreshRow]

/-- `find_merchant_by_key`, with the refreshed table. -/
def findMerchantByKey (hash : String → String) (now : ℤ) (raw : String) (db : KeyDb) :
    Option String × KeyDb :=
  match db.apiKeys.rows.find? fun k => k.keyHash = hash raw && k.revokedAt.isNone with
  | none => (none, db)
  | some k =>
    let apiKeys := db.apiKeys.update (refreshable now k.id) (refreshRow now) (refreshRow_keys now)
    (some k.merchantId, { db with apiKeys })

def HasActiveKey (merchantId : String) (db : KeyDb) : Prop :=
  ∃ k ∈ db.apiKeys.rows, k.activeOf merchantId = true

def AllUsable (db : KeyDb) : Prop := ∀ m ∈ db.merchants.rows, db.HasActiveKey m.id

instance (merchantId : String) (db : KeyDb) : Decidable (db.HasActiveKey merchantId) :=
  inferInstanceAs (Decidable (∃ k ∈ db.apiKeys.rows, k.activeOf merchantId = true))

instance (db : KeyDb) : Decidable db.AllUsable :=
  inferInstanceAs (Decidable (∀ m ∈ db.merchants.rows, db.HasActiveKey m.id))

variable {hash : String → String} {now : ℤ} {id merchantId keyId raw keyPrefix : String}
  {label : Option String} {db db' : KeyDb}

theorem createApiKey_eq_some
    (h : db.createApiKey hash now id merchantId raw keyPrefix label = some db') :
    db'.merchants = db.merchants ∧
      db'.apiKeys.rows = db.apiKeys.rows ++
      [newKey hash now id merchantId raw keyPrefix label] := by
  obtain ⟨apiKeys, hi, rfl⟩ := Option.map_eq_some_iff.mp h
  exact ⟨rfl, (Table.insert_eq_some hi).1⟩

theorem createMerchant_eq_some
    (h : db.createMerchant hash now id keyId raw keyPrefix = some db') :
    db'.merchants.rows = db.merchants.rows ++ [⟨id, hash raw, strftime now⟩] ∧
      db'.apiKeys.rows = db.apiKeys.rows ++
      [newKey hash now keyId id raw keyPrefix (some "initial")] := by
  obtain ⟨merchants, hi, hc⟩ := Option.bind_eq_some_iff.mp h
  obtain ⟨hm, hk⟩ := createApiKey_eq_some hc
  exact ⟨hm ▸ (Table.insert_eq_some hi).1, hk⟩

theorem merchantExists_iff :
    db.merchantExists merchantId = true ↔ ∃ m ∈ db.merchants.rows, m.id = merchantId := by
  simp [merchantExists]

theorem HasActiveKey.mono (h : db.HasActiveKey merchantId)
    (hs : ∀ k ∈ db.apiKeys.rows, k ∈ db'.apiKeys.rows) : db'.HasActiveKey merchantId := by
  obtain ⟨k, hk, ha⟩ := h
  exact ⟨k, hs k hk, ha⟩

theorem hasActiveKey_revoke {m : String} :
    (db.revokeApiKey now merchantId keyId).2.HasActiveKey m ↔
      ∃ k ∈ db.apiKeys.rows, k.activeOf m = true ∧ revocable merchantId keyId k = false := by
  have hoff (k : ApiKey) : (revokeRow now k).activeOf m = false := by
    simp [revokeRow, ApiKey.activeOf]
  constructor
  · rintro ⟨k', hk', ha⟩
    obtain ⟨k, hk, rfl⟩ := (Table.mem_update (revokeRow_keys now)).mp hk'
    split_ifs at ha with hit
    · rw [hoff] at ha
      cases ha
    · exact ⟨k, hk, ha, by simpa using hit⟩
  · rintro ⟨k, hk, ha, hit⟩
    exact ⟨k, (Table.mem_update (revokeRow_keys now)).mpr ⟨k, hk, by simp [hit]⟩, ha⟩

/-- A revocation that hits a key leaves the merchant another one exactly when two are active. -/
theorem hasActiveKey_revoke_iff (hit : db.apiKeys.rows.any (revocable merchantId keyId) = true) :
    (db.revokeApiKey now merchantId keyId).2.HasActiveKey merchantId ↔
      2 ≤ db.countActiveApiKeys merchantId := by
  have hone : db.apiKeys.rows.countP (revocable merchantId keyId) = 1 := by
    have hle : db.apiKeys.rows.countP (revocable merchantId keyId) ≤ 1 :=
      Table.countP_key_le_one (List.mem_cons_self) keyId fun k hk => by
        simp only [revocable, Bool.and_eq_true, decide_eq_true_eq] at hk
        exact hk.1
    have hpos : 0 < db.apiKeys.rows.countP (revocable merchantId keyId) :=
      List.countP_pos_iff.mpr (List.any_eq_true.mp hit)
    omega
  have hsplit : db.countActiveApiKeys merchantId =
      db.apiKeys.rows.countP (revocable merchantId keyId) +
        db.apiKeys.rows.countP fun k => k.activeOf merchantId && !revocable merchantId keyId k := by
    unfold countActiveApiKeys
    induction db.apiKeys.rows with
    | nil => rfl
    | cons k ks ih =>
      simp only [List.countP_cons, ih, revocable]
      by_cases hid : k.id = keyId <;> by_cases ha : k.activeOf merchantId = true <;>
        simp [hid, ha] <;> omega
  rw [hasActiveKey_revoke, hsplit, hone]
  constructor
  · rintro ⟨k, hk, ha, hnot⟩
    have : 0 < db.apiKeys.rows.countP fun k => k.activeOf merchantId &&
      !revocable merchantId keyId k :=
      List.countP_pos_iff.mpr ⟨k, hk, by simp [ha, hnot]⟩
    omega
  · intro hcount
    obtain ⟨k, hk, hboth⟩ := List.countP_pos_iff.mp
      (by omega : 0 < db.apiKeys.rows.countP fun k => k.activeOf merchantId &&
        !revocable merchantId keyId k)
    exact ⟨k, hk, by simpa using hboth⟩

theorem hasActiveKey_revoke_of_ne {m : String} (h : m ≠ merchantId) (ha : db.HasActiveKey m) :
    (db.revokeApiKey now merchantId keyId).2.HasActiveKey m := by
  obtain ⟨k, hk, hm⟩ := ha
  refine hasActiveKey_revoke.mpr ⟨k, hk, hm, ?_⟩
  simp only [ApiKey.activeOf, Bool.and_eq_true, decide_eq_true_eq] at hm
  simp [revocable, ApiKey.activeOf, hm.1, h]

theorem allUsable_createMerchant (hu : db.AllUsable)
    (h : db.createMerchant hash now id keyId raw keyPrefix = some db') : db'.AllUsable := by
  obtain ⟨hm, hk⟩ := createMerchant_eq_some h
  intro m hin
  rw [hm] at hin
  rcases List.mem_append.mp hin with hin | hin
  · exact (hu m hin).mono fun k hk' => by simp [hk, hk']
  · rw [List.mem_singleton.mp hin]
    refine ⟨newKey hash now keyId id raw keyPrefix (some "initial"), by simp [hk], ?_⟩
    simp [newKey, ApiKey.activeOf]

theorem allUsable_createApiKey (hu : db.AllUsable)
    (h : db.createApiKey hash now id merchantId raw keyPrefix label = some db') :
    db'.AllUsable := by
  obtain ⟨hm, hk⟩ := createApiKey_eq_some h
  intro m hin
  rw [hm] at hin
  exact (hu m hin).mono fun k hk' => by simp [hk, hk']

theorem allUsable_revoke_iff (hu : db.AllUsable) (hm : db.merchantExists merchantId = true) :
    (db.revokeApiKey now merchantId keyId).2.AllUsable ↔
      (db.apiKeys.rows.any (revocable merchantId keyId) = true →
        2 ≤ db.countActiveApiKeys merchantId) := by
  obtain ⟨m, hin, rfl⟩ := merchantExists_iff.mp hm
  constructor
  · intro hall hit
    exact (hasActiveKey_revoke_iff hit).mp (hall m hin)
  · intro hcount x hx
    by_cases hsame : x.id = m.id
    · rw [hsame]
      by_cases hit : db.apiKeys.rows.any (revocable m.id keyId) = true
      · exact (hasActiveKey_revoke_iff hit).mpr (hcount hit)
      · obtain ⟨k, hk, ha⟩ := hu m hin
        refine hasActiveKey_revoke.mpr ⟨k, hk, ha, ?_⟩
        by_contra hrev
        exact hit (List.any_eq_true.mpr ⟨k, hk, by simpa using hrev⟩)
    · exact hasActiveKey_revoke_of_ne hsame (hu x hx)

end KeyDb
end StellarGate
