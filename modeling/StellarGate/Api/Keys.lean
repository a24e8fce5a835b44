import StellarGate.Base.Pool
import StellarGate.Api.Create
import StellarGate.Db.Keys

/-! The key endpoints of `src/api/mod.rs`: `provision_merchant`, `issue_api_key` and
`revoke_api_key`, any number of them at once, a SQL statement a step. -/
namespace StellarGate
open Base

/-- What the process draws for one step: the clock, two UUIDs and the digits of a raw key. -/
structure KeyReply where
  now : ℤ
  merchantUuid : String
  keyUuid : String
  digits : String
  deriving DecidableEq, Repr

inductive KeyRequest where
  | provision
  | issue (merchantId : String) (label : Option String)
  | revoke (merchantId keyId : String)
  deriving DecidableEq, Repr

inductive KeyResponse where
  | provisioned (merchantId apiKey keyId : String)
  | issued (keyId apiKey keyPrefix : String) (label : Option String)
  | revoked (keyId : String)
  | failed (error : AppError)
  deriving DecidableEq, Repr

/-- The statement a request runs next. -/
inductive KeyPc where
  | createMerchant
  | issueExists (merchantId : String) (label : Option String)
  | issueInsert (merchantId : String) (label : Option String)
  | revokeExists (merchantId keyId : String)
  | revokeCount (merchantId keyId : String)
  | revokeUpdate (merchantId keyId : String)
  | done (response : KeyResponse)
  | lost
  deriving DecidableEq, Repr

namespace Keys

def merchantNotFound : AppError := ⟨404, "merchant_not_found", "merchant not found"⟩

def keyNotFound : AppError := ⟨404, "key_not_found", "no active key with that id for this merchant"⟩

def lastActiveKey : AppError :=
  .badRequest "last_active_key"
    "cannot revoke a merchant's only active key — issue a replacement first"

def invalidLabel : AppError :=
  .badRequest "invalid_label" "label exceeds max length of 100 characters"

def start : KeyRequest → KeyPc
  | .provision => .createMerchant
  | .issue merchantId label => .issueExists merchantId label
  | .revoke merchantId keyId => .revokeExists merchantId keyId

def step (hash : String → String) (r : KeyReply) : KeyPc → KeyDb → KeyPc × KeyDb
  | .createMerchant, db =>
    let key := KeyDb.generateApiKey r.digits
    match db.createMerchant hash r.now r.merchantUuid r.keyUuid key.1 key.2 with
    | none => (.done (.failed .internal), db)
    | some db' => (.done (.provisioned r.merchantUuid key.1 r.keyUuid), db')
  | .issueExists merchantId label, db =>
    if !db.merchantExists merchantId then (.done (.failed merchantNotFound), db)
    else if 100 < (label.getD "").utf8ByteSize then (.done (.failed invalidLabel), db)
    else (.issueInsert merchantId label, db)
  | .issueInsert merchantId label, db =>
    let key := KeyDb.generateApiKey r.digits
    match db.createApiKey hash r.now r.keyUuid merchantId key.1 key.2 label with
    | none => (.done (.failed .internal), db)
    | some db' => (.done (.issued r.keyUuid key.1 key.2 label), db')
  | .revokeExists merchantId keyId, db =>
    if !db.merchantExists merchantId then (.done (.failed merchantNotFound), db)
    else (.revokeCount merchantId keyId, db)
  | .revokeCount merchantId keyId, db =>
    if db.countActiveApiKeys merchantId ≤ 1 then (.done (.failed lastActiveKey), db)
    else (.revokeUpdate merchantId keyId, db)
  | .revokeUpdate merchantId keyId, db =>
    let updated := db.revokeApiKey r.now merchantId keyId
    (.done (if !updated.1 then .failed keyNotFound else .revoked keyId), updated.2)
  | .done response, db => (.done response, db)
  | .lost, db => (.lost, db)

def fail : KeyPc → KeyPc
  | .done response => .done response
  | .lost => .lost
  | _ => .done (.failed .internal)

def cut : KeyPc → KeyPc
  | .done response => .done response
  | _ => .lost

def machine (hash : String → String) : Machine KeyRequest KeyPc KeyReply KeyDb :=
  ⟨start, step hash, fail, cut⟩

/-- A request that is about to revoke has seen its merchant. -/
def Known (db : KeyDb) : KeyPc → Prop
  | .revokeCount merchantId _ => db.merchantExists merchantId = true
  | .revokeUpdate merchantId _ => db.merchantExists merchantId = true
  | _ => True

/-- A revocation that hits a key finds two active ones. -/
def LeavesKey (_ : KeyReply) (pc : KeyPc) (db : KeyDb) : Prop :=
  match pc with
  | .revokeUpdate merchantId keyId =>
    db.apiKeys.rows.any (KeyDb.revocable merchantId keyId) = true →
    2 ≤ db.countActiveApiKeys merchantId
  | _ => True

instance (r : KeyReply) (db : KeyDb) : ∀ pc, Decidable (LeavesKey r pc db)
  | .revokeUpdate merchantId keyId => inferInstanceAs (Decidable
      (db.apiKeys.rows.any (KeyDb.revocable merchantId keyId) = true →
        2 ≤ db.countActiveApiKeys merchantId))
  | .createMerchant | .issueExists _ _ | .issueInsert _ _ | .revokeExists _ _ | .revokeCount _ _
  | .done _ | .lost => .isTrue trivial

section
variable {hash : String → String} {r : KeyReply} {pc : KeyPc} {db : KeyDb}

theorem step_db :
    ((step hash r pc db).2 = db ∧ ∀ merchantId keyId, pc ≠ .revokeUpdate merchantId keyId) ∨
    (pc = .createMerchant ∧ ∃ raw keyPrefix, db.createMerchant hash r.now r.merchantUuid
      r.keyUuid raw keyPrefix = some (step hash r pc db).2) ∨
    (∃ merchantId label raw keyPrefix, pc = .issueInsert merchantId label ∧
      db.createApiKey hash r.now r.keyUuid merchantId raw keyPrefix label =
        some (step hash r pc db).2) ∨
    (∃ merchantId keyId, pc = .revokeUpdate merchantId keyId ∧
      (step hash r pc db).2 = (db.revokeApiKey r.now merchantId keyId).2) := by
  cases pc with
  | createMerchant =>
    simp only [step]
    split
    · exact .inl ⟨rfl, by simp⟩
    · next h => exact .inr (.inl ⟨trivial, _, _, h⟩)
  | issueExists =>
    simp only [step]
    split_ifs <;> exact .inl ⟨rfl, by simp⟩
  | issueInsert merchantId label =>
    simp only [step]
    split
    · exact .inl ⟨rfl, by simp⟩
    · next h => exact .inr (.inr (.inl ⟨_, _, _, _, rfl, h⟩))
  | revokeExists | revokeCount =>
    simp only [step]
    split_ifs <;> exact .inl ⟨rfl, by simp⟩
  | revokeUpdate merchantId keyId => exact .inr (.inr (.inr ⟨_, _, rfl, rfl⟩))
  | done | lost => exact .inl ⟨rfl, by simp⟩

theorem merchantExists_step {merchantId : String} (h : db.merchantExists merchantId = true) :
    (step hash r pc db).2.merchantExists merchantId = true := by
  rw [KeyDb.merchantExists_iff] at h ⊢
  obtain ⟨m, hm, hid⟩ := h
  refine ⟨m, ?_, hid⟩
  rcases @step_db hash r pc db with ⟨hs, -⟩ | ⟨-, _, _, hs⟩ | ⟨_, _, _, _, -, hs⟩ | ⟨_, _, -, hs⟩
  · rwa [hs]
  · rw [(KeyDb.createMerchant_eq_some hs).1]
    exact List.mem_append_left _ hm
  · rwa [(KeyDb.createApiKey_eq_some hs).1]
  · rw [hs]
    exact hm

theorem Known.step (h : Known db pc) : Known (step hash r pc db).2 (step hash r pc db).1 := by
  cases pc with
  | createMerchant | issueExists | issueInsert =>
    simp only [Keys.step]
    repeat' split
    all_goals trivial
  | revokeExists =>
    simp only [Keys.step]
    split_ifs with hm
    · trivial
    · simpa [Known] using hm
  | revokeCount =>
    simp only [Keys.step]
    split_ifs
    · trivial
    · exact h
  | revokeUpdate | done | lost => trivial

theorem Known.mono {pc' : KeyPc} (h : Known db pc') : Known (Keys.step hash r pc db).2 pc' := by
  unfold Known at h ⊢
  split
  · exact merchantExists_step h
  · exact merchantExists_step h
  · trivial

/-- A step leaves every merchant a usable key exactly when it is no
revocation of the last one. -/
theorem allUsable_step_iff (hk : Known db pc) (hu : db.AllUsable) :
    (step hash r pc db).2.AllUsable ↔ LeavesKey r pc db := by
  rcases @step_db hash r pc db with ⟨hs, hne⟩ | ⟨rfl, _, _, hs⟩ | ⟨_, _, _, _, rfl, hs⟩ | ⟨m,
    k, rfl, hs⟩
  · rw [hs]
    refine iff_of_true hu ?_
    unfold LeavesKey
    split
    · exact absurd rfl (hne _ _)
    · trivial
  · exact iff_of_true (KeyDb.allUsable_createMerchant hu hs) trivial
  · exact iff_of_true (KeyDb.allUsable_createApiKey hu hs) trivial
  · rw [hs]
    exact KeyDb.allUsable_revoke_iff hu hk

end

/-- In a run of key requests every merchant has a usable key in every state exactly when no
revocation takes a key that is the merchant's only active one by the time of its `UPDATE`. -/
theorem allUsable_iff {hash : String → String} {db : KeyDb} (hu : db.AllUsable)
    {as : List (Act KeyRequest KeyReply)} {w : Pool KeyPc KeyDb}
    (hr : run (machine hash).step ⟨db, []⟩ as = some w) :
    (∀ bs, bs <+: as → ∀ u, run (machine hash).step ⟨db, []⟩ bs = some u → u.store.AllUsable) ↔
      Along (machine hash).step (Machine.OnExec LeavesKey) ⟨db, []⟩ as := by
  refine Machine.always_iff_onExec (I := fun _ => True) (J := Known) ?_ ?_ ?_ ?_ ?_ hr ?_ hu
  · intro s q _
    cases q <;> trivial
  · intro r pc s _ hk
    exact ⟨trivial, hk.step, fun _ h => h.mono⟩
  · intro s pc hk
    cases pc <;> trivial
  · intro s pc hk
    cases pc <;> trivial
  · intro r pc s _ hk hs
    exact allUsable_step_iff hk hs
  · exact ⟨trivial, by simp⟩

end Keys

namespace Sample

def keyReply (merchantUuid keyUuid digits : String) : KeyReply := ⟨0, merchantUuid, keyUuid, digits⟩

/-- A merchant `"m"` with the keys `"a"` and `"b"`, and a request to revoke each of them. -/
def twoRevocations : List (Act KeyRequest KeyReply) :=
  [.spawn .provision, .exec 0 (keyReply "m" "a" "01"), .spawn (.issue "m" none),
    .exec 1 (keyReply "" "" ""), .exec 1 (keyReply "" "b" "02"), .spawn (.revoke "m" "a"),
    .spawn (.revoke "m" "b")]

/-- The requests named by `is` run a statement each, in this order. -/
def keyTurns (is : List ℕ) : List (Act KeyRequest KeyReply) :=
  is.map fun i => .exec i (keyReply "" "" "")

end Sample

namespace Keys

/-- One revocation after the other: the second one is refused. -/
theorem allUsable_iff_sequential :
    ∃ w, run (machine id).step ⟨.empty, []⟩
        (Sample.twoRevocations ++ Sample.keyTurns [2, 2, 2, 3, 3]) = some w ∧
      w.procs[3]? = some (.done (.failed lastActiveKey)) ∧
      ((∀ bs, bs <+: Sample.twoRevocations ++ Sample.keyTurns [2, 2, 2, 3, 3] →
        ∀ u, run (machine id).step ⟨.empty, []⟩ bs = some u → u.store.AllUsable) ↔
        Along (machine id).step (Machine.OnExec LeavesKey) ⟨.empty, []⟩
          (Sample.twoRevocations ++ Sample.keyTurns [2, 2, 2, 3, 3])) := by
  obtain ⟨w, hw, hp⟩ := exists_of_run (machine id).step ⟨.empty, []⟩
    (Sample.twoRevocations ++ Sample.keyTurns [2, 2, 2, 3, 3])
    (P := fun w => w.procs[3]? = some (.done (.failed lastActiveKey))) (by decide)
  exact ⟨w, hw, hp, allUsable_iff (by decide) hw⟩

/-- Two revocations count the active keys before either of them revokes its own. -/
theorem revocations_leave_no_key :
    ∃ w, run (machine id).step ⟨.empty, []⟩
        (Sample.twoRevocations ++ Sample.keyTurns [2, 3, 2, 3, 2, 3]) = some w ∧
      w.procs[2]? = some (.done (.revoked "a")) ∧ w.procs[3]? = some (.done (.revoked "b")) ∧
      w.store.countActiveApiKeys "m" = 0 ∧ ¬ w.store.AllUsable :=
  exists_of_run _ _ _ (by decide)

end Keys
end StellarGate
