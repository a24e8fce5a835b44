import StellarGate.Base.Pool
import StellarGate.Db.Migrate

/-! The functions of `src/db.rs` that issue, revoke and look up API keys, any number of calls at
once, a statement a step, and starts of the service in between. -/
namespace StellarGate
open Base

structure IssuedKey where
  raw : String
  merchantId : String
  keyId : String
  deriving DecidableEq, Repr

/-- The database, the keys issued so far and the ids for which `revoke_api_key` returned true. -/
structure Vault where
  db : KeyDb
  issued : List IssuedKey
  revoked : List String

/-- What a step takes from outside: the clock, a UUID and the draws of `randomblob`. -/
structure VaultReply where
  now : ℤ
  uuid : String
  draw : String → String

inductive VaultRequest where
  | createMerchant (id raw keyPrefix : String)
  | createApiKey (merchantId raw keyPrefix : String) (label : Option String)
  | revokeApiKey (merchantId keyId : String)
  | findMerchantByKey (raw : String)
  | migrate
  deriving DecidableEq, Repr

inductive VaultPc where
  | createMerchant (id raw keyPrefix : String)
  | createApiKey (merchantId raw keyPrefix : String) (label : Option String)
  | revokeApiKey (merchantId keyId : String)
  | selectKey (raw : String)
  | touchKey (keyId merchantId : String)
  | migrate
  | created (keyId : String)
  | revoked (hit : Bool)
  | found (merchantId : Option String)
  | failed
  | lost
  | done
  deriving DecidableEq, Repr

namespace KeyDb

/-- The `SELECT` of `find_merchant_by_key`. -/
def selectKey (hash : String → String) (raw : String) (db : KeyDb) : Option ApiKey :=
  db.apiKeys.rows.find? fun k => k.keyHash = hash raw && k.revokedAt.isNone

/-- The `UPDATE` of `find_merchant_by_key`. -/
def touchKey (now : ℤ) (keyId : String) (db : KeyDb) : KeyDb :=
  let apiKeys := db.apiKeys.update (refreshable now keyId) (refreshRow now) (refreshRow_keys now)
  { db with apiKeys }

theorem findMerchantByKey_eq (hash : String → String) (now : ℤ) (raw : String) (db : KeyDb) :
    db.findMerchantByKey hash now raw =
      match db.selectKey hash raw with
      | none => (none, db)
      | some k => (some k.merchantId, db.touchKey now k.id) := rfl

end KeyDb

namespace Vault

def empty : Vault := ⟨.empty, [], []⟩

def start : VaultRequest → VaultPc
  | .createMerchant id raw keyPrefix => .createMerchant id raw keyPrefix
  | .createApiKey merchantId raw keyPrefix label => .createApiKey merchantId raw keyPrefix label
  | .revokeApiKey merchantId keyId => .revokeApiKey merchantId keyId
  | .findMerchantByKey raw => .selectKey raw
  | .migrate => .migrate

def exec (hash : String → String) (r : VaultReply) (pc : VaultPc) (s : Vault) : VaultPc × Vault :=
  match pc with
  | .createMerchant id raw keyPrefix =>
    match s.db.createMerchant hash r.now id r.uuid raw keyPrefix with
    | none => (.failed, s)
    | some db => (.created r.uuid, { s with db, issued := s.issued ++ [⟨raw, id, r.uuid⟩] })
  | .createApiKey merchantId raw keyPrefix label =>
    match s.db.createApiKey hash r.now r.uuid merchantId raw keyPrefix label with
    | none => (.failed, s)
    | some db => (.created r.uuid, { s with db, issued := s.issued ++ [⟨raw, merchantId, r.uuid⟩] })
  | .revokeApiKey merchantId keyId =>
    let updated := s.db.revokeApiKey r.now merchantId keyId
    (.revoked updated.1,
      { s with db := updated.2, revoked := s.revoked ++ if updated.1 then [keyId] else [] })
  | .selectKey raw =>
    match s.db.selectKey hash raw with
    | none => (.found none, s)
    | some k => (.touchKey k.id k.merchantId, s)
  | .touchKey keyId merchantId =>
    (.found (some merchantId), { s with db := s.db.touchKey r.now keyId })
  | .migrate => (.done, { s with db := s.db.carryOver r.draw })
  | pc => (pc, s)

def returned : VaultPc → Bool
  | .created _ | .revoked _ | .found _ | .failed | .lost | .done => true
  | _ => false

def machine (hash : String → String) : Machine VaultRequest VaultPc VaultReply Vault where
  start := start
  exec := exec hash
  fail := fun pc => if returned pc then pc else .failed
  cut := fun pc => if returned pc then pc else .lost

/-- What every run keeps: a merchant's first key stays on file, an issued key is on file as it was
issued, and exactly the revoked keys have a tombstone. -/
structure Intact (hash : String → String) (s : Vault) : Prop where
  merchants : ∀ m ∈ s.db.merchants.rows, ∃ k ∈ s.db.apiKeys.rows, k.keyHash = m.apiKeyHash
  issued : ∀ i ∈ s.issued, ∃ k ∈ s.db.apiKeys.rows,
    k.id = i.keyId ∧ k.merchantId = i.merchantId ∧ k.keyHash = hash i.raw
  tombstones : ∀ k ∈ s.db.apiKeys.rows, k.revokedAt.isSome = true ↔ k.id ∈ s.revoked
  revoked : ∀ id ∈ s.revoked, ∃ k ∈ s.db.apiKeys.rows, k.id = id

section Steps
variable {hash : String → String} {s t : Vault} {raw : String}

theorem selectKey_of_mem {db : KeyDb} {k : ApiKey} (hk : k ∈ db.apiKeys.rows)
    (hhash : k.keyHash = hash raw) :
    db.selectKey hash raw = if k.revokedAt.isSome then none else some k := by
  have honly : ∀ x ∈ db.apiKeys.rows, x.keyHash = hash raw → x = k := fun x hx hx' =>
    Table.eq_of_key (k := ApiKey.keyHash) (by simp) hx hk (hx'.trans hhash.symm)
  unfold KeyDb.selectKey
  cases hfind : db.apiKeys.rows.find? fun k => k.keyHash = hash raw && k.revokedAt.isNone with
  | none =>
    have hnot := List.find?_eq_none.mp hfind k hk
    rw [if_pos]
    simpa [hhash, Option.isSome_iff_ne_none] using hnot
  | some x =>
    have hhit := List.find?_some hfind
    simp only [Bool.and_eq_true, decide_eq_true_eq] at hhit
    obtain rfl := honly x (List.mem_of_find?_eq_some hfind) hhit.1
    rw [if_neg (by simpa using hhit.2)]

theorem intact_empty : Intact hash empty where
  merchants _ hm := absurd hm List.not_mem_nil
  issued _ hi := absurd hi List.not_mem_nil
  tombstones _ hk := absurd hk List.not_mem_nil
  revoked _ hid := absurd hid List.not_mem_nil

theorem Intact.issue (h : Intact hash s) {i : IssuedKey} {k : ApiKey}
    (hrows : t.db.apiKeys.rows = s.db.apiKeys.rows ++ [k])
    (hmerchants : ∀ m ∈ t.db.merchants.rows, m ∈ s.db.merchants.rows ∨ k.keyHash = m.apiKeyHash)
    (hk : k.id = i.keyId ∧ k.merchantId = i.merchantId ∧ k.keyHash = hash i.raw)
    (hlive : k.revokedAt = none) (hfresh : ∀ x ∈ s.db.apiKeys.rows, x.id ≠ k.id)
    (hissued : t.issued = s.issued ++ [i]) (hrevoked : t.revoked = s.revoked) : Intact hash t where
  merchants m hm := by
    rw [hrows]
    rcases hmerchants m hm with hm | hhash
    · obtain ⟨x, hx, hxm⟩ := h.merchants m hm
      exact ⟨x, List.mem_append_left _ hx, hxm⟩
    · exact ⟨k, List.mem_append_right _ (List.mem_singleton_self k), hhash⟩
  issued j hj := by
    rw [hissued] at hj
    rw [hrows]
    rcases List.mem_append.mp hj with hj | hj
    · obtain ⟨x, hx, hxj⟩ := h.issued j hj
      exact ⟨x, List.mem_append_left _ hx, hxj⟩
    · rw [List.mem_singleton.mp hj]
      exact ⟨k, List.mem_append_right _ (List.mem_singleton_self k), hk⟩
  tombstones x hx := by
    rw [hrows] at hx
    rw [hrevoked]
    rcases List.mem_append.mp hx with hx | hx
    · exact h.tombstones x hx
    · rw [List.mem_singleton.mp hx]
      refine iff_of_false (by simp [hlive]) fun hid => ?_
      obtain ⟨y, hy, hyk⟩ := h.revoked _ hid
      exact hfresh y hy hyk
  revoked id hid := by
    rw [hrevoked] at hid
    obtain ⟨x, hx, hxid⟩ := h.revoked id hid
    exact ⟨x, hrows ▸ List.mem_append_left _ hx, hxid⟩

theorem Intact.update (h : Intact hash s) {f : ApiKey → ApiKey}
    (hrows : t.db.apiKeys.rows = s.db.apiKeys.rows.map f)
    (hmerchants : t.db.merchants = s.db.merchants)
    (hf : ∀ k, (f k).id = k.id ∧ (f k).merchantId = k.merchantId ∧ (f k).keyHash = k.keyHash)
    (hissued : t.issued = s.issued)
    (htomb : ∀ k ∈ s.db.apiKeys.rows, (f k).revokedAt.isSome = true ↔ k.id ∈ t.revoked)
    (hrevoked : ∀ id ∈ t.revoked, ∃ k ∈ s.db.apiKeys.rows, k.id = id) : Intact hash t where
  merchants m hm := by
    obtain ⟨k, hk, hhash⟩ := h.merchants m (hmerchants ▸ hm)
    exact ⟨f k, hrows ▸ List.mem_map_of_mem hk, (hf k).2.2.trans hhash⟩
  issued i hi := by
    obtain ⟨k, hk, hid, hmerchant, hhash⟩ := h.issued i (hissued ▸ hi)
    exact ⟨f k, hrows ▸ List.mem_map_of_mem hk, (hf k).1.trans hid, (hf k).2.1.trans hmerchant,
      (hf k).2.2.trans hhash⟩
  tombstones x hx := by
    rw [hrows] at hx
    obtain ⟨k, hk, rfl⟩ := List.mem_map.mp hx
    rw [(hf k).1]
    exact htomb k hk
  revoked id hid := by
    obtain ⟨k, hk, hkid⟩ := hrevoked id hid
    exact ⟨f k, hrows ▸ List.mem_map_of_mem hk, (hf k).1.trans hkid⟩

theorem Intact.revoke (h : Intact hash s) {now : ℤ} {merchantId keyId : String}
    (hdb : t.db = (s.db.revokeApiKey now merchantId keyId).2) (hissued : t.issued = s.issued)
    (hrevoked : t.revoked =
      s.revoked ++ if (s.db.revokeApiKey now merchantId keyId).1 then [keyId] else []) : Intact
        hash t := by
  have hrows : t.db.apiKeys.rows = s.db.apiKeys.rows.map fun k =>
      if KeyDb.revocable merchantId keyId k then KeyDb.revokeRow now k else k := by
    rw [hdb]
    rfl
  -- the key that the revocation hits is the only one with the id
  have hhit : (s.db.revokeApiKey now merchantId keyId).1 = true ↔
      ∃ k ∈ s.db.apiKeys.rows, KeyDb.revocable merchantId keyId k = true := List.any_eq_true
  have hid {k : ApiKey} (hk : KeyDb.revocable merchantId keyId k = true) : k.id = keyId ∧
      k.revokedAt = none := by
    simp only [KeyDb.revocable, ApiKey.activeOf, Bool.and_eq_true, decide_eq_true_eq,
      Option.isNone_iff_eq_none] at hk
    exact ⟨hk.1, hk.2.2⟩
  refine h.update hrows (by rw [hdb]; rfl) (fun k => ?_) hissued (fun k hk => ?_) fun id hmem => ?_
  · split_ifs <;> exact ⟨rfl, rfl, rfl⟩
  · by_cases hrev : KeyDb.revocable merchantId keyId k = true
    · have hany := hhit.mpr ⟨k, hk, hrev⟩
      rw [if_pos hrev, hrevoked, if_pos hany, (hid hrev).1]
      simp [KeyDb.revokeRow]
    · rw [if_neg hrev, h.tombstones k hk, hrevoked, List.mem_append]
      refine (or_iff_left fun hnew => ?_).symm
      split_ifs at hnew with hany
      · obtain ⟨x, hx, hxrev⟩ := hhit.mp hany
        have hsame : x = k := Table.eq_of_key (k := ApiKey.id) (by simp) hx hk
          ((hid hxrev).1.trans (List.mem_singleton.mp hnew).symm)
        exact hrev (hsame ▸ hxrev)
      · cases hnew
  · rw [hrevoked, List.mem_append] at hmem
    rcases hmem with hold | hnew
    · exact h.revoked id hold
    · split_ifs at hnew with hany
      · obtain ⟨x, hx, hxrev⟩ := hhit.mp hany
        exact ⟨x, hx, (hid hxrev).1.trans (List.mem_singleton.mp hnew).symm⟩
      · cases hnew

theorem fresh_of_createApiKey {db db' : KeyDb} {now : ℤ} {id merchantId keyPrefix : String}
    {label : Option String}
    (h : db.createApiKey hash now id merchantId raw keyPrefix label = some db') :
    ∀ x ∈ db.apiKeys.rows, x.id ≠ id := by
  obtain ⟨table, hinsert, -⟩ := Option.map_eq_some_iff.mp h
  intro x hx hid
  exact (Table.insert_eq_some hinsert).2 ApiKey.id (by simp) (List.mem_map.mpr ⟨x, hx, hid⟩)

theorem Intact.exec (h : Intact hash s) (r : VaultReply) (pc : VaultPc) :
    Intact hash (Vault.exec hash r pc s).2 := by
  cases pc with
  | createMerchant id raw keyPrefix =>
    simp only [Vault.exec]
    cases hc : s.db.createMerchant hash r.now id r.uuid raw keyPrefix with
    | none => exact h
    | some db =>
      obtain ⟨hmerchants, hrows⟩ := KeyDb.createMerchant_eq_some hc
      obtain ⟨_, -, hkey⟩ := Option.bind_eq_some_iff.mp hc
      have hfresh := fresh_of_createApiKey hkey
      refine h.issue (i := ⟨raw, id, r.uuid⟩) hrows (fun m hm => ?_) ⟨rfl, rfl, rfl⟩
        rfl hfresh rfl rfl
      rw [hmerchants] at hm
      rcases List.mem_append.mp hm with hm | hm
      · exact .inl hm
      · exact .inr (List.mem_singleton.mp hm ▸ rfl)
  | createApiKey merchantId raw keyPrefix label =>
    simp only [Vault.exec]
    cases hc : s.db.createApiKey hash r.now r.uuid merchantId raw keyPrefix label with
    | none => exact h
    | some db =>
      obtain ⟨hmerchants, hrows⟩ := KeyDb.createApiKey_eq_some hc
      have hfresh := fresh_of_createApiKey hc
      exact h.issue (i := ⟨raw, merchantId, r.uuid⟩) hrows (fun m hm => .inl (hmerchants ▸ hm))
        ⟨rfl, rfl, rfl⟩ rfl hfresh rfl rfl
  | revokeApiKey merchantId keyId => exact h.revoke rfl rfl rfl
  | selectKey raw =>
    simp only [Vault.exec]
    split <;> exact h
  | touchKey keyId merchantId =>
    refine h.update rfl rfl (fun k => ?_) rfl (fun k hk => ?_) h.revoked
    · split_ifs <;> exact ⟨rfl, rfl, rfl⟩
    · split_ifs <;> exact h.tombstones k hk
  | migrate =>
    have hsame : s.db.carryOver r.draw = s.db :=
        KeyDb.carryOver_eq_self fun m hm _ => h.merchants m hm
    simp only [Vault.exec, hsame]
    exact h
  | created _ | revoked _ | found _ | failed | lost | done => exact h

theorem exec_grows (r : VaultReply) (pc : VaultPc) :
    (∀ i ∈ s.issued, i ∈ (Vault.exec hash r pc s).2.issued) ∧
      ∀ id ∈ s.revoked, id ∈ (Vault.exec hash r pc s).2.revoked := by
  cases pc with
  | createMerchant | createApiKey =>
    simp only [Vault.exec]
    split
    · exact ⟨fun _ hi => hi, fun _ hid => hid⟩
    · exact ⟨fun _ hi => List.mem_append_left _ hi, fun _ hid => hid⟩
  | revokeApiKey => exact ⟨fun _ hi => hi, fun _ hid => List.mem_append_left _ hid⟩
  | selectKey =>
    simp only [Vault.exec]
    split <;> exact ⟨fun _ hi => hi, fun _ hid => hid⟩
  | touchKey | migrate | created | revoked | found | failed | lost | done =>
    exact ⟨fun _ hi => hi, fun _ hid => hid⟩

theorem Intact.selectKey (h : Intact hash s) {i : IssuedKey} (hi : i ∈ s.issued) :
    (i.keyId ∈ s.revoked → s.db.selectKey hash i.raw = none) ∧
      (i.keyId ∉ s.revoked → ∃ k, s.db.selectKey hash i.raw = some k ∧
        k.merchantId = i.merchantId) := by
  obtain ⟨k, hk, hid, hmerchant, hhash⟩ := h.issued i hi
  have htomb := h.tombstones k hk
  rw [hid] at htomb
  rw [selectKey_of_mem hk hhash]
  constructor
  · exact fun hrevoked => if_pos (htomb.mpr hrevoked)
  · exact fun hlive => ⟨k, if_neg fun hsome => hlive (htomb.mp hsome), hmerchant⟩

theorem Intact.findMerchantByKey (h : Intact hash s) {i : IssuedKey} (hi : i ∈ s.issued) (now : ℤ) :
    (s.db.findMerchantByKey hash now i.raw).1 = if i.keyId ∈ s.revoked then none
    else some i.merchantId := by
  rw [KeyDb.findMerchantByKey_eq]
  split_ifs with hrevoked
  · rw [(h.selectKey hi).1 hrevoked]
  · obtain ⟨k, hk, hmerchant⟩ := (h.selectKey hi).2 hrevoked
    rw [hk, ← hmerchant]

theorem Intact.step (h : Intact hash s) {procs : List VaultPc} {a : Act VaultRequest VaultReply}
    {w : Pool VaultPc Vault} (hstep : (machine hash).step ⟨s, procs⟩ a = some w) :
    Intact hash w.store := by
  rcases Machine.step_store hstep with hsame | ⟨i, r, pc, -, -, hexec⟩
  · rw [hsame]
    exact h
  · rw [hexec]
    exact h.exec r pc

end Steps

/-- Where a call of `find_merchant_by_key` for an issued key can stand, if it was started when the
ids `gone` were revoked. -/
def Finding (i : IssuedKey) (gone : List String) (s : Vault) : VaultPc → Prop
  | .selectKey raw => raw = i.raw
  | .touchKey _ merchantId => merchantId = i.merchantId ∧ i.keyId ∉ gone
  | .found (some merchantId) => merchantId = i.merchantId ∧ i.keyId ∉ gone
  | .found none => i.keyId ∈ s.revoked
  | .failed | .lost => True
  | .createMerchant _ _ _ | .createApiKey _ _ _ _ | .revokeApiKey _ _ | .migrate | .created _
  | .revoked _ | .done => False

/-- The state while call `j` looks up an issued key. -/
structure Lookup (hash : String → String) (i : IssuedKey) (gone : List String) (j : ℕ)
    (w : Pool VaultPc Vault) : Prop where
  intact : Intact hash w.store
  issued : i ∈ w.store.issued
  earlier : ∀ id ∈ gone, id ∈ w.store.revoked
  call : ∃ pc, w.procs[j]? = some pc ∧ Finding i gone w.store pc

section Runs
variable {hash : String → String} {i : IssuedKey} {gone : List String} {j : ℕ}
  {w t : Pool VaultPc Vault} {a : Act VaultRequest VaultReply}

theorem Finding.mono {s t : Vault} {pc : VaultPc} (h : Finding i gone s pc)
    (hgrows : ∀ id ∈ s.revoked, id ∈ t.revoked) : Finding i gone t pc := by
  unfold Finding at h ⊢
  split at h <;> first | exact h | exact hgrows _ h

theorem Finding.returned {s : Vault} {pc : VaultPc} (h : Finding i gone s pc) :
    Finding i gone s ((machine hash).fail pc) ∧ Finding i gone s ((machine hash).cut pc) := by
  simp only [machine]
  split_ifs
  · exact ⟨h, h⟩
  · exact ⟨trivial, trivial⟩

theorem Lookup.exec (h : Lookup hash i gone j w) {pc : VaultPc} (hpc : Finding i gone w.store pc)
    (r : VaultReply) : Finding i gone (Vault.exec hash r pc w.store).2
    (Vault.exec hash r pc w.store).1 := by
  cases pc with
  | selectKey raw =>
    cases hpc
    obtain ⟨hnone, hsome⟩ := h.intact.selectKey h.issued
    simp only [Vault.exec]
    by_cases hrevoked : i.keyId ∈ w.store.revoked
    · rw [hnone hrevoked]
      exact hrevoked
    · obtain ⟨k, hk, hmerchant⟩ := hsome hrevoked
      rw [hk]
      exact ⟨hmerchant, fun hgone => hrevoked (h.earlier _ hgone)⟩
  | touchKey keyId merchantId => exact hpc
  | found answer => exact hpc
  | failed | lost => trivial
  | createMerchant | createApiKey | revokeApiKey | migrate | created | revoked | done =>
    exact hpc.elim

theorem Lookup.step (h : Lookup hash i gone j w) (hstep : (machine hash).step w a = some t) :
    Lookup hash i gone j t := by
  have hgrows : (∀ x ∈ w.store.issued, x ∈ t.store.issued) ∧ ∀ id ∈ w.store.revoked,
      id ∈ t.store.revoked := by
    rcases Machine.step_store hstep with hsame | ⟨i, r, pc, -, -, hexec⟩
    · rw [hsame]
      exact ⟨fun _ hx => hx, fun _ hid => hid⟩
    · rw [hexec]
      exact exec_grows r pc
  obtain ⟨pc, hpc, hfinding⟩ := h.call
  refine ⟨h.intact.step hstep, hgrows.1 i h.issued, fun id hid => hgrows.2 id (h.earlier id hid),
    ?_⟩
  rcases Machine.step_proc hstep hpc with hsame | ⟨r, -, rfl⟩ | hfail | hcut
  · exact ⟨pc, hsame, hfinding.mono hgrows.2⟩
  · exact ⟨_, List.getElem?_set_self (List.getElem?_eq_some_iff.mp hpc).1, h.exec hfinding r⟩
  · exact ⟨_, hfail, hfinding.returned.1.mono hgrows.2⟩
  · exact ⟨_, hcut, hfinding.returned.2.mono hgrows.2⟩

end Runs

/-- From an empty database, in any state of any run: an issued key resolves to its merchant as long
as no `revoke_api_key` has returned true for it, and to none from then on; so does every lookup that
starts there, whatever the calls around it do. -/
theorem revocation_exact {hash : String → String} {as : List (Act VaultRequest VaultReply)}
    {w : Pool VaultPc Vault} (hr : run (machine hash).step ⟨empty, []⟩ as = some w) :
    ∀ i ∈ w.store.issued,
      (∀ now, (w.store.db.findMerchantByKey hash now i.raw).1 =
        if i.keyId ∈ w.store.revoked then none else some i.merchantId) ∧
      ∀ bs v answer, run (machine hash).step w (.spawn (.findMerchantByKey i.raw) :: bs) = some v →
        v.procs[w.procs.length]? = some (.found answer) →
          (i.keyId ∈ w.store.revoked → answer = none) ∧
          (i.keyId ∉ v.store.revoked → answer = some i.merchantId) := by
  intro i hi
  have hintact : Intact hash w.store :=
    run_invariant (I := fun w => Intact hash w.store) (fun _ _ _ hstep h => h.step hstep)
      hr intact_empty
  refine ⟨fun now => hintact.findMerchantByKey hi now, fun bs v answer hv hanswer => ?_⟩
  obtain ⟨u, hspawn, hv⟩ := run_cons.mp hv
  cases hspawn
  have hstart : Lookup hash i w.store.revoked w.procs.length
      ⟨w.store, w.procs ++ [(machine hash).start (.findMerchantByKey i.raw)]⟩ :=
    ⟨hintact, hi, fun _ hid => hid, _, List.getElem?_concat_length, rfl⟩
  obtain ⟨-, -, hgone, pc, hpc, hfinding⟩ :=
      run_invariant (fun _ _ _ hstep h => h.step hstep) hv hstart
  cases Option.some.inj (hpc.symm.trans hanswer)
  cases answer with
  | none => exact ⟨fun _ => rfl, fun hlive => absurd hfinding hlive⟩
  | some merchantId =>
    exact ⟨fun hrevoked => absurd hrevoked hfinding.2, fun _ => by rw [hfinding.1]⟩

namespace Sample

def vaultReply (uuid : String) : VaultReply := ⟨0, uuid, id⟩

/-- A merchant replaces its key `"a"` by `"b"`, and the service is started again. -/
def rotation : List (Act VaultRequest VaultReply) :=
  [.spawn (.createMerchant "m" "a" ""), .exec 0 (vaultReply "1"), .spawn
    (.createApiKey "m" "b" "" none), .exec 1 (vaultReply "2"), .spawn (.revokeApiKey "m" "1"),
    .exec 2 (vaultReply ""), .spawn .migrate, .exec 3 (vaultReply "")]

end Sample

theorem revocation_exact_rotated : ∃ w, run (machine id).step ⟨empty, []⟩ Sample.rotation = some w ∧
    (w.store.db.findMerchantByKey id 0 "a").1 = none ∧
    (w.store.db.findMerchantByKey id 0 "b").1 = some "m" := by
  obtain ⟨w, hw, hissued, hrevoked⟩ := exists_of_run (machine id).step ⟨empty, []⟩ Sample.rotation
    (P := fun w => w.store.issued = [⟨"a", "m", "1"⟩, ⟨"b", "m", "2"⟩] ∧ w.store.revoked = ["1"])
    (by decide)
  have hfind := revocation_exact hw
  simp only [hissued, hrevoked, List.forall_mem_cons] at hfind
  obtain ⟨⟨ha, -⟩, ⟨hb, -⟩, -⟩ := hfind
  exact ⟨w, hw, (ha 0).trans (by decide), (hb 0).trans (by decide)⟩

end Vault
end StellarGate
