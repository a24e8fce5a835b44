import StellarGate.Settlement.Intent

/-! Requests that carry the same `Idempotency-Key`: in which runs they create at most one
payment between them. -/
namespace StellarGate
open Base

namespace CreatePc

def held : CreatePc → Option String
  | saveKey _ id | rereadKey _ id | memo id _ | insert id _ | reread id => some id
  | done (.shown status p) => if status = 201 then some p.id else none
  | _ => none

def created : CreatePc → Option String
  | reread id => some id
  | done (.shown status p) => if status = 201 then some p.id else none
  | _ => none

/-- The request stands between its `INSERT` of the key and its insert of the payment. -/
def reserving : CreatePc → Bool
  | rereadKey _ _ | memo _ _ | insert _ _ => true
  | _ => false

/-- The key a request works with is the one of its header. -/
def Keyed (key : Option String) : CreatePc → Prop
  | lookup k | getExisting k _ | deleteStale k | saveKey k _ | rereadKey k _ => key = some k
  | mint k => key = k
  | _ => True

end CreatePc

namespace Call

/-- The call is a request of the merchant `m` with the key `k`. -/
def carries (m k : String) : Call → Bool
  | .create req _ => req.merchantId = m ∧ Create.key req = some k
  | _ => false

def held : Call → Option String
  | .create _ pc => pc.held
  | _ => none

/-- The payment that a request of `m` with the key `k` has inserted. -/
def created (m k : String) : Call → Option String
  | .create req pc => if req.merchantId = m ∧ Create.key req = some k then pc.created else none
  | _ => none

def reserving (m k : String) : Call → Bool
  | .create req pc => (req.merchantId = m ∧ Create.key req = some k) && pc.reserving
  | _ => false

def deleting (m k : String) : Call → Bool
  | .create req (.deleteStale key) => req.merchantId = m ∧ key = k
  | _ => false

end Call

/-- The payments created for the requests of `m` with the key `k`. -/
def World.createdFor (m k : String) (w : World) : List String :=
  w.calls.filterMap (Call.created m k)

/-- The requests of `m` with the key `k` have created at most one payment, and the
payment in every response to one of them is that payment. -/
structure World.OneIntent (m k : String) (w : World) : Prop where
  one : (w.createdFor m k).length ≤ 1
  row : ∀ id ∈ w.createdFor m k, ∃ p ∈ w.db.payments.rows, p.id = id
  shown : ∀ req status p, .create req (.done (.shown status p)) ∈ w.calls →
    req.merchantId = m → Create.key req = some k → p.id ∈ w.createdFor m k

/-- The mapping of the key is stale: its payment does not exist, and no request is on the
way from its reservation to its insert. -/
def World.Stale (m k : String) (w : World) : Prop :=
  (∀ id ∈ w.db.findPaymentIdByIdempotencyKey m k, ∀ p ∈ w.db.payments.rows, p.id ≠ id) ∧
    ∀ c ∈ w.calls, c.reserving m k = false

/-- A mapping of the key is deleted only while it is stale. -/
def DeletesStale (m k : String) (w : World) : Event → Prop :=
  Event.onExec fun i _ => ∀ c ∈ w.calls[i]?, c.deleting m k = true → w.Stale m k

instance (m k : String) (w : World) (e : Event) : Decidable (DeletesStale m k w e) := by
  unfold DeletesStale World.Stale
  infer_instance

section Mapping
variable {env : Env} {now : ℤ} {r : Reply} {db : Db} {m k id : String}

theorem Db.find_insertIdempotencyKey :
    (db.insertIdempotencyKey now m k id).findPaymentIdByIdempotencyKey m k =
      some ((db.findPaymentIdByIdempotencyKey m k).getD id) := by
  unfold Db.findPaymentIdByIdempotencyKey Db.insertIdempotencyKey
  cases hi : (db.idempotencyKeys.insertOrIgnore ⟨m, k, id, strftime now⟩).1 with
  | true =>
    obtain ⟨hrows, hfresh⟩ := Table.insertOrIgnore_true hi
    have hnone : db.idempotencyKeys.rows.find? (·.key = (m, k)) = none := by
      rw [List.find?_eq_none]
      intro x hx hk
      exact hfresh _ List.mem_cons_self (List.mem_map.mpr ⟨x, hx, of_decide_eq_true hk⟩)
    simp [hrows, hnone]
  | false =>
    obtain ⟨heq, key, hkey, hm⟩ := Table.insertOrIgnore_false hi
    rw [List.mem_singleton.mp hkey] at hm
    obtain ⟨x, hx, hxk⟩ := List.mem_map.mp hm
    cases hf : db.idempotencyKeys.rows.find? (·.key = (m, k)) with
    | none => exact absurd (decide_eq_true hxk) (List.find?_eq_none.mp hf x hx)
    | some y => simp [heq, hf]

theorem Db.find_insertIdempotencyKey_of_ne {m' k' : String} (h : (m', k') ≠ (m, k)) :
    (db.insertIdempotencyKey now m' k' id).findPaymentIdByIdempotencyKey m k =
      db.findPaymentIdByIdempotencyKey m k := by
  unfold Db.findPaymentIdByIdempotencyKey Db.insertIdempotencyKey
  cases hi : (db.idempotencyKeys.insertOrIgnore ⟨m', k', id, strftime now⟩).1 with
  | true =>
    have hrows := (Table.insertOrIgnore_true hi).1
    simp [hrows, h]
  | false => rw [(Table.insertOrIgnore_false hi).1]

theorem Db.find_deleteIdempotencyKey :
    (db.deleteIdempotencyKey m k).findPaymentIdByIdempotencyKey m k = none := by
  simp [Db.findPaymentIdByIdempotencyKey, Db.deleteIdempotencyKey, Table.delete]

theorem Db.find_deleteIdempotencyKey_of_ne {m' k' : String} (h : (m', k') ≠ (m, k)) :
    (db.deleteIdempotencyKey m' k').findPaymentIdByIdempotencyKey m k =
      db.findPaymentIdByIdempotencyKey m k := by
  unfold Db.findPaymentIdByIdempotencyKey Db.deleteIdempotencyKey Table.delete
  rw [List.find?_filter]
  congr 2
  funext x
  by_cases hx : x.key = (m, k)
  · simp [hx, h.symm]
  · simp [hx]

theorem Reconcile.step_idempotencyKeys (hp : HorizonPayment) (pc : ReconcilePc) :
    (Reconcile.step env now r hp pc db).db.idempotencyKeys = db.idempotencyKeys := by
  cases pc with
  | find memo =>
    simp only [Reconcile.step]
    split <;> rfl
  | sumBefore payment =>
    simp only [Reconcile.step]
    split
    · rfl
    · split_ifs <;> rfl
  | record payment n =>
    simp only [Reconcile.step]
    split
    · next h =>
      obtain ⟨rfl, -⟩ := Db.recordProcessedTx_false h
      rfl
    · next h =>
      obtain ⟨t, rfl, -, -⟩ := Db.recordProcessedTx_true h
      rfl
  | sumAfter payment =>
    simp only [Reconcile.step]
    split <;> rfl
  | update payment total =>
    simp only [Reconcile.step]
    split
    · next h =>
      obtain ⟨rfl, -⟩ := Db.updatePaymentStatus_false h
      rfl
    · next h =>
      obtain ⟨-, t, rfl, -⟩ := Db.updatePaymentStatus_true h
      rfl
  | notify d pc => exact Dispatch.step_frame.2.2
  | done result => rfl

theorem Sweep.step_idempotencyKeys (pc : SweepPc) :
    (Sweep.step env now r pc db).db.idempotencyKeys = db.idempotencyKeys := by
  cases pc with
  | expire => rfl
  | notify current pc later count => exact Dispatch.step_frame.2.2
  | done result => rfl

/-- What a step makes of the mapping of the key `k` of `m`. -/
inductive Maps (m k : String) (db db' : Db) : Call → Prop
  | same {c : Call} (h : db'.findPaymentIdByIdempotencyKey m k = db.findPaymentIdByIdempotencyKey m
      k) :
      Maps m k db db' c
  | save {req : CreateRequest} {id : String} (merchant : req.merchantId = m)
      (h : db'.findPaymentIdByIdempotencyKey m k =
        some ((db.findPaymentIdByIdempotencyKey m k).getD id)) :
      Maps m k db db' (.create req (.saveKey k id))
  | delete {req : CreateRequest} (merchant : req.merchantId = m)
      (h : db'.findPaymentIdByIdempotencyKey m k = none) :
      Maps m k db db' (.create req (.deleteStale k))

theorem Maps.of_eq {db' : Db} {c : Call} (h : db'.idempotencyKeys = db.idempotencyKeys) :
    Maps m k db db' c :=
  .same (by simp only [Db.findPaymentIdByIdempotencyKey, h])

theorem Create.step_maps (req : CreateRequest) (pc : CreatePc) :
    Maps m k db (Create.step env now r req pc db).2 (.create req pc) := by
  cases pc with
  | saveKey key id =>
    by_cases h : (req.merchantId, key) = (m, k)
    · obtain ⟨rfl, rfl⟩ := Prod.mk.inj h
      exact .save rfl Db.find_insertIdempotencyKey
    · exact .same (Db.find_insertIdempotencyKey_of_ne h)
  | deleteStale key =>
    by_cases h : (req.merchantId, key) = (m, k)
    · obtain ⟨rfl, rfl⟩ := Prod.mk.inj h
      exact .delete rfl Db.find_deleteIdempotencyKey
    · exact .same (Db.find_deleteIdempotencyKey_of_ne h)
  | insert id memo =>
    simp only [Create.step]
    split
    · exact .of_eq rfl
    · next h =>
      obtain ⟨n, expiresAt, t, -, rfl, -, -⟩ := Db.insertPayment_eq_some h
      exact .of_eq rfl
  | lookup key =>
    simp only [Create.step]
    split <;> exact .of_eq rfl
  | getExisting key id =>
    simp only [Create.step]
    split <;> exact .of_eq rfl
  | waitWinner id n =>
    simp only [Create.step]
    split <;> exact .of_eq rfl
  | reread id =>
    simp only [Create.step]
    split <;> exact .of_eq rfl
  | mint key => cases key <;> exact .of_eq rfl
  | _ => exact .of_eq rfl

theorem Call.step_maps (c : Call) : Maps m k db (c.step env now r db).db c := by
  cases c with
  | reconcile hp pc => exact .of_eq (Reconcile.step_idempotencyKeys hp pc)
  | sweep pc => exact .of_eq (Sweep.step_idempotencyKeys pc)
  | create req pc => exact Create.step_maps req pc
  | lost => exact .of_eq rfl

end Mapping

section Requests
variable {env : Env} {now : ℤ} {r : Reply} {db : Db} {req : CreateRequest} {pc : CreatePc}
  {m k id : String} {c : Call}

theorem Db.getPayment_id {q : Payment} (h : db.getPayment id = some q) : q.id = id := by
  obtain ⟨p, -, rfl, hid⟩ := Db.getPayment_eq_some h
  exact hid

theorem Create.step_held (h : (Create.step env now r req pc db).1.held = some id) :
    pc.held = some id ∨ id = r.uuid := by
  cases pc with
  | lookup key =>
    simp only [Create.step] at h
    split at h <;> cases h
  | getExisting key existingId =>
    simp only [Create.step] at h
    split at h <;> cases h
  | deleteStale key => cases h
  | mint key =>
    cases key <;> exact .inr (Option.some.inj h).symm
  | saveKey key own => exact .inl h
  | rereadKey key own =>
    simp only [Create.step] at h
    split_ifs at h
    · cases h
    · exact .inl h
  | waitWinner canonicalId tries =>
    simp only [Create.step] at h
    split at h
    · cases h
    · split_ifs at h <;> cases h
  | memo own tries =>
    simp only [Create.step] at h
    split_ifs at h
    · exact .inl h
    · cases h
    · exact .inl h
  | insert own memo =>
    simp only [Create.step] at h
    split at h
    · cases h
    · exact .inl h
  | reread own =>
    simp only [Create.step] at h
    split at h
    · next payment hget => exact .inl (by rw [← h, ← Db.getPayment_id hget]; rfl)
    · cases h
  | done response => exact .inl h

theorem Create.start_keyed : (Create.start env req).Keyed (Create.key req) := by
  unfold Create.start
  split
  · trivial
  · split
    · assumption
    · assumption

theorem Create.start_held : (Create.start env req).held = none := by
  unfold Create.start
  split
  · rfl
  · split <;> rfl

theorem Create.step_keyed {key : Option String} (h : pc.Keyed key) :
    (Create.step env now r req pc db).1.Keyed key := by
  cases pc with
  | lookup k =>
    simp only [Create.step]
    split <;> exact h
  | getExisting k existingId =>
    simp only [Create.step]
    split
    · trivial
    · exact h
  | mint k =>
    cases k with
    | none => trivial
    | some k => exact h
  | rereadKey k own =>
    simp only [Create.step]
    split_ifs <;> trivial
  | waitWinner canonicalId tries =>
    simp only [Create.step]
    split
    · trivial
    · split_ifs <;> trivial
  | memo own tries =>
    simp only [Create.step]
    split_ifs <;> trivial
  | insert own memo =>
    simp only [Create.step]
    split <;> trivial
  | reread own =>
    simp only [Create.step]
    split <;> trivial
  | _ => exact h

theorem Create.step_created_of (hrow : ∃ p ∈ db.payments.rows, p.id = id)
    (h : pc.created = some id) : (Create.step env now r req pc db).1.created = some id := by
  cases pc with
  | reread own =>
    cases h
    obtain ⟨p, hp, rfl⟩ := hrow
    simp only [Create.step, Db.getPayment_of_mem hp]
    rfl
  | done response => exact h
  | _ => cases h

theorem Create.step_created (h : (Create.step env now r req pc db).1.created = some id) :
    pc.created = some id ∨ ∃ memo, pc = .insert id memo ∧
      ∃ p ∈ (Create.step env now r req pc db).2.payments.rows, p.id = id := by
  cases pc with
  | lookup key =>
    simp only [Create.step] at h
    split at h <;> cases h
  | getExisting key existingId =>
    simp only [Create.step] at h
    split at h <;> cases h
  | mint key => cases key <;> cases h
  | rereadKey key own =>
    simp only [Create.step] at h
    split_ifs at h <;> cases h
  | waitWinner canonicalId tries =>
    simp only [Create.step] at h
    split at h
    · cases h
    · split_ifs at h <;> cases h
  | memo own tries =>
    simp only [Create.step] at h
    split_ifs at h <;> cases h
  | insert own memo =>
    simp only [Create.step] at h ⊢
    cases hins : db.insertPayment now (Create.newPayment env req own memo) with
    | none =>
      rw [hins] at h
      cases h
    | some db' =>
      rw [hins] at h
      cases h
      obtain ⟨n, expiresAt, t, -, rfl, hrows, -⟩ := Db.insertPayment_eq_some hins
      exact .inr ⟨memo, rfl, (Create.newPayment env req id memo).row now expiresAt
        (stroopsToString n), by simp [hrows], rfl⟩
  | reread own =>
    simp only [Create.step] at h
    split at h
    · next payment hget => exact .inl (by rw [← h, ← Db.getPayment_id hget]; rfl)
    · cases h
  | done response => exact .inl h
  | _ => cases h

theorem Create.step_insert {memo : String} {q : Payment}
    (hq : q ∈ (Create.step env now r req (.insert id memo) db).2.payments.rows)
    (hfresh : ∀ p ∈ db.payments.rows, p.id ≠ q.id) :
    (Create.step env now r req (.insert id memo) db).1 = .reread id := by
  simp only [Create.step] at hq ⊢
  cases hins : db.insertPayment now (Create.newPayment env req id memo) with
  | none =>
    rw [hins] at hq
    exact absurd rfl (hfresh q hq)
  | some db' => rfl

theorem CreatePc.held_of_created (h : pc.created = some id) : pc.held = some id := by
  cases pc with
  | reread own => exact h
  | done response => cases response <;> exact h
  | _ => cases h

theorem Call.held_of_created (h : c.created m k = some id) : c.held = some id := by
  cases c with
  | create req pc =>
    simp only [Call.created] at h
    split_ifs at h
    exact pc.held_of_created h
  | _ => cases h

theorem Call.carries_step : (c.step env now r db).next.carries m k = c.carries m k := by
  cases c <;> rfl

theorem Call.step_held (h : (c.step env now r db).next.held = some id) :
    c.held = some id ∨ id = r.uuid := by
  cases c with
  | create req pc => exact Create.step_held h
  | _ => cases h

end Requests

/-- The id `id` belongs to the requests of `m` with the key `k`: only they can
insert a payment under it. -/
structure World.Owned (m k id : String) (w : World) : Prop where
  minted : id ∈ w.minted
  row : ∀ p ∈ w.db.payments.rows, p.id = id → id ∈ w.createdFor m k
  held : ∀ c ∈ w.calls, c.held = some id → c.carries m k = true

/-- What a request of `m` with the key `k` relies on. -/
def CreatePc.Standing (m k : String) (w : World) : CreatePc → Prop
  | getExisting _ id | waitWinner id _ | saveKey _ id => w.Owned m k id
  | rereadKey _ id => w.Owned m k id ∧ (w.db.findPaymentIdByIdempotencyKey m k).isSome
  | memo id _ | insert id _ => w.db.findPaymentIdByIdempotencyKey m k = some id
  | done (.shown _ p) => p.id ∈ w.createdFor m k
  | _ => True

/-- What a run that deletes only stale mappings keeps of the requests with the key. -/
structure World.Reserved (m k : String) (w : World) : Prop where
  keyed : ∀ req pc, .create req pc ∈ w.calls → pc.Keyed (Create.key req)
  distinct : (w.calls.filterMap Call.held).Nodup
  heldMinted : ∀ c ∈ w.calls, ∀ id, c.held = some id → id ∈ w.minted
  rowMinted : ∀ p ∈ w.db.payments.rows, p.id ∈ w.minted
  mapped : ∀ id, w.db.findPaymentIdByIdempotencyKey m k = some id → w.Owned m k id
  created : ∀ id ∈ w.createdFor m k, w.db.findPaymentIdByIdempotencyKey m k = some id ∧
    ∃ p ∈ w.db.payments.rows, p.id = id
  standing : ∀ req pc, .create req pc ∈ w.calls → req.merchantId = m → Create.key req = some k →
    pc.Standing m k w

theorem Create.start_standing {env : Env} {req : CreateRequest} {m k : String} {w : World} :
    (Create.start env req).Standing m k w := by
  unfold Create.start
  split
  · trivial
  · split <;> trivial

theorem CreatePc.Standing.mono {m k : String} {w t : World} {pc : CreatePc}
    (hown : ∀ id, w.Owned m k id → t.Owned m k id)
    (hcre : ∀ id ∈ w.createdFor m k, id ∈ t.createdFor m k)
    (hmap : pc.reserving = true → ∀ id, w.db.findPaymentIdByIdempotencyKey m k = some id →
      t.db.findPaymentIdByIdempotencyKey m k = some id)
    (h : pc.Standing m k w) : pc.Standing m k t := by
  cases pc with
  | getExisting key id => exact hown id h
  | waitWinner id tries => exact hown id h
  | saveKey key id => exact hown id h
  | rereadKey key id =>
    obtain ⟨x, hx⟩ := Option.isSome_iff_exists.mp h.2
    exact ⟨hown id h.1, Option.isSome_iff_exists.mpr ⟨x, hmap rfl x hx⟩⟩
  | memo id tries => exact hmap rfl id h
  | insert id memo => exact hmap rfl id h
  | done response =>
    cases response with
    | shown status p => exact hcre p.id h
    | failed error => trivial
  | _ => trivial

namespace World
variable {env : Env} {w t : World} {e : Event} {es : List Event} {now : ℤ} {i : ℕ} {r : Reply}
  {c : Call} {m k id : String}

theorem Reserved.init : (init now).Reserved m k where
  keyed := by simp [World.init]
  distinct := by simp [World.init]
  heldMinted := by simp [World.init]
  rowMinted := fun _ h => absurd h List.not_mem_nil
  mapped := fun _ h => by cases h
  created := by simp [World.init, createdFor]
  standing := by simp [World.init]

theorem mem_createdFor : id ∈ w.createdFor m k ↔ ∃ c ∈ w.calls, c.created m k = some id :=
  List.mem_filterMap

section Exec
variable (hc : w.calls[i]? = some c) (hu : r.uuid ∉ w.minted)

theorem row_exec {p : Payment} (hp : p ∈ w.db.payments.rows) :
    ∃ q ∈ (w.exec env i r c).db.payments.rows, q.id = p.id := by
  obtain ⟨q, hq, hs⟩ := (Call.step_writes c).row hp
  exact ⟨q, hq, hs.id⟩

include hc

theorem createdFor_exec_of (h : w.Reserved m k) (hid : id ∈ w.createdFor m k) :
    id ∈ (w.exec env i r c).createdFor m k := by
  have hrow := (h.created id hid).2
  obtain ⟨d, hd, hdid⟩ := mem_createdFor.mp hid
  refine mem_createdFor.mpr ?_
  rcases mem_set_of_mem (b := (c.step env w.now r w.db).next) hc hd with rfl | hd
  · refine ⟨_, mem_set_self hc, ?_⟩
    cases d with
    | create req pc =>
      simp only [Call.created] at hdid
      split_ifs at hdid with hk
      exact (if_pos hk).trans (Create.step_created_of hrow hdid)
    | _ => cases hdid
  · exact ⟨d, hd, hdid⟩

theorem createdFor_exec (hid : id ∈ (w.exec env i r c).createdFor m k) :
    id ∈ w.createdFor m k ∨ ∃ req memo, c = .create req (.insert id memo) ∧
      req.merchantId = m ∧ Create.key req = some k ∧
      ∃ p ∈ (w.exec env i r c).db.payments.rows, p.id = id := by
  obtain ⟨d, hd, hdid⟩ := mem_createdFor.mp hid
  rcases List.mem_or_eq_of_mem_set hd with hd | rfl
  · exact .inl (mem_createdFor.mpr ⟨d, hd, hdid⟩)
  · cases c with
    | create req pc =>
      simp only [Call.step, Call.created] at hdid
      split_ifs at hdid with hk
      rcases Create.step_created hdid with hold | ⟨memo, rfl, hrow⟩
      · exact .inl (mem_createdFor.mpr ⟨_, List.mem_of_getElem? hc, (if_pos hk).trans hold⟩)
      · exact .inr ⟨req, memo, rfl, hk.1, hk.2, hrow⟩
    | _ => cases hdid

/-- Whoever holds an id after a step held it before, or has just minted it. -/
theorem held_exec {d : Call} (hd : d ∈ (w.exec env i r c).calls) (hid : d.held = some id) :
    (∃ x ∈ w.calls, x.held = some id ∧ x.carries m k = d.carries m k) ∨ id = r.uuid := by
  rcases List.mem_or_eq_of_mem_set hd with hd | rfl
  · exact .inl ⟨d, hd, hid, rfl⟩
  · exact (Call.step_held hid).imp_left fun hold =>
      ⟨c, List.mem_of_getElem? hc, hold, Call.carries_step.symm⟩

theorem row_exec_inv (h : w.Reserved m k) {q : Payment}
    (hq : q ∈ (w.exec env i r c).db.payments.rows) : q.id ∈ w.minted := by
  rcases (Call.step_writes c).row_inv hq with ⟨p, hp, hs⟩ | hnew
  · exact hs.id ▸ h.rowMinted p hp
  · obtain ⟨req, memo, rfl⟩ := hnew.call
    exact h.heldMinted _ (List.mem_of_getElem? hc) _ rfl

/-- The mapping of a payment that exists, or that a request counts on, stays. -/
theorem mapping_exec (hok : DeletesStale m k w (.exec i r))
    (hid : w.db.findPaymentIdByIdempotencyKey m k = some id)
    (hneed : (∃ d ∈ w.calls, d.reserving m k = true) ∨ ∃ p ∈ w.db.payments.rows, p.id = id) :
    (w.exec env i r c).db.findPaymentIdByIdempotencyKey m k = some id := by
  have hmaps : Maps m k w.db (w.exec env i r c).db c := Call.step_maps c
  cases hmaps with
  | same h => exact h.trans hid
  | save merchant h => rw [h, hid, Option.getD_some]
  | delete merchant h =>
    obtain ⟨hrow, hres⟩ := hok _ hc (by simp [Call.deleting, merchant])
    rcases hneed with ⟨d, hd, hdr⟩ | ⟨p, hp, hpid⟩
    · rw [hres d hd] at hdr
      cases hdr
    · exact absurd hpid (hrow id hid p hp)

include hu

theorem Owned.exec (h : w.Reserved m k) (ho : w.Owned m k id) :
    (w.exec env i r c).Owned m k id where
  minted := List.mem_cons_of_mem _ ho.minted
  row := by
    intro q hq hid
    rcases (Call.step_writes c).row_inv hq with ⟨p, hp, hs⟩ | hnew
    · exact createdFor_exec_of hc h (ho.row p hp (hs.id.symm.trans hid))
    · obtain ⟨req, memo, rfl⟩ := hnew.call
      have hcar := ho.held _ (List.mem_of_getElem? hc) (by rw [← hid]; rfl)
      have hnext := Create.step_insert hq hnew.fresh
      refine mem_createdFor.mpr ⟨_, mem_set_self hc, ?_⟩
      simp only [Call.step, Call.created, hnext]
      rw [if_pos (of_decide_eq_true hcar), ← hid]
      rfl
  held := by
    intro d hd hid
    rcases held_exec (m := m) (k := k) hc hd hid with ⟨x, hx, hxid, hcar⟩ | rfl
    · exact hcar ▸ ho.held x hx hxid
    · exact absurd ho.minted hu

theorem standing_exec (h : w.Reserved m k) (hok : DeletesStale m k w (.exec i r))
    {req : CreateRequest} {pc : CreatePc} (hpc : .create req pc ∈ w.calls)
    (hm : req.merchantId = m) (hk : Create.key req = some k) :
    pc.Standing m k (w.exec env i r c) := by
  refine (h.standing req pc hpc hm hk).mono (fun id ho => ho.exec hc hu h)
    (fun id hid => createdFor_exec_of hc h hid) fun hres id hid => ?_
  exact mapping_exec hc hok hid (.inl ⟨_, hpc, by simp [Call.reserving, hm, hk, hres]⟩)

theorem owned_minted (h : w.Reserved m k) (hcar : c.carries m k = true) :
    (w.exec env i r c).Owned m k r.uuid where
  minted := List.mem_cons_self
  row := fun q hq hid => absurd (hid ▸ row_exec_inv hc h hq) hu
  held := by
    intro d hd hid
    rcases List.mem_or_eq_of_mem_set hd with hd | rfl
    · exact absurd (h.heldMinted d hd _ hid) hu
    · rw [Call.carries_step, hcar]

theorem standing_next (h : w.Reserved m k) (hok : DeletesStale m k w (.exec i r))
    {req : CreateRequest} {pc : CreatePc} (hpc : c = .create req pc)
    (hm : req.merchantId = m) (hk : Create.key req = some k) :
    (Create.step env w.now r req pc w.db).1.Standing m k (w.exec env i r c) := by
  subst hpc hm
  have hmem := List.mem_of_getElem? hc
  have hkeyed := h.keyed req pc hmem
  have hstay : pc.Standing req.merchantId k (w.exec env i r (.create req pc)) :=
    standing_exec hc hu h hok hmem rfl hk
  have hshown : ∀ id q, w.Owned req.merchantId k id → w.db.getPayment id = some q →
      q.id ∈ (w.exec env i r (.create req pc)).createdFor req.merchantId k := fun id q ho hget => by
    obtain ⟨p, hp, rfl, hid⟩ := Db.getPayment_eq_some hget
    exact createdFor_exec_of hc h (hid ▸ ho.row p hp hid)
  cases pc with
  | lookup key =>
    cases hk.symm.trans hkeyed
    simp only [Create.step]
    split
    · trivial
    · next id hid => exact Owned.exec hc hu h (h.mapped id hid)
  | getExisting key id =>
    simp only [Create.step]
    split
    · next q hget => exact hshown id q (h.standing _ _ hmem rfl hk) hget
    · trivial
  | deleteStale key => trivial
  | mint key =>
    cases hk.symm.trans hkeyed
    exact owned_minted hc hu h (by simp [Call.carries, hk])
  | saveKey key id =>
    cases hk.symm.trans hkeyed
    exact ⟨hstay, Option.isSome_iff_exists.mpr ⟨_, Db.find_insertIdempotencyKey⟩⟩
  | rereadKey key id =>
    cases hk.symm.trans hkeyed
    obtain ⟨x, hx⟩ := Option.isSome_iff_exists.mp (h.standing _ _ hmem rfl hk).2
    simp only [Create.step, hx, Option.getD_some]
    split_ifs with hne
    · exact Owned.exec hc hu h (h.mapped x hx)
    · exact mapping_exec hc hok (hx.trans (by rw [not_not.mp hne]))
        (.inl ⟨_, hmem, by simp [Call.reserving, hk, CreatePc.reserving]⟩)
  | waitWinner id tries =>
    simp only [Create.step]
    split
    · next q hget => exact hshown id q (h.standing _ _ hmem rfl hk) hget
    · split_ifs
      · trivial
      · exact hstay
  | memo id tries =>
    simp only [Create.step]
    split_ifs
    · exact hstay
    · trivial
    · exact hstay
  | insert id memo =>
    simp only [Create.step]
    split <;> trivial
  | reread id =>
    have hid : id ∈ w.createdFor req.merchantId k :=
      mem_createdFor.mpr ⟨_, hmem, if_pos ⟨rfl, hk⟩⟩
    obtain ⟨p, hp, rfl⟩ := (h.created id hid).2
    simp only [Create.step, Db.getPayment_of_mem hp]
    exact createdFor_exec_of hc h hid
  | done response => exact hstay

theorem Reserved.exec (h : w.Reserved m k) (hok : DeletesStale m k w (.exec i r)) :
    (w.exec env i r c).Reserved m k where
  keyed := by
    intro req pc hmem
    rcases List.mem_or_eq_of_mem_set hmem with hmem | heq
    · exact h.keyed req pc hmem
    · cases c with
      | create req' pc' =>
        obtain ⟨rfl, rfl⟩ := Call.create.inj heq
        exact Create.step_keyed (h.keyed _ _ (List.mem_of_getElem? hc))
      | _ => cases heq
  distinct := by
    refine nodup_filterMap_set h.distinct hc fun id hid => ?_
    rcases Call.step_held hid with hold | rfl
    · exact .inl hold
    · exact .inr fun d hd hdid => hu (h.heldMinted d hd _ hdid)
  heldMinted := by
    intro d hd id hid
    rcases held_exec (m := m) (k := k) hc hd hid with ⟨x, hx, hxid, -⟩ | rfl
    · exact List.mem_cons_of_mem _ (h.heldMinted x hx id hxid)
    · exact List.mem_cons_self
  rowMinted := fun q hq => List.mem_cons_of_mem _ (row_exec_inv hc h hq)
  mapped := by
    intro id hid
    have hmaps : Maps m k w.db (w.exec env i r c).db c := Call.step_maps c
    refine Owned.exec hc hu h ?_
    cases hmaps with
    | same heq => exact h.mapped id (heq.symm.trans hid)
    | @save req own merchant heq =>
      have hmem := List.mem_of_getElem? hc
      have hown : w.Owned m k own := h.standing _ _ hmem merchant (h.keyed _ _ hmem)
      rw [heq] at hid
      cases hfind : w.db.findPaymentIdByIdempotencyKey m k with
      | none =>
        rw [hfind] at hid
        cases hid
        exact hown
      | some x =>
        rw [hfind] at hid
        cases hid
        exact h.mapped _ hfind
    | delete merchant heq =>
      rw [heq] at hid
      cases hid
  created := by
    intro id hid
    rcases createdFor_exec hc hid with hold | ⟨req, memo, rfl, hm, hk, hrow⟩
    · obtain ⟨hmap, p, hp, rfl⟩ := h.created id hold
      exact ⟨mapping_exec hc hok hmap (.inr ⟨p, hp, rfl⟩), row_exec hp⟩
    · have hmem := List.mem_of_getElem? hc
      have hstay : CreatePc.Standing m k (w.exec env i r _) (.insert id memo) :=
        standing_exec hc hu h hok hmem hm hk
      exact ⟨hstay, hrow⟩
  standing := by
    intro req pc hmem hm hk
    rcases List.mem_or_eq_of_mem_set hmem with hmem | heq
    · exact standing_exec hc hu h hok hmem hm hk
    · cases c with
      | create req' pc' =>
        obtain ⟨rfl, rfl⟩ := Call.create.inj heq
        exact standing_next hc hu h hok rfl hm hk
      | _ => cases heq

end Exec

section Grow
variable {l : List Call} (hdb : t.db = w.db) (hminted : t.minted = w.minted)
  (hcalls : t.calls = w.calls ++ l) (hnew : ∀ c ∈ l, c.held = none)
include hcalls hnew

theorem createdFor_grow : t.createdFor m k = w.createdFor m k := by
  have hnone : l.filterMap (Call.created m k) = [] := by
    refine List.filterMap_eq_nil_iff.mpr fun c hc => ?_
    by_contra hne
    obtain ⟨id, hid⟩ := Option.ne_none_iff_exists'.mp hne
    exact absurd (Call.held_of_created hid) (by simp [hnew c hc])
  rw [createdFor, createdFor, hcalls, List.filterMap_append, hnone, List.append_nil]

theorem held_grow {d : Call} (hd : d ∈ t.calls) (hid : d.held = some id) : d ∈ w.calls := by
  rw [hcalls] at hd
  rcases List.mem_append.mp hd with hd | hd
  · exact hd
  · rw [hnew d hd] at hid
    cases hid

include hdb hminted

theorem Owned.grow (h : w.Owned m k id) : t.Owned m k id where
  minted := hminted ▸ h.minted
  row := by
    rw [hdb, createdFor_grow hcalls hnew]
    exact h.row
  held := fun d hd hid => h.held d (held_grow hcalls hnew hd hid) hid

theorem Reserved.grow (h : w.Reserved m k) (hstart : ∀ req pc, .create req pc ∈ l →
    pc.Keyed (Create.key req) ∧ pc.Standing m k t) : t.Reserved m k where
  keyed := by
    intro req pc hmem
    rcases List.mem_append.mp (hcalls ▸ hmem) with hmem | hmem
    · exact h.keyed req pc hmem
    · exact (hstart req pc hmem).1
  distinct := by
    rw [hcalls, List.filterMap_append, List.filterMap_eq_nil_iff.mpr hnew, List.append_nil]
    exact h.distinct
  heldMinted := fun d hd id hid => hminted ▸ h.heldMinted d (held_grow hcalls hnew hd hid) id hid
  rowMinted := by
    rw [hdb, hminted]
    exact h.rowMinted
  mapped := by
    rw [hdb]
    exact fun id hid => (h.mapped id hid).grow hdb hminted hcalls hnew
  created := by
    rw [hdb, createdFor_grow hcalls hnew]
    exact h.created
  standing := by
    intro req pc hmem hm hk
    rcases List.mem_append.mp (hcalls ▸ hmem) with hmem | hmem
    · refine (h.standing req pc hmem hm hk).mono (fun id ho => ho.grow hdb hminted hcalls hnew)
        ?_ ?_
      · rw [createdFor_grow hcalls hnew]
        exact fun id hid => hid
      · rw [hdb]
        exact fun _ id hid => hid
    · exact (hstart req pc hmem).2

end Grow

theorem Reserved.step (hf : e.faultless = true) (hok : DeletesStale m k w e)
    (hs : step env w e = some t) (h : w.Reserved m k) : t.Reserved m k := by
  cases e with
  | advance secs =>
    cases hs
    exact Reserved.grow (w := w) (l := []) rfl rfl (List.append_nil _).symm (by simp) h (by simp)
  | reconcile hp =>
    cases hs
    exact Reserved.grow (w := w) (l := [.reconcile hp (Reconcile.start hp)]) rfl rfl rfl
      (by simp [Call.held]) h (by simp)
  | sweep =>
    cases hs
    exact Reserved.grow (w := w) (l := [.sweep .expire]) rfl rfl rfl (by simp [Call.held])
      h (by simp)
  | create req =>
    cases hs
    refine Reserved.grow (w := w) (l := [.create req (Create.start env req)]) rfl rfl rfl
      (by simp [Call.held, Create.start_held]) h fun req' pc heq => ?_
    obtain ⟨rfl, rfl⟩ := Call.create.inj (List.mem_singleton.mp heq)
    exact ⟨Create.start_keyed, Create.start_standing⟩
  | exec i r =>
    obtain ⟨c, hc, hu, rfl⟩ := step_exec hs
    exact Reserved.exec hc hu h hok
  | fail i r => cases hf
  | kill i => cases hf
  | crash => cases hf

/-- All the payments created for the key are the one it is mapped to, and no two
requests share an id. -/
theorem Reserved.length_createdFor_le_one (h : w.Reserved m k) :
    (w.createdFor m k).length ≤ 1 := by
  have hnodup : (w.createdFor m k).Nodup :=
    h.distinct.sublist (filterMap_sublist_filterMap fun _ _ => Call.held_of_created)
  cases hl : w.createdFor m k with
  | nil => simp
  | cons id ids =>
    have hall : ∀ x ∈ id :: ids, x = id := fun x hx => by
      have hid := (h.created id (by simp [hl])).1
      have hx := (h.created x (hl ▸ hx)).1
      exact Option.some.inj (hx.symm.trans hid)
    rw [hl, List.eq_replicate_of_mem hall, List.nodup_replicate] at hnodup
    exact hnodup

/-- In a run without failures that deletes a mapping of the key only while it is stale,
the requests with the key create at most one payment, and every response shows it. -/
theorem sameKey_oneIntent (hr : Reaches env (init now) es w)
    (hok : Along (World.step env) (fun w e => e.faultless = true ∧ DeletesStale m k w e)
      (init now) es) : w.OneIntent m k := by
  have h : w.Reserved m k := hok.invariant (I := World.Reserved m k)
    (fun _ _ _ ho hs hi => hi.step ho.1 ho.2 hs) hr Reserved.init
  exact ⟨h.length_createdFor_le_one, fun id hid => (h.created id hid).2,
    fun req status p hmem hm hk => h.standing req _ hmem hm hk⟩

/-- Two requests race for the key, a third one comes later. -/
theorem sameKey_oneIntent_sample :
    let keyed := { Sample.request with idempotencyKey := some " k1 " }
    let es := [.create keyed, .create keyed] ++
      Sample.turns 20 [0, 1, 0, 1, 0, 1, 1, 0, 0, 1, 0, 1, 0] ++
      .create keyed :: Sample.turns 40 [2, 2]
    ∃ w, Reaches Sample.env (init 0) es w ∧ w.quiet ∧ w.createdFor "m" "k1" = ["22"] ∧
      w.OneIntent "m" "k1" := by
  intro keyed es
  obtain ⟨w, hw, hquiet, hid⟩ := exists_of_run (World.step Sample.env) (.init 0) es
    (P := fun w => w.quiet ∧ w.createdFor "m" "k1" = ["22"]) (by decide)
  exact ⟨w, hw, hquiet, hid, sameKey_oneIntent hw (by decide)⟩

/-- The second request finds the mapping of the first, whose payment is not there yet,
deletes it and creates a payment of its own. -/
theorem sameKey_twoIntents :
    let keyed := { Sample.request with idempotencyKey := some "k1" }
    let es := [.create keyed, .create keyed] ++
      Sample.turns 20 [0, 0, 0, 0, 0, 1, 1, 1, 1, 1, 1, 1, 1, 1, 0, 0]
    ∃ w, Reaches Sample.env (init 0) es w ∧ (∀ e ∈ es, e.faultless = true) ∧ w.quiet ∧
      w.db.payments.rows.map Payment.id = ["28", "21"] ∧
      w.createdFor "m" "k1" = ["21", "28"] ∧ ¬ w.OneIntent "m" "k1" := by
  intro keyed es
  obtain ⟨w, hw, hquiet, hrows, hids⟩ := exists_of_run (World.step Sample.env) (.init 0) es
    (P := fun w => w.quiet ∧ w.db.payments.rows.map Payment.id = ["28", "21"] ∧
      w.createdFor "m" "k1" = ["21", "28"]) (by decide)
  refine ⟨w, hw, by decide, hquiet, hrows, hids, fun h => ?_⟩
  have := h.one
  rw [hids] at this
  exact absurd this (by decide)

end World
end StellarGate
