import StellarGate.Api.Idempotency

/-! A client that repeats `POST /payments` with one `Idempotency-Key`, one call after
the other: each call may be cut short or hit a failing statement at any step, while the
rest of the service goes on. -/
namespace StellarGate
open Base

/-- The calls with the key so far. `current` is the one in progress, `minted` the UUIDs given
out to them, `created` the ids of the payments they inserted and `answered` their responses. -/
structure Retry where
  db : Db
  minted : List String
  created : List String
  current : Option (CreateRequest × CreatePc)
  answered : List CreateResponse

inductive RetryEvent where
  | call (req : CreateRequest)
  | exec (now : ℤ) (r : Reply)
  | fail
  | cut
  | other (db : Db)

namespace Retry

def start (db : Db) : Retry := ⟨db, [], [], none, []⟩

/-- What the rest of the service may make of the database: it neither prunes payments nor
touches the mapping of the key, and the ids it mints are its own. -/
def Elsewhere (m k : String) (w : Retry) (db : Db) : Prop :=
  db.findPaymentIdByIdempotencyKey m k = w.db.findPaymentIdByIdempotencyKey m k ∧
  (∀ p ∈ w.db.payments.rows, ∃ q ∈ db.payments.rows, q.id = p.id) ∧
  ∀ q ∈ db.payments.rows, q.id ∈ w.minted → ∃ p ∈ w.db.payments.rows, p.id = q.id

instance (m k : String) (w : Retry) (db : Db) : Decidable (Elsewhere m k w db) :=
  inferInstanceAs (Decidable (_ ∧ _ ∧ _))

/-- The call goes on at `pc`, or has answered. -/
def proceed (w : Retry) (req : CreateRequest) : CreatePc → Retry
  | .done response => { w with current := none, answered := w.answered ++ [response] }
  | pc => { w with current := some (req, pc) }

/-- The id of the payment that the next statement inserts, if it does. -/
def inserts (env : Env) (now : ℤ) (req : CreateRequest) (db : Db) : CreatePc → List String
  | .insert id memo =>
    if (db.insertPayment now (Create.newPayment env req id memo)).isSome then [id] else []
  | _ => []

/-- A valid request of the merchant `m` with the key `k`. -/
def Valid (env : Env) (m k : String) (req : CreateRequest) : Prop :=
  req.merchantId = m ∧ Create.key req = some k ∧ (Create.validate env req).isOk = true

instance (env : Env) (m k : String) (req : CreateRequest) : Decidable (Valid env m k req) :=
  inferInstanceAs (Decidable (_ ∧ _ ∧ _))

/-- Calls do not overlap, and a new UUID is not the id of a payment. -/
def step (env : Env) (m k : String) (w : Retry) : RetryEvent → Option Retry
  | .call req =>
    if w.current = none ∧ Valid env m k req then some (w.proceed req (Create.start env req))
    else none
  | .exec now r =>
    match w.current with
    | none => none
    | some (req, pc) =>
      if ∃ p ∈ w.db.payments.rows, p.id = r.uuid then none
      else
        let s := Create.step env now r req pc w.db
        let w' : Retry := { w with
          db := s.2
          minted := r.uuid :: w.minted
          created := w.created ++ inserts env now req w.db pc }
        some (w'.proceed req s.1)
  | .fail =>
    match w.current with
    | none => none
    | some (req, pc) => some (w.proceed req (Create.fail pc))
  | .cut => some { w with current := none }
  | .other db => if Elsewhere m k w db then some { w with db } else none

def Absent (id : String) (db : Db) : Prop := ∀ p ∈ db.payments.rows, p.id ≠ id

/-- What the call in progress can rely on. -/
def Standing (m k : String) (w : Retry) : CreatePc → Prop
  | .lookup key => key = k
  | .getExisting key id => key = k ∧ w.db.findPaymentIdByIdempotencyKey m k = some id
  | .deleteStale key => key = k ∧ w.created = []
  | .mint key => key = some k ∧ w.db.findPaymentIdByIdempotencyKey m k = none
  | .saveKey key id => key = k ∧ w.db.findPaymentIdByIdempotencyKey m k = none ∧ id ∈ w.minted ∧
      Absent id w.db
  | .rereadKey key id => key = k ∧ w.db.findPaymentIdByIdempotencyKey m k = some id ∧ Absent id w.db
  | .memo id _ | .insert id _ => w.db.findPaymentIdByIdempotencyKey m k = some id ∧ Absent id w.db
  | .reread id => id ∈ w.created
  | .waitWinner _ _ | .done _ => False

/-- What the calls with the key have left behind. The mapping is the hinge: whatever was
created is what the key is mapped to, and a payment with the mapped id was created by them. -/
structure Kept (m k : String) (w : Retry) : Prop where
  mapped : ∀ id, w.db.findPaymentIdByIdempotencyKey m k = some id →
    id ∈ w.minted ∧ ∀ p ∈ w.db.payments.rows, p.id = id → id ∈ w.created
  created : ∀ id ∈ w.created, w.db.findPaymentIdByIdempotencyKey m k = some id ∧
    ∃ p ∈ w.db.payments.rows, p.id = id
  one : w.created.length ≤ 1
  shown : ∀ status p, .shown status p ∈ w.answered → (status = 200 ∨ status = 201) ∧
    p.id ∈ w.created

/-- The invariant of the calls with the key. -/
structure Safe (m k : String) (w : Retry) : Prop extends Kept m k w where
  running : ∀ req pc, w.current = some (req, pc) → req.merchantId = m ∧ w.Standing m k pc

section
variable {env : Env} {m k id : String} {w t : Retry} {req : CreateRequest} {pc : CreatePc}
  {now : ℤ} {r : Reply}

theorem Kept.created_eq_nil (h : w.Kept m k)
    (hid : w.db.findPaymentIdByIdempotencyKey m k = some id) (ha : Absent id w.db) :
    w.created = [] := by
  by_contra hne
  obtain ⟨x, hx⟩ := List.exists_mem_of_ne_nil _ hne
  obtain ⟨hmap, p, hp, hpx⟩ := h.created x hx
  cases Option.some.inj (hmap.symm.trans hid)
  exact ha p hp hpx

theorem Kept.created_eq_nil_of_unmapped (h : w.Kept m k)
    (hid : w.db.findPaymentIdByIdempotencyKey m k = none) : w.created = [] := by
  by_contra hne
  obtain ⟨x, hx⟩ := List.exists_mem_of_ne_nil _ hne
  exact absurd ((h.created x hx).1.symm.trans hid) (by simp)

theorem start_of_valid (h : Valid env m k req) : Create.start env req = .lookup k := by
  obtain ⟨-, hkey, hok⟩ := h
  unfold Create.start
  cases hv : Create.validate env req with
  | error e => simp [hv, Except.isOk, Except.toBool] at hok
  | ok asset => simp [hkey]

theorem safe_start {db : Db} (h : db.findPaymentIdByIdempotencyKey m k = none) :
    (start db).Safe m k where
  mapped id hid := absurd (h.symm.trans hid) (by simp)
  created _ hid := absurd hid List.not_mem_nil
  one := Nat.zero_le 1
  shown _ _ hin := absurd hin List.not_mem_nil
  running _ _ hc := by cases hc

theorem Kept.proceed (h : w.Kept m k) (hm : req.merchantId = m)
    (hpc : match pc with
      | .done (.shown status p) => (status = 200 ∨ status = 201) ∧ p.id ∈ w.created
      | .done (.failed _) => True
      | pc => w.Standing m k pc) : (w.proceed req pc).Safe m k := by
  unfold Retry.proceed
  split
  · next response =>
    refine ⟨⟨h.mapped, h.created, h.one, ?_⟩, fun _ _ hc => by cases hc⟩
    intro status p hin
    rcases List.mem_append.mp hin with hin | hin
    · exact h.shown status p hin
    · rw [← List.mem_singleton.mp hin] at hpc
      exact hpc
  · next hne =>
    refine ⟨⟨h.mapped, h.created, h.one, h.shown⟩, ?_⟩
    rintro req' pc' hc
    cases hc
    refine ⟨hm, ?_⟩
    cases pc with
    | done response => exact absurd rfl (hne response)
    | _ => exact hpc

theorem Kept.mint (h : w.Kept m k) (x : String) :
    Kept m k { w with minted := x :: w.minted, created := w.created ++ [] } := by
  rw [List.append_nil]
  exact ⟨fun id hid => ⟨List.mem_cons_of_mem _ (h.mapped id hid).1, (h.mapped id hid).2⟩, h.created,
    h.one, h.shown⟩

theorem Kept.delete (h : w.Kept m k) (hnil : w.created = []) (x : String) :
    Kept m k { w with
      db := w.db.deleteIdempotencyKey m k
      minted := x :: w.minted
      created := w.created ++ [] } := by
  rw [List.append_nil]
  refine ⟨fun id hid => ?_, fun id hid => ?_, h.one, h.shown⟩
  · exact absurd (Db.find_deleteIdempotencyKey.symm.trans hid) (by simp)
  · simp [hnil] at hid

theorem Kept.save (h : w.Kept m k) (hnone : w.db.findPaymentIdByIdempotencyKey m k = none)
    (hid : id ∈ w.minted) (ha : Absent id w.db) (x : String) :
    Kept m k { w with
      db := w.db.insertIdempotencyKey now m k id
      minted := x :: w.minted
      created := w.created ++ [] } := by
  have hfind : (w.db.insertIdempotencyKey now m k id).findPaymentIdByIdempotencyKey m k =
      some id := by
    rw [Db.find_insertIdempotencyKey, hnone, Option.getD_none]
  have hnil := h.created_eq_nil_of_unmapped hnone
  rw [List.append_nil]
  refine ⟨fun y hy => ?_, fun y hy => ?_, h.one, h.shown⟩
  · cases Option.some.inj (hfind.symm.trans hy)
    exact ⟨List.mem_cons_of_mem _ hid, fun p hp hpid => absurd hpid (ha p hp)⟩
  · simp [hnil] at hy

theorem Kept.insert {db' : Db} {new : Db.NewPayment} (h : w.Kept m k)
    (hid : w.db.findPaymentIdByIdempotencyKey m k = some new.id) (ha : Absent new.id w.db)
    (hins : w.db.insertPayment now new = some db') (x : String) :
    Kept m k { w with db := db', minted := x :: w.minted, created := w.created ++ [new.id] } := by
  obtain ⟨n, expiresAt, payments, -, rfl, hrows, -⟩ := Db.insertPayment_eq_some hins
  have hnil := h.created_eq_nil hid ha
  refine ⟨fun y hy => ?_, fun y hy => ?_, by simp [hnil], fun status p hin => ?_⟩
  · cases Option.some.inj (hid.symm.trans hy)
    exact ⟨List.mem_cons_of_mem _ (h.mapped _ hid).1, fun _ _ _ => by simp⟩
  · obtain rfl : y = new.id := by simpa [hnil] using hy
    exact ⟨hid, new.row now expiresAt (stroopsToString n), by simp [hrows], rfl⟩
  · obtain ⟨hs, hp⟩ := h.shown status p hin
    exact ⟨hs, List.mem_append_left _ hp⟩

theorem Safe.exec (h : w.Safe m k) (hc : w.current = some (req, pc))
    (hfresh : Absent r.uuid w.db) :
    Safe m k (Retry.proceed { w with
      db := (Create.step env now r req pc w.db).2
      minted := r.uuid :: w.minted
      created := w.created ++ inserts env now req w.db pc } req
      (Create.step env now r req pc w.db).1) := by
  obtain ⟨rfl, hst⟩ := h.running req pc hc
  cases pc with
  | lookup key =>
    cases hst
    have hk := h.mint r.uuid
    simp only [Create.step]
    split
    · next hnone => exact hk.proceed rfl ⟨rfl, hnone⟩
    · next id hid => exact hk.proceed rfl ⟨rfl, hid⟩
  | getExisting key id =>
    obtain ⟨rfl, hid⟩ := hst
    have hk := h.mint r.uuid
    simp only [Create.step]
    split
    · next payment hget =>
      obtain ⟨p, hp, rfl, hpid⟩ := Db.getPayment_eq_some hget
      refine hk.proceed rfl ⟨.inl rfl, List.mem_append_left _ ?_⟩
      have := (h.mapped id hid).2 p hp hpid
      simpa [hpid] using this
    · next hget =>
      have ha : Absent id w.db := fun p hp hpid => by
        rw [← hpid, Db.getPayment_of_mem hp] at hget
        cases hget
      exact hk.proceed rfl ⟨rfl, by simp [h.created_eq_nil hid ha]⟩
  | deleteStale key =>
    obtain ⟨rfl, hnil⟩ := hst
    exact (h.delete hnil r.uuid).proceed rfl ⟨rfl, Db.find_deleteIdempotencyKey⟩
  | mint key =>
    obtain ⟨rfl, hnone⟩ := hst
    exact (h.mint r.uuid).proceed rfl ⟨rfl, hnone, List.mem_cons_self, hfresh⟩
  | saveKey key id =>
    obtain ⟨rfl, hnone, hid, ha⟩ := hst
    refine (h.save hnone hid ha r.uuid).proceed rfl ⟨rfl, ?_, ha⟩
    rw [Db.find_insertIdempotencyKey, hnone, Option.getD_none]
  | rereadKey key id =>
    obtain ⟨rfl, hid, ha⟩ := hst
    simp only [Create.step, hid, Option.getD_some, ne_eq, not_true_eq_false, if_false]
    exact (h.mint r.uuid).proceed rfl ⟨hid, ha⟩
  | waitWinner canonicalId tries => exact hst.elim
  | memo id tries =>
    have hk := h.mint r.uuid
    simp only [Create.step]
    split_ifs
    · exact hk.proceed rfl hst
    · exact hk.proceed rfl trivial
    · exact hk.proceed rfl hst
  | insert id memo =>
    obtain ⟨hid, ha⟩ := hst
    simp only [Create.step, inserts]
    cases hins : w.db.insertPayment now (Create.newPayment env req id memo) with
    | none => exact (h.mint r.uuid).proceed rfl trivial
    | some db' =>
      exact (h.insert hid ha hins r.uuid).proceed rfl
        (List.mem_append_right _ (List.mem_singleton.mpr rfl))
  | reread id =>
    obtain ⟨p, hp, rfl⟩ := (h.created id hst).2
    simp only [Create.step, Db.getPayment_of_mem hp]
    exact (h.mint r.uuid).proceed rfl ⟨.inr rfl, List.mem_append_left _ hst⟩
  | done response => exact hst.elim

theorem Safe.other {db : Db} (h : w.Safe m k) (he : Elsewhere m k w db) :
    Safe m k { w with db } := by
  obtain ⟨hmap, hkeep, hown⟩ := he
  have habsent {id : String} (hid : id ∈ w.minted) (ha : Absent id w.db) : Absent id db := by
    intro q hq hqid
    obtain ⟨p, hp, hpq⟩ := hown q hq (hqid ▸ hid)
    exact ha p hp (hpq.trans hqid)
  refine ⟨⟨fun id hid => ?_, fun id hid => ?_, h.one, h.shown⟩, fun req pc hc => ?_⟩
  · obtain ⟨hmin, hrow⟩ := h.mapped id (hmap.symm.trans hid)
    refine ⟨hmin, fun q hq hqid => ?_⟩
    obtain ⟨p, hp, hpq⟩ := hown q hq (hqid ▸ hmin)
    exact hrow p hp (hpq.trans hqid)
  · obtain ⟨hid', p, hp, rfl⟩ := h.created id hid
    exact ⟨hmap.trans hid', hkeep p hp⟩
  · obtain ⟨hm, hst⟩ := h.running req pc hc
    refine ⟨hm, ?_⟩
    cases pc with
    | getExisting key id => exact ⟨hst.1, hmap.trans hst.2⟩
    | mint key => exact ⟨hst.1, hmap.trans hst.2⟩
    | saveKey key id => exact ⟨hst.1, hmap.trans hst.2.1, hst.2.2.1, habsent hst.2.2.1 hst.2.2.2⟩
    | rereadKey key id =>
      exact ⟨hst.1, hmap.trans hst.2.1, habsent (h.mapped id hst.2.1).1 hst.2.2⟩
    | memo id tries => exact ⟨hmap.trans hst.1, habsent (h.mapped id hst.1).1 hst.2⟩
    | insert id memo => exact ⟨hmap.trans hst.1, habsent (h.mapped id hst.1).1 hst.2⟩
    | _ => exact hst

theorem Safe.fail (h : w.Safe m k) (hc : w.current = some (req, pc)) :
    (w.proceed req (Create.fail pc)).Safe m k := by
  obtain ⟨hm, hst⟩ := h.running req pc hc
  cases pc with
  | mint key => exact h.toKept.proceed hm hst
  | done response => exact hst.elim
  | _ => exact h.toKept.proceed hm trivial

theorem Safe.step {e : RetryEvent} (hs : Retry.step env m k w e = some t) (h : w.Safe m k) :
    t.Safe m k := by
  cases e with
  | call req =>
    simp only [Retry.step] at hs
    split_ifs at hs with hg
    cases hs
    rw [start_of_valid hg.2]
    exact h.toKept.proceed hg.2.1 rfl
  | exec now r =>
    simp only [Retry.step] at hs
    split at hs
    · cases hs
    · next req pc hc =>
      split_ifs at hs with hu
      cases hs
      exact h.exec hc fun p hp hpid => hu ⟨p, hp, hpid⟩
  | fail =>
    simp only [Retry.step] at hs
    split at hs
    · cases hs
    · next req pc hc =>
      cases hs
      exact h.fail hc
  | cut =>
    cases hs
    exact ⟨⟨h.mapped, h.created, h.one, h.shown⟩, fun _ _ hc => by cases hc⟩
  | other db =>
    simp only [Retry.step] at hs
    split_ifs at hs with he
    cases hs
    exact h.other he

end

/-! A call that meets no failure of its own. -/
section Unfailing
variable {env : Env} {m k : String} {w t : Retry} {req : CreateRequest} {pc : CreatePc}

/-- The call in progress meets no failure: its statements succeed, it is not cut short, and
the last round of its memo search finds a free memo. -/
def Unfailing (env : Env) (w : Retry) : RetryEvent → Prop
  | .exec now r =>
    match w.current with
    | some (_, .memo _ tries) => tries ≤ 1 → w.db.memoExists (Create.memoOf r.uuid) = false
    | some (req, .insert id memo) =>
      (w.db.insertPayment now (Create.newPayment env req id memo)).isSome = true
    | _ => True
  | .other _ => True
  | .call _ | .fail | .cut => False

def stepsLeft : CreatePc → ℕ
  | .lookup _ => 18
  | .getExisting _ _ => 17
  | .deleteStale _ => 16
  | .mint _ => 15
  | .saveKey _ _ => 14
  | .rereadKey _ _ => 13
  | .memo _ tries => max 1 tries + 2
  | .insert _ _ => 2
  | .reread _ => 1
  | .waitWinner _ _ | .done _ => 0

def statements (es : List RetryEvent) : ℕ :=
  es.countP fun e => match e with
    | .exec _ _ => true
    | _ => false

/-- From `w` on the call has answered 200 or 201, or is still running with at
most `n` statements left. -/
def Answers (w t : Retry) (n : ℕ) : Prop :=
  (t.current = none ∧ ∃ status p, t.answered = w.answered ++ [.shown status p] ∧
    (status = 200 ∨ status = 201)) ∨
  ∃ req pc, t.current = some (req, pc) ∧ t.answered = w.answered ∧ stepsLeft pc ≤ n

theorem stepsLeft_pos (h : w.Standing m k pc) : 0 < stepsLeft pc := by
  cases pc with
  | memo id tries =>
    simp only [stepsLeft]
    omega
  | waitWinner | done => exact h.elim
  | _ => exact Nat.succ_pos _

theorem Answers.exec {now : ℤ} {r : Reply} (h : w.Safe m k) (hc : w.current = some (req, pc))
    (hok : w.Unfailing env (.exec now r)) (hs : Retry.step env m k w (.exec now r) = some t) :
    Answers w t (stepsLeft pc - 1) := by
  obtain ⟨rfl, hst⟩ := h.running req pc hc
  simp only [Retry.step, hc] at hs
  split_ifs at hs
  cases hs
  simp only [Unfailing, hc] at hok
  cases pc with
  | lookup key =>
    right
    simp only [Create.step]
    split
    · exact ⟨req, _, rfl, rfl, by simp [stepsLeft]⟩
    · exact ⟨req, _, rfl, rfl, by simp [stepsLeft]⟩
  | getExisting key id =>
    simp only [Create.step]
    split
    · exact .inl ⟨rfl, _, _, rfl, .inl rfl⟩
    · exact .inr ⟨req, _, rfl, rfl, by simp [stepsLeft]⟩
  | deleteStale key => exact .inr ⟨req, .mint (some key), rfl, rfl, by simp [stepsLeft]⟩
  | mint key =>
    obtain ⟨rfl, -⟩ := hst
    exact .inr ⟨req, .saveKey k r.uuid, rfl, rfl, by simp [stepsLeft]⟩
  | saveKey key id => exact .inr ⟨req, .rereadKey key id, rfl, rfl, by simp [stepsLeft]⟩
  | rereadKey key id =>
    obtain ⟨rfl, hid, -⟩ := hst
    simp only [Create.step, hid, Option.getD_some, ne_eq, not_true_eq_false, if_false]
    exact .inr ⟨req, _, rfl, rfl, by simp [stepsLeft]⟩
  | waitWinner canonicalId tries => exact hst.elim
  | memo id tries =>
    right
    simp only [Create.step]
    split_ifs with hfree hlast
    · exact ⟨req, _, rfl, rfl, by simp only [stepsLeft]; omega⟩
    · simp [hok hlast] at hfree
    · exact ⟨req, _, rfl, rfl, by simp only [stepsLeft]; omega⟩
  | insert id memo =>
    obtain ⟨db', hins⟩ := Option.isSome_iff_exists.mp hok
    simp only [Create.step, hins]
    exact .inr ⟨req, _, rfl, rfl, by simp [stepsLeft]⟩
  | reread id =>
    obtain ⟨p, hp, rfl⟩ := (h.created id hst).2
    simp only [Create.step, Db.getPayment_of_mem hp]
    exact .inl ⟨rfl, _, _, rfl, .inr rfl⟩
  | done response => exact hst.elim

theorem unfailing_idle {es : List RetryEvent} (hc : w.current = none)
    (hok : Along (Retry.step env m k) (Unfailing env) w es)
    (hr : run (Retry.step env m k) w es = some t) :
    t.current = none ∧ t.answered = w.answered := by
  induction es generalizing w with
  | nil =>
    cases hr
    exact ⟨hc, rfl⟩
  | cons e es ih =>
    obtain ⟨v, hv, hrest⟩ := run_cons.mp hr
    simp only [Along, hv] at hok
    cases e with
    | exec now r => simp [Retry.step, hc] at hv
    | other db =>
      simp only [Retry.step] at hv
      split_ifs at hv
      cases hv
      exact ih (w := { w with db }) hc hok.2 hrest
    | call | fail | cut => exact hok.1.elim

theorem answers_of_run {es : List RetryEvent} (h : w.Safe m k) (hc : w.current = some (req, pc))
    (hok : Along (Retry.step env m k) (Unfailing env) w es)
    (hr : run (Retry.step env m k) w es = some t) :
    Answers w t (stepsLeft pc - statements es) := by
  induction es generalizing w req pc with
  | nil =>
    cases hr
    exact .inr ⟨req, pc, hc, rfl, by simp [statements]⟩
  | cons e es ih =>
    obtain ⟨v, hv, hrest⟩ := run_cons.mp hr
    simp only [Along, hv] at hok
    have hsafe := h.step hv
    cases e with
    | other db =>
      simp only [Retry.step] at hv
      split_ifs at hv
      cases hv
      exact ih (w := { w with db }) hsafe hc hok.2 hrest
    | call | fail | cut => exact hok.1.elim
    | exec now r =>
      have hcount : statements (.exec now r :: es) = statements es + 1 := by
        simp [statements]
      rcases Answers.exec h hc hok.1 hv with ⟨hnone, status, p, hans, hst⟩ | ⟨req', pc', hc',
        hans, hleft⟩
      · obtain ⟨hend, hsame⟩ := unfailing_idle hnone hok.2 hrest
        exact .inl ⟨hend, status, p, hsame.trans hans, hst⟩
      · rcases ih hsafe hc' hok.2 hrest with ⟨hend, status, p, h', hst⟩ | ⟨req'', pc'',
          hc'', h', hle⟩
        · exact .inl ⟨hend, status, p, hans ▸ h', hst⟩
        · exact .inr ⟨req'', pc'', hc'', h'.trans hans, by omega⟩

/-- What repeated calls with one key come to: at most one payment, which every answer shows,
and an answer to every call that meets no failure within its eighteen statements. -/
structure OnePayment (env : Env) (m k : String) (w : Retry) : Prop where
  one : w.created.length ≤ 1
  row : ∀ id ∈ w.created, ∃ p ∈ w.db.payments.rows, p.id = id
  shown : ∀ status p, .shown status p ∈ w.answered → (status = 200 ∨ status = 201) ∧
    p.id ∈ w.created
  answers : ∀ req es t, run (Retry.step env m k) w (.call req :: es) = some t →
    (∀ v, Retry.step env m k w (.call req) = some v →
      Along (Retry.step env m k) (Unfailing env) v es) →
    (t.current = none ∧ ∃ status p, t.answered = w.answered ++ [.shown status p] ∧
      (status = 200 ∨ status = 201)) ∨
    (t.current ≠ none ∧ t.answered = w.answered ∧ statements es < 18)

/-- However the calls with a key were cut short or failed before. -/
theorem onePayment_of_run {db : Db} {es : List RetryEvent}
    (hnew : db.findPaymentIdByIdempotencyKey m k = none)
    (hr : run (Retry.step env m k) (start db) es = some w) : OnePayment env m k w := by
  have hsafe : w.Safe m k := run_invariant (fun _ _ _ hs hi => hi.step hs) hr (safe_start hnew)
  refine ⟨hsafe.one, fun id hid => (hsafe.created id hid).2, hsafe.shown, ?_⟩
  intro req fs t ht hok
  obtain ⟨v, hv, hrest⟩ := run_cons.mp ht
  have hsafe' := hsafe.step hv
  have hok := hok v hv
  simp only [Retry.step] at hv
  split_ifs at hv with hg
  cases hv
  rw [start_of_valid hg.2] at hrest hok hsafe'
  rcases answers_of_run hsafe' rfl hok hrest with hdone | ⟨req', pc', hc, hsame, hle⟩
  · exact .inl hdone
  · have := stepsLeft_pos ((run_invariant (fun _ _ _ hs hi => hi.step hs) hrest hsafe').running
      req' pc' hc).2
    have hle : stepsLeft pc' ≤ 18 - statements fs := hle
    exact .inr ⟨by simp [hc], hsame, by omega⟩

/-- A call dies after its reservation, a second one fails on the `DELETE` of the stale mapping,
a third one dies after its insert, and a fourth one finds the payment. -/
theorem onePayment_of_run_crashed :
    let keyed := { Sample.request with idempotencyKey := some " k1 " }
    let exec := fun i : ℕ => RetryEvent.exec 0 (Sample.reply i)
    let es := .call keyed :: [10, 11, 12].map exec ++ .cut :: .call keyed :: [13, 14].map exec ++
      .fail :: .call keyed :: [15, 16, 17, 18, 19, 20, 21, 22].map exec ++ .cut :: .call keyed ::
      [23, 24].map exec
    ∃ w, run (Retry.step Sample.env "m" "k1") (start .empty) es = some w ∧ w.created = ["18"] ∧
      w.current = none ∧ w.answered.length = 2 ∧ OnePayment Sample.env "m" "k1" w := by
  intro keyed exec es
  obtain ⟨w, hw, hcreated, hidle, hans⟩ := exists_of_run (Retry.step Sample.env "m" "k1")
    (start .empty) es
    (P := fun w => w.created = ["18"] ∧ w.current = none ∧ w.answered.length = 2) (by decide)
  exact ⟨w, hw, hcreated, hidle, hans, onePayment_of_run rfl hw⟩

end Unfailing
end Retry
end StellarGate
