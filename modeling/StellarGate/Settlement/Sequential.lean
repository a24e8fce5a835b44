import StellarGate.Settlement.Received

/-! Calls of `reconcile_payment` that run alone, one after the other. -/
namespace StellarGate
open Base

namespace Reconcile

def alone (env : Env) (hp : HorizonPayment) :
    List (ℤ × Reply) → ReconcilePc × Db → ReconcilePc × Db
  | [], s => s
  | (now, r) :: feed, (pc, db) =>
    let s := step env now r hp pc db
    alone env hp feed (s.next, s.db)

def stepsLeft (env : Env) : ReconcilePc → ℕ
  | .find _ => Dispatch.attempts env + 10
  | .sumBefore _ => Dispatch.attempts env + 9
  | .record _ _ => Dispatch.attempts env + 8
  | .sumAfter _ => Dispatch.attempts env + 7
  | .update _ _ => Dispatch.attempts env + 6
  | .notify _ pc => Dispatch.stepsLeft env pc + 1
  | .done _ => 0

def maxSteps (env : Env) : ℕ := Dispatch.attempts env + 10

def processAll (env : Env) : List (HorizonPayment × List (ℤ × Reply)) → Db → Db
  | [], db => db
  | (hp, feed) :: rest, db => processAll env rest (alone env hp feed (start hp, db)).2

end Reconcile

section Returns
variable {env : Env} {now : ℤ} {r : Reply} {db : Db} {hp : HorizonPayment}

theorem Dispatch.step_stepsLeft (d : Dispatch) (pc : DispatchPc) (h : pc ≠ .done) :
    Dispatch.stepsLeft env (d.step env now r pc db).1 < Dispatch.stepsLeft env pc := by
  cases pc with
  | start =>
    simp only [Dispatch.step]
    split <;> simp [Dispatch.stepsLeft]
  | connect id =>
    simp only [Dispatch.step]
    split <;> simp only [Dispatch.stepsLeft] <;> omega
  | post id k =>
    simp only [Dispatch.step]
    split_ifs <;> simp only [Dispatch.stepsLeft] <;> omega
  | finish id status n => simp [Dispatch.step, Dispatch.stepsLeft]
  | done => exact absurd rfl h

theorem Reconcile.stepsLeft_notifyNext {d : Dispatch} {pc : DispatchPc} {n : ℕ}
    (h : pc ≠ .done → Dispatch.stepsLeft env pc < n) :
    Reconcile.stepsLeft env (notifyNext d pc) ≤ n := by
  unfold notifyNext
  split_ifs with hd
  · exact Nat.zero_le _
  · exact h hd

variable (env now r db hp) in
/-- Every step of a call brings it closer to its return. -/
theorem Reconcile.step_stepsLeft (pc : ReconcilePc) :
    Reconcile.stepsLeft env (step env now r hp pc db).next ≤ Reconcile.stepsLeft env pc - 1 := by
  cases pc with
  | find memo =>
    simp only [step]
    split <;> simp [Reconcile.stepsLeft]
  | sumBefore p =>
    simp only [step]
    split
    · simp [Reconcile.stepsLeft]
    · split_ifs <;> simp [Reconcile.stepsLeft]
  | record p n =>
    simp only [step]
    split <;> simp [Reconcile.stepsLeft]
  | sumAfter p =>
    simp only [step]
    split <;> simp [Reconcile.stepsLeft]
  | update p total =>
    simp only [step]
    split <;> simp [Reconcile.stepsLeft, Dispatch.stepsLeft]
  | notify d pc =>
    simp only [step]
    refine stepsLeft_notifyNext fun hd => ?_
    by_cases h : pc = .done
    · subst h
      exact absurd rfl hd
    · exact d.step_stepsLeft pc h
  | done result => simp [step, Reconcile.stepsLeft]

variable (env hp) in
theorem Reconcile.alone_stepsLeft (feed : List (ℤ × Reply)) (s : ReconcilePc × Db) :
    Reconcile.stepsLeft env (alone env hp feed s).1 ≤
      Reconcile.stepsLeft env s.1 - feed.length := by
  induction feed generalizing s with
  | nil => exact Nat.le_refl _
  | cons f feed ih =>
    have hrest := ih ((step env f.1 f.2 hp s.1 s.2).next, (step env f.1 f.2 hp s.1 s.2).db)
    have hfirst := step_stepsLeft env f.1 f.2 s.2 hp s.1
    simp only [alone, List.length_cons] at hrest ⊢
    omega

theorem Reconcile.alone_returns {feed : List (ℤ × Reply)} (h : maxSteps env ≤ feed.length) :
    ∃ result, (alone env hp feed (start hp, db)).1 = .done result := by
  have hle := alone_stepsLeft env hp feed (start hp, db)
  have hstart : Reconcile.stepsLeft env (start hp) ≤ maxSteps env := by
    unfold start
    split <;> simp [Reconcile.stepsLeft, maxSteps]
  have hzero : Reconcile.stepsLeft env (alone env hp feed (start hp, db)).1 = 0 := by
    simp only at hle
    omega
  cases hpc : (alone env hp feed (start hp, db)).1 with
  | done result => exact ⟨result, rfl⟩
  | _ => simp [hpc, Reconcile.stepsLeft] at hzero

end Returns

/-! What a call that runs alone does to an intent its record pays. -/
section Alone
variable {env : Env} {now : ℤ} {r : Reply} {db db' : Db} {hp : HorizonPayment} {p q : Payment}
  {feed : List (ℤ × Reply)}

def ReconcilePc.late : ReconcilePc → Bool
  | .notify _ _ | .done _ => true
  | _ => false

variable (env hp feed) in
theorem Reconcile.alone_late (s : ReconcilePc × Db) (h : s.1.late = true) :
    (alone env hp feed s).2.payments = s.2.payments ∧
      (alone env hp feed s).2.processedTransactions = s.2.processedTransactions := by
  induction feed generalizing s with
  | nil => exact ⟨rfl, rfl⟩
  | cons f feed ih =>
    obtain ⟨pc, db⟩ := s
    cases pc with
    | notify d pc =>
      have hnext : (notifyNext d (d.step env f.1 f.2 pc db).1).late = true := by
        unfold notifyNext
        split_ifs <;> rfl
      obtain ⟨h1, h2⟩ := ih (notifyNext d (d.step env f.1 f.2 pc db).1,
        (d.step env f.1 f.2 pc db).2) hnext
      exact ⟨h1.trans Dispatch.step_frame.1, h2.trans Dispatch.step_frame.2.1⟩
    | done result => exact ih _ rfl
    | _ => cases h

theorem Reconcile.alone_closed (s : ReconcilePc × Db) (hq : q ∈ s.2.payments.rows)
    (hw : q.status.watchable = false) : q ∈ (alone env hp feed s).2.payments.rows := by
  induction feed generalizing s with
  | nil => exact hq
  | cons f feed ih => exact ih _ ((step_writes hp s.1).row_closed hq hw)

/-- The transaction of `hp` was credited to the intent. -/
def Credited (db : Db) (p : Payment) (hp : HorizonPayment) : Prop :=
  ∃ x ∈ db.credits p.id, x.txHash = hp.hash

/-- A whole call on `hp` settles the intent: its transaction is new and the new
total is within `i64`. -/
def Settles (db : Db) (p : Payment) (hp : HorizonPayment) : Prop :=
  ¬ Credited db p hp ∧ db.creditSum p.id + hp.stroops.getD 0 ≤ i64Max

/-- An open intent and a record that pays it. -/
structure Payable (db : Db) (p : Payment) (hp : HorizonPayment) : Prop where
  mem : p ∈ db.payments.rows
  watchable : p.status.watchable = true
  priced : (parseStroops p.amount).isSome
  pays : Pays p hp

theorem Reconcile.alone_step {f : ℤ × Reply} {pc pc' : ReconcilePc} {ds : List Dispatch}
    {cs : List (String × WebhookEvent)} (h : step env f.1 f.2 hp pc db = ⟨pc', db', ds, cs⟩) :
    alone env hp (f :: feed) (pc, db) = alone env hp feed (pc', db') := by
  simp only [alone, h]

namespace Payable
variable {f g : ℤ × Reply}

theorem start_eq (h : Payable db p hp) : Reconcile.start hp = .find p.memo := by
  simp [Reconcile.start, h.pays.1.memo]

theorem alone_find (h : Payable db p hp) (he : strftime f.1 < p.expiresAt) :
    Reconcile.alone env hp (f :: feed) (Reconcile.start hp, db) =
      Reconcile.alone env hp feed (.sumBefore (rowToPayment p), db) := by
  rw [h.start_eq]
  exact Reconcile.alone_step (Reconcile.step_find h.mem h.watchable he)

theorem alone_sumBefore (h : Payable db p hp) (hle : db.creditSum p.id ≤ i64Max) :
    Reconcile.alone env hp (f :: feed) (.sumBefore (rowToPayment p), db) =
      Reconcile.alone env hp feed (.record (rowToPayment p) (hp.stroops.getD 0), db) :=
  Reconcile.alone_step (Reconcile.step_sumBefore rfl hle
    (Pays.of_terms (rowToPayment_terms p).symm h.pays) h.priced)

variable (env f) in
theorem alone_record (hn : ¬ Credited db p hp) :
    ∃ db₁, db₁.payments = db.payments ∧ Credited db₁ p hp ∧
      (∀ x, x ∈ db₁.credits p.id ↔
        x ∈ db.credits p.id ∨ x = ⟨p.id, hp.hash, hp.stroops.getD 0, strftime f.1⟩) ∧
      db₁.creditSum p.id = db.creditSum p.id + hp.stroops.getD 0 ∧
      ∀ feed, Reconcile.alone env hp (f :: feed)
          (.record (rowToPayment p) (hp.stroops.getD 0), db) =
        Reconcile.alone env hp feed (.sumAfter (rowToPayment p), db₁) := by
  cases hrec : db.recordProcessedTx f.1 p.id hp.hash (hp.stroops.getD 0) with
  | mk added db₁ =>
    cases added with
    | false => exact absurd (Db.recordProcessedTx_false hrec).2 hn
    | true =>
      have hsum := Db.creditSum_record hrec p.id
      have hstep : Reconcile.step env f.1 f.2 hp (.record (rowToPayment p) (hp.stroops.getD 0)) db =
          ⟨.sumAfter (rowToPayment p), db₁, [], []⟩ := Reconcile.step_record hrec
      obtain ⟨t, rfl, hrows, -⟩ := Db.recordProcessedTx_true hrec
      refine ⟨{ db with processedTransactions := t }, rfl,
        ⟨⟨p.id, hp.hash, hp.stroops.getD 0, strftime f.1⟩, ?_, rfl⟩, fun x => ?_, ?_,
        fun feed => Reconcile.alone_step hstep⟩
      · simp [Db.mem_credits, hrows]
      · simp only [Db.mem_credits, hrows, List.mem_append, List.mem_singleton, or_and_right]
        exact or_congr_right ⟨fun h => h.1, fun h => ⟨h, by rw [h]⟩⟩
      · simpa using hsum

variable (env hp f g) in
theorem alone_settle (hmem : p ∈ db.payments.rows) (hw : p.status.watchable = true)
    (hle : db.creditSum p.id ≤ i64Max) :
    ∃ db₂, Db.settleRow g.1 (settlementOf p (db.creditSum p.id)).status hp.hash
        (stroopsToString (db.creditSum p.id)) p ∈ db₂.payments.rows ∧
      db₂.processedTransactions = db.processedTransactions ∧
      ∃ d, ∀ feed, Reconcile.alone env hp (f :: g :: feed) (.sumAfter (rowToPayment p), db) =
        Reconcile.alone env hp feed (.notify d .start, db₂) := by
  obtain ⟨db₂, hrow, hledger, hs⟩ := Reconcile.step_update_open env g.1 g.2 hp
    (p := rowToPayment p) (db.creditSum p.id) hmem rfl hw
  refine ⟨db₂, hrow, hledger, Reconcile.dispatchOf (rowToPayment p) (db.creditSum p.id) hp.hash,
    fun feed => ?_⟩
  rw [Reconcile.alone_step (Reconcile.step_sumAfter (rowToPayment_id p) hle),
    Reconcile.alone_step hs]

variable (env) in
/-- A call that does not settle the intent leaves the payments as they are, and so will
the next one on the same record. It credits nothing when the transaction was credited. -/
theorem alone_unsettled (h : Payable db p hp) (hs : ¬ Settles db p hp)
    (he : ∀ f ∈ feed.head?, strftime f.1 < p.expiresAt) :
    let db' := (Reconcile.alone env hp feed (Reconcile.start hp, db)).2
    db'.payments = db.payments ∧ ¬ Settles db' p hp ∧
      (Credited db p hp → db'.processedTransactions = db.processedTransactions) := by
  have hlate : ∀ {db₁ : Db} {result : ReconcileResult} (feed : List (ℤ × Reply)),
      db₁.payments = db.payments → ¬ Settles db₁ p hp →
      (Credited db p hp → db₁.processedTransactions = db.processedTransactions) →
      let db' := (Reconcile.alone env hp feed (.done result, db₁)).2
      db'.payments = db.payments ∧ ¬ Settles db' p hp ∧
        (Credited db p hp → db'.processedTransactions = db.processedTransactions) := by
    intro db₁ result feed hpay hns hledger
    obtain ⟨h1, h2⟩ := Reconcile.alone_late env hp feed (.done result, db₁) rfl
    refine ⟨h1.trans hpay, ?_, fun hc => h2.trans (hledger hc)⟩
    simpa only [Settles, Credited, Db.creditSum, Db.credits, h2] using hns
  rcases feed with _ | ⟨f₁, _ | ⟨f₂, feed⟩⟩
  · exact ⟨rfl, hs, fun _ => rfl⟩
  · rw [h.alone_find (he f₁ rfl)]
    exact ⟨rfl, hs, fun _ => rfl⟩
  rw [h.alone_find (he f₁ rfl)]
  by_cases hle : db.creditSum p.id ≤ i64Max
  swap
  · rw [Reconcile.alone_step (Reconcile.step_overflow (p := rowToPayment p) rfl hle).1]
    exact hlate feed rfl hs fun _ => rfl
  rw [h.alone_sumBefore hle]
  rcases feed with _ | ⟨f₃, feed⟩
  · exact ⟨rfl, hs, fun _ => rfl⟩
  by_cases hc : Credited db p hp
  · rw [Reconcile.alone_step (Reconcile.step_record_seen (p := rowToPayment p) hc)]
    exact hlate feed rfl hs fun _ => rfl
  obtain ⟨db₁, hpay, hc₁, -, hsum, hstep⟩ := alone_record env f₃ hc
  have hns : ¬ Settles db₁ p hp := fun h => h.1 hc₁
  rw [hstep]
  rcases feed with _ | ⟨f₄, feed⟩
  · exact ⟨hpay, hns, fun h => absurd h hc⟩
  have hover : ¬ db₁.creditSum p.id ≤ i64Max := fun h' => hs ⟨hc, hsum ▸ h'⟩
  rw [Reconcile.alone_step (Reconcile.step_overflow (p := rowToPayment p) rfl hover).2]
  exact hlate feed hpay hns fun h => absurd h hc

theorem alone_early (h : Payable db p hp) (hs : Settles db p hp)
    (he : ∀ f ∈ feed.head?, strftime f.1 < p.expiresAt) (hk : feed.length ≤ 2) :
    (Reconcile.alone env hp feed (Reconcile.start hp, db)).2 = db := by
  have hle : db.creditSum p.id ≤ i64Max := by
    have := h.pays.stroops_pos
    have := hs.2
    omega
  rcases feed with _ | ⟨f₁, _ | ⟨f₂, _ | ⟨f₃, feed⟩⟩⟩
  · rfl
  · rw [h.alone_find (he f₁ rfl)]
    rfl
  · rw [h.alone_find (he f₁ rfl), h.alone_sumBefore hle]
    rfl
  · simp only [List.length_cons] at hk
    omega

variable (env) in
theorem alone_recorded (h : Payable db p hp) (hs : Settles db p hp) {f₁ : ℤ × Reply}
    (f₂ f₃ : ℤ × Reply) (he : strftime f₁.1 < p.expiresAt) :
    ∃ db₁, db₁.payments = db.payments ∧ Credited db₁ p hp ∧
      (∀ x, x ∈ db₁.credits p.id ↔
        x ∈ db.credits p.id ∨ x = ⟨p.id, hp.hash, hp.stroops.getD 0, strftime f₃.1⟩) ∧
      db₁.creditSum p.id = db.creditSum p.id + hp.stroops.getD 0 ∧
      ∀ feed, Reconcile.alone env hp (f₁ :: f₂ :: f₃ :: feed) (Reconcile.start hp, db) =
        Reconcile.alone env hp feed (.sumAfter (rowToPayment p), db₁) := by
  have hle : db.creditSum p.id ≤ i64Max := by
    have := h.pays.stroops_pos
    have := hs.2
    omega
  obtain ⟨db₁, hpay, hc, hcredits, hsum, hstep⟩ := alone_record env f₃ hs.1
  refine ⟨db₁, hpay, hc, hcredits, hsum, fun feed => ?_⟩
  rw [h.alone_find he, h.alone_sumBefore hle, hstep]

variable (env) in
theorem alone_between (h : Payable db p hp) (hs : Settles db p hp)
    (he : ∀ f ∈ feed.head?, strftime f.1 < p.expiresAt) (hk : 3 ≤ feed.length)
    (hk' : feed.length ≤ 4) :
    (Reconcile.alone env hp feed (Reconcile.start hp, db)).2.payments = db.payments ∧
      Credited (Reconcile.alone env hp feed (Reconcile.start hp, db)).2 p hp := by
  rcases feed with _ | ⟨f₁, _ | ⟨f₂, _ | ⟨f₃, feed⟩⟩⟩
  · simp at hk
  · simp at hk
  · simp at hk
  obtain ⟨db₁, hpay, hc, -, hsum, hstep⟩ := h.alone_recorded env hs f₂ f₃ (he f₁ rfl)
  rw [hstep]
  rcases feed with _ | ⟨f₄, _ | ⟨f₅, feed⟩⟩
  · exact ⟨hpay, hc⟩
  · rw [Reconcile.alone_step (Reconcile.step_sumAfter (p := rowToPayment p) rfl (hsum ▸ hs.2))]
    exact ⟨hpay, hc⟩
  · simp only [List.length_cons] at hk'
    omega

variable (env) in
theorem alone_settled (h : Payable db p hp) (hs : Settles db p hp)
    (he : ∀ f ∈ feed.head?, strftime f.1 < p.expiresAt) (hk : 5 ≤ feed.length) :
    let db' := (Reconcile.alone env hp feed (Reconcile.start hp, db)).2
    let total := db.creditSum p.id + hp.stroops.getD 0
    (∃ now, Db.settleRow now (settlementOf p total).status hp.hash (stroopsToString total) p ∈
      db'.payments.rows) ∧ db'.creditSum p.id = total ∧
      ∃ createdAt, ∀ x, x ∈ db'.credits p.id ↔
        x ∈ db.credits p.id ∨ x = ⟨p.id, hp.hash, hp.stroops.getD 0, createdAt⟩ := by
  rcases feed with _ | ⟨f₁, _ | ⟨f₂, _ | ⟨f₃, _ | ⟨f₄, _ | ⟨f₅, feed⟩⟩⟩⟩⟩
  · simp at hk
  · simp at hk
  · simp at hk
  · simp at hk
  · simp at hk
  obtain ⟨db₁, hpay, -, hcredits, hsum, hstep⟩ := h.alone_recorded env hs f₂ f₃ (he f₁ rfl)
  obtain ⟨db₂, hrow, hledger, d, hstep'⟩ := alone_settle env hp f₄ f₅
    (hpay ▸ h.mem) h.watchable (hsum ▸ hs.2)
  obtain ⟨h1, h2⟩ := Reconcile.alone_late env hp feed (.notify d .start, db₂) rfl
  have hl := h2.trans hledger
  rw [hstep, hstep']
  refine ⟨⟨f₅.1, ?_⟩, ?_, strftime f₃.1, fun x => ?_⟩
  · rw [h1, ← hsum]
    exact hrow
  · exact (Db.creditSum_congr hl).trans hsum
  · simp only [Db.credits, hl] at hcredits ⊢
    exact hcredits x

variable (env) in
/-- Past `i64` the sum fails, and a call gives up before it writes. -/
theorem alone_past (h : Payable db p hp) (hpast : i64Max < db.creditSum p.id)
    (he : ∀ f ∈ feed.head?, strftime f.1 < p.expiresAt) :
    let db' := (Reconcile.alone env hp feed (Reconcile.start hp, db)).2
    db'.payments = db.payments ∧ db'.processedTransactions = db.processedTransactions := by
  rcases feed with _ | ⟨f₁, _ | ⟨f₂, feed⟩⟩
  · exact ⟨rfl, rfl⟩
  · rw [h.alone_find (he f₁ rfl)]
    exact ⟨rfl, rfl⟩
  rw [h.alone_find (he f₁ rfl)]
  rw [Reconcile.alone_step (Reconcile.step_overflow (p := rowToPayment p) rfl hpast.not_ge).1]
  exact Reconcile.alone_late env hp feed (.done _, db) rfl

variable (env) in
theorem alone_exceeds (h : Payable db p hp) (hn : ¬ Credited db p hp)
    (hle : db.creditSum p.id ≤ i64Max) (hover : i64Max < db.creditSum p.id + hp.stroops.getD 0)
    (he : ∀ f ∈ feed.head?, strftime f.1 < p.expiresAt) (hk : 4 ≤ feed.length) :
    let db' := (Reconcile.alone env hp feed (Reconcile.start hp, db)).2
    db'.payments = db.payments ∧ db'.creditSum p.id = db.creditSum p.id + hp.stroops.getD 0 := by
  rcases feed with _ | ⟨f₁, _ | ⟨f₂, _ | ⟨f₃, _ | ⟨f₄, feed⟩⟩⟩⟩
  · simp at hk
  · simp at hk
  · simp at hk
  · simp at hk
  obtain ⟨db₁, hpay, -, -, hsum, hstep⟩ := alone_record env f₃ hn
  rw [h.alone_find (he f₁ rfl), h.alone_sumBefore hle, hstep]
  have hpast : ¬ db₁.creditSum p.id ≤ i64Max := by
    rw [hsum]
    exact hover.not_ge
  rw [Reconcile.alone_step (Reconcile.step_overflow (p := rowToPayment p) rfl hpast).2]
  obtain ⟨h1, h2⟩ := Reconcile.alone_late env hp feed (.done _, db₁) rfl
  exact ⟨h1.trans hpay, (Db.creditSum_congr h2).trans hsum⟩

end Payable
end Alone

/-! Records of the same transaction: only the first is credited. -/
section Operations
variable {env : Env} {db : Db} {p q : Payment} {L : List (HorizonPayment × List (ℤ × Reply))}
  {seen : List String} {hps : List HorizonPayment} {total expected : ℤ}

/-- What adds nothing to a ledger with that total: records whose transaction was seen before,
and all records from the one on that takes the total past `i64`. -/
def leftOut (total : ℤ) (seen : List String) : List HorizonPayment → ℤ
  | [] => 0
  | hp :: hps =>
    if hp.hash ∈ seen then hp.stroops.getD 0 + leftOut total seen hps
    else if total + hp.stroops.getD 0 ≤ i64Max then
      leftOut (total + hp.stroops.getD 0) (hp.hash :: seen) hps
    else totalOf (hp :: hps)

theorem totalOf_nonneg (hpos : ∀ hp ∈ hps, 0 < hp.stroops.getD 0) : 0 ≤ totalOf hps := by
  apply List.sum_nonneg
  intro n hn
  obtain ⟨hp, hhp, rfl⟩ := List.mem_map.mp hn
  exact (hpos hp hhp).le

theorem totalOf_pos (hpos : ∀ hp ∈ hps, 0 < hp.stroops.getD 0) (hne : hps ≠ []) :
    0 < totalOf hps := by
  obtain ⟨hp, hps, rfl⟩ := List.exists_cons_of_ne_nil hne
  obtain ⟨hhead, htail⟩ := List.forall_mem_cons.mp hpos
  rw [totalOf_cons]
  exact add_pos_of_pos_of_nonneg hhead (totalOf_nonneg htail)

theorem leftOut_le (hpos : ∀ hp ∈ hps, 0 < hp.stroops.getD 0) :
    leftOut total seen hps ≤ totalOf hps := by
  induction hps generalizing total seen with
  | nil => exact le_rfl
  | cons hp hps ih =>
    have hhead := hpos hp List.mem_cons_self
    have htail : ∀ {total seen}, leftOut total seen hps ≤ totalOf hps :=
      ih fun x hx => hpos x (List.mem_cons_of_mem _ hx)
    rw [leftOut]
    split_ifs
    · rw [totalOf_cons]
      exact Int.add_le_add_left htail _
    · rw [totalOf_cons]
      exact htail.trans (le_add_of_nonneg_left hhead.le)
    · exact le_rfl

theorem leftOut_nonneg (hpos : ∀ hp ∈ hps, 0 < hp.stroops.getD 0) :
    0 ≤ leftOut total seen hps := by
  induction hps generalizing total seen with
  | nil => exact le_rfl
  | cons hp hps ih =>
    have hhead := hpos hp List.mem_cons_self
    have htail : ∀ {total seen}, 0 ≤ leftOut total seen hps :=
      ih fun x hx => hpos x (List.mem_cons_of_mem _ hx)
    rw [leftOut]
    split_ifs
    · exact add_nonneg hhead.le htail
    · exact htail
    · exact totalOf_nonneg hpos

/-- Where nothing goes past `i64`, nothing is left out exactly when the transactions
are distinct and unseen. -/
theorem leftOut_eq_zero_iff (hpos : ∀ hp ∈ hps, 0 < hp.stroops.getD 0)
    (hmax : total + totalOf hps ≤ i64Max) :
    leftOut total seen hps = 0 ↔ (hps.map (·.hash)).Nodup ∧ ∀ hp ∈ hps, hp.hash ∉ seen := by
  induction hps generalizing total seen with
  | nil => simp [leftOut]
  | cons hp hps ih =>
    have hhead := hpos hp List.mem_cons_self
    have htail : ∀ x ∈ hps, 0 < x.stroops.getD 0 := fun x hx => hpos x (List.mem_cons_of_mem _ hx)
    have hrest := totalOf_nonneg htail
    rw [totalOf_cons] at hmax
    rw [leftOut]
    split_ifs with hs hle
    · have hnonneg : 0 ≤ leftOut total seen hps := leftOut_nonneg htail
      exact iff_of_false (by omega) fun h => h.2 hp List.mem_cons_self hs
    · rw [ih htail (by omega)]
      simp only [List.map_cons, List.nodup_cons, List.mem_map, List.mem_cons, not_or,
        forall_eq_or_imp, not_exists, not_and]
      constructor
      · rintro ⟨hnd, hall⟩
        exact ⟨⟨fun x hx => (hall x hx).1, hnd⟩, hs, fun x hx => (hall x hx).2⟩
      · rintro ⟨⟨hne, hnd⟩, -, hall⟩
        exact ⟨hnd, fun x hx => ⟨hne x hx, hall x hx⟩⟩
    · omega

/-- An intent stays open exactly below its amount. -/
theorem settlementOf_watchable_iff :
    (settlementOf p total).status.watchable = true ↔ total < expectedStroops p := by
  simp only [settlementOf]
  split_ifs with heq hgt
  · exact iff_of_false Bool.false_ne_true heq.not_lt
  · exact iff_of_false Bool.false_ne_true hgt.not_gt
  · exact iff_of_true rfl (lt_of_le_of_ne (not_lt.mp hgt) heq)

/-- The intent is still open, and `seen` are the transactions credited to it. -/
structure Watched (db : Db) (p : Payment) (seen : List String) (q : Payment) : Prop where
  mem : q ∈ db.payments.rows
  terms : q.terms = p.terms
  expiresAt : q.expiresAt = p.expiresAt
  watchable : q.status.watchable = true
  nonneg : 0 ≤ db.creditSum p.id
  hashes : ∀ h, (∃ x ∈ db.credits p.id, x.txHash = h) ↔ h ∈ seen

namespace Watched
variable {hp : HorizonPayment} {feed : List (ℤ × Reply)}

theorem payable (h : Watched db p seen q) (hpays : Pays p hp)
    (hprice : parseStroops p.amount = some expected) : Payable db q hp := by
  refine ⟨h.mem, h.watchable, ?_, hpays.of_terms h.terms.symm⟩
  rw [Payment.amount_eq_of_terms h.terms, hprice]
  rfl

theorem credited_iff (h : Watched db p seen q) : Credited db q hp ↔ hp.hash ∈ seen := by
  rw [Credited, Payment.id_eq_of_terms h.terms]
  exact h.hashes hp.hash

variable (env) in
theorem process_seen (h : Watched db p seen q) (hpays : Pays p hp)
    (hprice : parseStroops p.amount = some expected) (hs : hp.hash ∈ seen)
    (he : ∀ f ∈ feed.head?, strftime f.1 < p.expiresAt) :
    let db' := (Reconcile.alone env hp feed (Reconcile.start hp, db)).2
    Watched db' p seen q ∧ db'.creditSum p.id = db.creditSum p.id := by
  intro db'
  have hc : Credited db q hp := h.credited_iff.mpr hs
  obtain ⟨h1, -, h3⟩ := (h.payable hpays hprice).alone_unsettled env (fun hset => hset.1 hc)
    (h.expiresAt ▸ he)
  have hledger : db'.processedTransactions = db.processedTransactions := h3 hc
  have hsum : db'.creditSum p.id = db.creditSum p.id := Db.creditSum_congr hledger
  have hcredits : db'.credits p.id = db.credits p.id := by simp only [Db.credits, hledger]
  constructor
  · constructor
    · exact h1 ▸ h.mem
    · exact h.terms
    · exact h.expiresAt
    · exact h.watchable
    · exact hsum ▸ h.nonneg
    · rw [hcredits]
      exact h.hashes
  · exact hsum

variable (env) in
/-- A new record is credited, and the intent shows the new total: it stays open below the
requested amount, and is closed otherwise. -/
theorem process_new (h : Watched db p seen q) (hpays : Pays p hp)
    (hprice : parseStroops p.amount = some expected) (hs : hp.hash ∉ seen)
    (hmax : db.creditSum p.id + hp.stroops.getD 0 ≤ i64Max)
    (hlen : Reconcile.maxSteps env ≤ feed.length)
    (he : ∀ f ∈ feed.head?, strftime f.1 < p.expiresAt) :
    let db' := (Reconcile.alone env hp feed (Reconcile.start hp, db)).2
    let total := db.creditSum p.id + hp.stroops.getD 0
    db'.creditSum p.id = total ∧ ∃ q', paidStroops q' = total ∧
      (total < expected → Watched db' p (hp.hash :: seen) q') ∧
      (expected ≤ total → q' ∈ db'.payments.rows ∧ q'.id = p.id ∧ q'.status.watchable = false) := by
  intro db' total
  have hid : q.id = p.id := Payment.id_eq_of_terms h.terms
  have hset : Settles db q hp := by
    refine ⟨fun hc => hs (h.credited_iff.mp hc), ?_⟩
    rw [hid]
    exact hmax
  have hfive : 5 ≤ feed.length := by
    simp only [Reconcile.maxSteps] at hlen
    omega
  obtain ⟨⟨now, hrow⟩, hsum, createdAt, hcredits⟩ :=
    (h.payable hpays hprice).alone_settled env hset (h.expiresAt ▸ he) hfive
  rw [hid] at hsum hcredits hrow
  have hpos : 0 < total := by
    have := h.nonneg
    have := hpays.stroops_pos
    omega
  have hexpected : expectedStroops q = expected := by
    rw [expectedStroops_of_terms h.terms, expectedStroops, hprice]
    rfl
  refine ⟨hsum, _, paidStroops_settleRow hpos hmax, fun hlt => ?_, fun hge => ⟨hrow, hid, ?_⟩⟩
  · constructor
    · exact hrow
    · exact h.terms
    · exact h.expiresAt
    · exact settlementOf_watchable_iff.mpr (hexpected ▸ hlt)
    · exact hsum ▸ hpos.le
    · intro x
      simp only [List.mem_cons, ← h.hashes x]
      constructor
      · rintro ⟨y, hy, rfl⟩
        rcases (hcredits y).mp hy with hy | rfl
        · exact .inr ⟨y, hy, rfl⟩
        · exact .inl rfl
      · rintro (rfl | ⟨y, hy, rfl⟩)
        · exact ⟨_, (hcredits _).mpr (.inr rfl), rfl⟩
        · exact ⟨y, (hcredits y).mpr (.inl hy), rfl⟩
  · exact Bool.eq_false_iff.mpr fun hw => hge.not_gt (hexpected ▸ settlementOf_watchable_iff.mp hw)

variable (env) in
/-- A new record that takes the total past `i64` leaves the payments as they are. -/
theorem process_exceeds (h : Watched db p seen q) (hpays : Pays p hp)
    (hprice : parseStroops p.amount = some expected) (hs : hp.hash ∉ seen)
    (hover : i64Max < db.creditSum p.id + hp.stroops.getD 0)
    (hlen : Reconcile.maxSteps env ≤ feed.length)
    (he : ∀ f ∈ feed.head?, strftime f.1 < p.expiresAt) :
    let db' := (Reconcile.alone env hp feed (Reconcile.start hp, db)).2
    db'.payments = db.payments ∧ i64Max < db'.creditSum p.id := by
  intro db'
  have hid : q.id = p.id := Payment.id_eq_of_terms h.terms
  have hpay := h.payable hpays hprice
  by_cases hle : db.creditSum p.id ≤ i64Max
  · have hfour : 4 ≤ feed.length := by
      simp only [Reconcile.maxSteps] at hlen
      omega
    obtain ⟨h1, hsum⟩ := hpay.alone_exceeds env (fun hc => hs (h.credited_iff.mp hc))
      (hid ▸ hle) (hid ▸ hover) (h.expiresAt ▸ he) hfour
    rw [hid] at hsum
    exact ⟨h1, hsum ▸ hover⟩
  · have hpast : i64Max < db.creditSum p.id := not_le.mp hle
    obtain ⟨h1, h2⟩ := hpay.alone_past env (hid ▸ hpast) (h.expiresAt ▸ he)
    exact ⟨h1, (Db.creditSum_congr h2).symm ▸ hpast⟩

end Watched

variable (env) in
/-- Once the sum is past `i64` an open intent stays as it is. -/
theorem processAll_past (hq : q ∈ db.payments.rows) (ht : q.terms = p.terms)
    (hexp : q.expiresAt = p.expiresAt) (hw : q.status.watchable = true)
    (hpast : i64Max < db.creditSum p.id) (hpays : ∀ x ∈ L, Pays p x.1)
    (hprice : parseStroops p.amount = some expected)
    (he : ∀ x ∈ L, ∀ f ∈ x.2.head?, strftime f.1 < p.expiresAt) :
    q ∈ (Reconcile.processAll env L db).payments.rows := by
  induction L generalizing db with
  | nil => exact hq
  | cons x L ih =>
    obtain ⟨hp, feed⟩ := x
    have hpay : Payable db q hp := by
      refine ⟨hq, hw, ?_, (hpays _ List.mem_cons_self).of_terms ht.symm⟩
      rw [Payment.amount_eq_of_terms ht, hprice]
      rfl
    have hid : q.id = p.id := Payment.id_eq_of_terms ht
    obtain ⟨h1, h2⟩ := hpay.alone_past env (hid ▸ hpast) (hexp ▸ he _ List.mem_cons_self)
    refine ih ?_ ?_ (fun y hy => hpays y (List.mem_cons_of_mem _ hy)) fun y hy =>
      he y (List.mem_cons_of_mem _ hy)
    · rw [h1]
      exact hq
    · rw [Db.creditSum_congr h2]
      exact hpast

theorem processAll_closed (hq : q ∈ db.payments.rows) (hw : q.status.watchable = false) :
    q ∈ (Reconcile.processAll env L db).payments.rows := by
  induction L generalizing db with
  | nil => exact hq
  | cons x L ih => exact ih (Reconcile.alone_closed _ hq hw)

/-- What the intent shows after the records: what it showed before, if all of them are left
out, else the earlier credits with those that are not, or, once that reaches the requested
amount, no less than it. -/
theorem Watched.processAll (h : Watched db p seen q) (hpays : ∀ x ∈ L, Pays p x.1)
    (hprice : parseStroops p.amount = some expected)
    (hlen : ∀ x ∈ L, Reconcile.maxSteps env ≤ x.2.length)
    (he : ∀ x ∈ L, ∀ f ∈ x.2.head?, strftime f.1 < p.expiresAt) :
    let out := leftOut (db.creditSum p.id) seen (L.map Prod.fst)
    let all := totalOf (L.map Prod.fst)
    ∃ q' ∈ (Reconcile.processAll env L db).payments.rows, q'.id = p.id ∧
      (out = all ∧ paidStroops q' = paidStroops q ∨
        out < all ∧ (paidStroops q' = db.creditSum p.id + (all - out) ∨
          expected ≤ paidStroops q' ∧ expected ≤ db.creditSum p.id + (all - out))) := by
  induction L generalizing db seen q with
  | nil => exact ⟨q, h.mem, Payment.id_eq_of_terms h.terms, .inl ⟨rfl, rfl⟩⟩
  | cons x L ih =>
    obtain ⟨hp, feed⟩ := x
    have hpay : Pays p hp := hpays _ List.mem_cons_self
    have hpays' : ∀ y ∈ L, Pays p y.1 := fun y hy => hpays y (List.mem_cons_of_mem _ hy)
    have hlen' : ∀ y ∈ L, Reconcile.maxSteps env ≤ y.2.length := fun y hy =>
      hlen y (List.mem_cons_of_mem _ hy)
    have he' : ∀ y ∈ L, ∀ f ∈ y.2.head?, strftime f.1 < p.expiresAt := fun y hy =>
      he y (List.mem_cons_of_mem _ hy)
    have hone : 0 < hp.stroops.getD 0 := hpay.stroops_pos
    have hpos : ∀ y ∈ L.map Prod.fst, 0 < y.stroops.getD 0 := by
      intro y hy
      obtain ⟨x, hx, rfl⟩ := List.mem_map.mp hy
      exact (hpays' x hx).stroops_pos
    simp only [List.map_cons, totalOf_cons, leftOut, Reconcile.processAll]
    split_ifs with hs hmax
    · obtain ⟨hnext, hsum⟩ := h.process_seen env hpay hprice hs (he _ List.mem_cons_self)
      obtain ⟨q', hq', hid, hshows⟩ := ih hnext hpays' hlen' he'
      refine ⟨q', hq', hid, ?_⟩
      rw [hsum] at hshows
      omega
    · obtain ⟨hsum, q₁, hpaid, hopen, hclosed⟩ := h.process_new env hpay hprice hs hmax
        (hlen _ List.mem_cons_self) (he _ List.mem_cons_self)
      have hle : leftOut (db.creditSum p.id + hp.stroops.getD 0) (hp.hash :: seen)
          (L.map Prod.fst) ≤ totalOf (L.map Prod.fst) := leftOut_le hpos
      by_cases hlt : db.creditSum p.id + hp.stroops.getD 0 < expected
      · obtain ⟨q', hq', hid, hshows⟩ := ih (hopen hlt) hpays' hlen' he'
        refine ⟨q', hq', hid, ?_⟩
        rw [hsum] at hshows
        omega
      · obtain ⟨hq₁, hid, hw⟩ := hclosed (not_lt.mp hlt)
        refine ⟨q₁, processAll_closed hq₁ hw, hid, ?_⟩
        omega
    · obtain ⟨hpayments, hpast⟩ := h.process_exceeds env hpay hprice hs (not_le.mp hmax)
        (hlen _ List.mem_cons_self) (he _ List.mem_cons_self)
      have hstays := processAll_past env (hpayments ▸ h.mem) h.terms h.expiresAt h.watchable hpast
        hpays' hprice he'
      exact ⟨q, hstays, Payment.id_eq_of_terms h.terms, .inl ⟨totalOf_cons .., rfl⟩⟩

theorem World.pending_unpaid {w : World} {es : List Event} {now : ℤ}
    (h : World.Reaches env (.init now) es w) :
    ∀ p ∈ w.db.payments.rows, p.status = .pending → p.paidAmount = none := by
  let Unpaid := fun w : World => ∀ p ∈ w.db.payments.rows, p.status = .pending → p.paidAmount = none
  have hinit : Unpaid (.init now) := fun _ hp => absurd hp List.not_mem_nil
  refine run_invariant (I := Unpaid) (fun v e t hs hv q hq hpend => ?_) h hinit
  rcases step_db hs with hdb | ⟨i, r, c, -, -, rfl⟩
  · exact hv q (hdb ▸ hq) hpend
  · have hw : Writes env v.now r v.db c (c.step env v.now r v.db).db := c.step_writes
    rcases hw.row_inv hq with ⟨p, hp, hstep⟩ | hnew
    · cases hstep with
      | same => exact hv q hp hpend
      | settle call id watchable =>
        simp only [Db.settleRow, settlementOf] at hpend
        split_ifs at hpend
      | expire call overdue selected => cases hpend
    · exact hnew.paidAmount

/-- The earlier credits of the intent are worth exactly the records that add nothing to them,
and some record does add something. -/
def Balanced (db : Db) (p : Payment) (hps : List HorizonPayment) : Prop :=
  hps = [] ∨ (db.creditSum p.id = leftOut (db.creditSum p.id) ((db.credits p.id).map (·.txHash))
    hps ∧
    db.creditSum p.id < totalOf hps)

/-- Without earlier credits, that is to say that no two records are of one transaction. -/
theorem balanced_iff_nodup (hnone : db.credits p.id = []) (hpos : ∀ hp ∈ hps, 0 < hp.stroops.getD 0)
    (hmax : totalOf hps ≤ i64Max) : Balanced db p hps ↔ (hps.map (·.hash)).Nodup := by
  have hsum : db.creditSum p.id = 0 := by
    simp only [Db.creditSum, hnone, List.map_nil, List.sum_nil]
  have hiff : leftOut 0 [] hps = 0 ↔ _ := leftOut_eq_zero_iff hpos (by omega)
  rw [Balanced, hsum, hnone, List.map_nil, eq_comm (a := (0 : ℤ)), hiff]
  cases hps with
  | nil => simp
  | cons hp hps =>
    have hlt : 0 < totalOf (hp :: hps) := totalOf_pos hpos (List.cons_ne_nil _ _)
    simp [hlt]

/-- Processing records one after the other with a total below the requested amount leaves
`paid_amount` at that total exactly when the records left out make up for the earlier
credits: where there were none, when no two records are of one transaction. -/
theorem paid_eq_totalOf_iff {w : World} {es : List Event} {now expected : ℤ}
    (h₀ : World.Reaches env (.init now) es w) (hp : p ∈ w.db.payments.rows)
    (hpend : p.status = .pending) (hprice : parseStroops p.amount = some expected)
    (hpays : ∀ x ∈ L, Pays p x.1) (hlt : totalOf (L.map Prod.fst) < expected)
    (hlen : ∀ x ∈ L, Reconcile.maxSteps env ≤ x.2.length)
    (he : ∀ x ∈ L, ∀ f ∈ x.2.head?, strftime f.1 < p.expiresAt) :
    (∃ q ∈ (Reconcile.processAll env L w.db).payments.rows, q.id = p.id ∧
      (paidStroops q = totalOf (L.map Prod.fst) ↔ Balanced w.db p (L.map Prod.fst))) ∧
    (w.db.credits p.id = [] →
      (Balanced w.db p (L.map Prod.fst) ↔ ((L.map Prod.fst).map (·.hash)).Nodup)) := by
  have hpos : ∀ hp ∈ L.map Prod.fst, 0 < hp.stroops.getD 0 := by
    intro hp hin
    obtain ⟨x, hx, rfl⟩ := List.mem_map.mp hin
    exact (hpays x hx).stroops_pos
  have hpaid : paidStroops p = 0 := by
    rw [paidStroops, World.pending_unpaid h₀ p hp hpend]
    rfl
  have hnonneg := (World.Sound.init.reaches h₀).backed.creditSum_nonneg p.id
  have hwatched : Watched w.db p ((w.db.credits p.id).map (·.txHash)) p := by
    refine ⟨hp, rfl, rfl, ?_, hnonneg, fun h => List.mem_map.symm⟩
    rw [hpend]
    rfl
  constructor
  · obtain ⟨q, hq, hid, hshows⟩ := hwatched.processAll hpays hprice hlen he
    refine ⟨q, hq, hid, ?_⟩
    rw [hpaid] at hshows
    cases L with
    | nil =>
      rcases hshows with ⟨-, hsame⟩ | ⟨hlt, -⟩
      · exact iff_of_true hsame (.inl rfl)
      · exact absurd hlt (lt_irrefl _)
    | cons x L =>
      have hcons : (x :: L).map Prod.fst ≠ [] := List.cons_ne_nil _ _
      have hall : 0 < totalOf ((x :: L).map Prod.fst) := totalOf_pos hpos hcons
      rw [Balanced, or_iff_right hcons]
      omega
  · intro hnone
    have hmax := (parseStroops_bounds hprice).2
    exact balanced_iff_nodup hnone hpos (by omega)

/-- An earlier call was cut off after its ledger insert, and its record is processed
again with another one. -/
theorem paid_eq_totalOf_iff_sample :
    let feed := List.replicate 11 ((0 : ℤ), Sample.reply 30)
    let L := [(Sample.record "11" "4.0000000" "TXA" "1", feed),
      (Sample.record "11" "3.0000000" "TXB" "2", feed)]
    let es := Sample.create ++ [Event.reconcile (Sample.record "11" "4.0000000" "TXA" "1")] ++
      Sample.turns 20 [1, 1, 1] ++ [.crash]
    ∃ w p, World.Reaches Sample.env (.init 0) es w ∧ p ∈ w.db.payments.rows ∧
      w.db.creditSum p.id = 40000000 ∧ p.paidAmount = none ∧
      ((∃ q ∈ (Reconcile.processAll Sample.env L w.db).payments.rows, q.id = p.id ∧
        (paidStroops q = totalOf (L.map Prod.fst) ↔ Balanced w.db p (L.map Prod.fst))) ∧
      (w.db.credits p.id = [] →
        (Balanced w.db p (L.map Prod.fst) ↔ ((L.map Prod.fst).map (·.hash)).Nodup))) := by
  intro feed L es
  obtain ⟨w, hw, p, hp, hpend, hsum, hnone, hprice, hpays, he⟩ := exists_of_run
    (World.step Sample.env) (.init 0) es
    (P := fun w => ∃ p ∈ w.db.payments.rows, p.status = .pending ∧ w.db.creditSum p.id = 40000000 ∧
      p.paidAmount = none ∧ parseStroops p.amount = some 100000000 ∧ (∀ x ∈ L, Pays p x.1) ∧
      ∀ x ∈ L, ∀ f ∈ x.2.head?, strftime f.1 < p.expiresAt) (by decide +kernel)
  exact ⟨w, p, hw, hp, hsum, hnone,
    paid_eq_totalOf_iff hw hp hpend hprice hpays (by decide) (by decide) he⟩

/-- Two payment operations of one transaction: the second is taken for a repetition. -/
theorem paid_misses_operation :
    let feed := List.replicate 11 ((0 : ℤ), Sample.reply 30)
    let L := [(Sample.record "11" "4.0000000" "TXA" "1", feed),
      (Sample.record "11" "3.0000000" "TXA" "2", feed)]
    ∃ w p, World.Reaches Sample.env (.init 0) Sample.create w ∧ p ∈ w.db.payments.rows ∧
      p.status = .pending ∧ parseStroops p.amount = some 100000000 ∧ (∀ x ∈ L, Pays p x.1) ∧
      (L.map fun x => x.1.pagingToken).Nodup ∧ totalOf (L.map Prod.fst) = 70000000 ∧
      ∃ q ∈ (Reconcile.processAll Sample.env L w.db).payments.rows, q.id = p.id ∧
      paidStroops q = 40000000 := by
  intro feed L
  obtain ⟨w, hw, p, hp, hpend, hprice, hpays, hq⟩ := exists_of_run
    (World.step Sample.env) (.init 0) Sample.create
    (P := fun w => ∃ p ∈ w.db.payments.rows, p.status = .pending ∧
      parseStroops p.amount = some 100000000 ∧ (∀ x ∈ L, Pays p x.1) ∧
      ∃ q ∈ (Reconcile.processAll Sample.env L w.db).payments.rows, q.id = p.id ∧
        paidStroops q = 40000000) (by decide +kernel)
  exact ⟨w, p, hw, hp, hpend, hprice, hpays, by decide, by decide, hq⟩

end Operations
end StellarGate
