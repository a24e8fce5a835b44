import StellarGate.Webhook.Attempts

/-! How often the redrive worker takes up one delivery: the passes of `redrive_once` in sequence,
over any table of deliveries. -/
namespace StellarGate
open Base

namespace Jobs

/-- A program that is about to run its redrive worker over these tables. -/
def idleOver (db : Db) : Pool Job Ledger := ⟨⟨db, [], []⟩, []⟩

def isPass : Request → Bool
  | .redriveOnce => true
  | _ => false

def finished : Job → Bool
  | .redrive tasks => tasks.all (· = .done)
  | .done => true
  | _ => false

/-- Passes of `redrive_once` one after the other, where no statement fails and nothing crashes. -/
def InSequence (w : Pool Job Ledger) : Act Request JobReply → Prop
  | .spawn q => isPass q = true ∧ ∀ j ∈ w.procs, finished j = true
  | .exec _ r => r.works = true
  | .fail _ | .cut _ => False

/-- How often `redrive_one` has been run for a delivery, after one more step. -/
def runsOf (site : Site) (id : String) (w : Pool Job Ledger) (a : Act Request JobReply)
    (_ : Pool Job Ledger) (n : ℕ) : ℕ :=
  if deed site w a = .start id then n + 1 else n

def Redriving : Job → Prop
  | .redriveList | .redrive _ => True
  | _ => False

def ofRedrive : Deed → Bool
  | .idle | .pick false _ | .start _ | .block _ | .answer _ _ | .write _ => true
  | _ => false

/-- Passes come one after the other: at most one is not finished. -/
structure Sequential (w : Pool Job Ledger) : Prop where
  jobs : ∀ j ∈ w.procs, Redriving j
  one : ∀ (i k : ℕ) (j j' : Job), w.procs[i]? = some j → w.procs[k]? = some j' →
    finished j = false →
    finished j' = false → i = k

section
variable {site : Site} {id : String} {s t : Ledger} {l m : List Sender} {e : Deed} {n runs init : ℕ}
  {r : JobReply} {w v : Pool Job Ledger} {a : Act Request JobReply}

theorem senders_of_finished {j : Job} (h : finished j = true) : jobSenders j = [] := by
  cases j with
  | redrive tasks =>
    simp only [finished, List.all_eq_true, decide_eq_true_eq] at h
    apply List.flatMap_eq_nil_iff.mpr
    intro x hx
    rw [h x hx]
    rfl
  | done => rfl
  | dispatch _ _ _ _ | redriveList | redeliver _ | requeue _ _ | prune _ | compact _ | pruneKeys _
  | elsewhere _ => cases h

theorem redriving_step {j : Job} (h : Redriving j) : Redriving (step site r j s).1 := by
  cases j with
  | redriveList => trivial
  | redrive tasks =>
    simp only [step, redrive]
    split
    · trivial
    · split_ifs <;> trivial
  | dispatch _ _ _ _ | redeliver _ | requeue _ _ | prune _ | compact _ | pruneKeys _ | elsewhere _
  | done => cases h

theorem finished_step {j : Job} (h : Redriving j) (hf : finished j = true) :
    finished (step site r j s).1 = true := by
  cases j with
  | redrive tasks =>
    simp only [step, redrive]
    split
    · exact hf
    · next x hx =>
      have hdone : x = .done := by
        simp only [finished, List.all_eq_true, decide_eq_true_eq] at hf
        exact hf x (List.mem_of_getElem? hx)
      subst hdone
      simp only [Task.isWaiting, Bool.false_and, Bool.false_eq_true, if_false, redriveOne, finished,
        List.all_eq_true, decide_eq_true_eq] at hf ⊢
      exact Machine.forall_mem_set hf rfl
  | redriveList => cases hf
  | dispatch _ _ _ _ | redeliver _ | requeue _ _ | prune _ | compact _ | pruneKeys _ | elsewhere _
  | done => cases h

theorem Sequential.step (hw : Sequential w) (hok : InSequence w a)
    (h : (machine site).step w a = some v) :
    Sequential v := by
  cases a with
  | spawn q =>
    obtain ⟨hq, hfin⟩ := hok
    cases h
    constructor
    · intro j hj
      rcases List.mem_append.mp hj with hj | hj
      · exact hw.jobs j hj
      · rw [List.mem_singleton.mp hj]
        cases q with
        | redriveOnce => trivial
        | dispatch _ | redeliverWebhook _ _ _ | redeliverWebhooksBulk _ _ | pruneOnce
        | elsewhere _ => cases hq
    · intro i k j j' hj hj' hu hu'
      have hlast : ∀ (i : ℕ) (j : Job), (w.procs ++ [(machine site).start q])[i]? = some j →
          finished j = false → i = w.procs.length := by
        intro i j hj hu
        by_contra hne
        have hmem : j ∈ w.procs := by
          rcases Nat.lt_or_gt_of_ne hne with hlt | hgt
          · rw [List.getElem?_append_left hlt] at hj
            exact List.mem_of_getElem? hj
          · rw [List.getElem?_eq_none (by simp; omega)] at hj
            cases hj
        rw [hfin j hmem] at hu
        cases hu
      rw [hlast i j hj hu, hlast k j' hj' hu']
  | exec i r =>
    obtain ⟨p, hp, rfl⟩ := Machine.step_exec h
    have hred := hw.jobs p (List.mem_of_getElem? hp)
    have hworks : r.works = true := hok
    have hexec : ((machine site).exec r p w.store).1 = (Jobs.step site r p w.store).1 := by
      simp only [machine, hworks, if_true]
    refine ⟨Machine.forall_mem_set hw.jobs (hexec ▸ redriving_step hred), ?_⟩
    have hback : ∀ (k : ℕ) (j : Job),
        (w.procs.set i ((machine site).exec r p w.store).1)[k]? = some j →
        finished j = false → ∃ j₀, w.procs[k]? = some j₀ ∧ finished j₀ = false := by
      intro k j hj hu
      by_cases hik : i = k
      · subst hik
        refine ⟨p, hp, Bool.eq_false_iff.mpr fun hf => ?_⟩
        have hset := List.getElem?_set_self (l := w.procs) (i := i)
          (a := ((machine site).exec r p w.store).1) (List.getElem?_eq_some_iff.mp hp).1
        cases Option.some.inj (hset.symm.trans hj)
        rw [hexec, finished_step hred hf] at hu
        cases hu
      · rw [List.getElem?_set_ne hik] at hj
        exact ⟨j, hj, hu⟩
    intro k k' j j' hj hj' hu hu'
    obtain ⟨j₀, hj₀, hu₀⟩ := hback k j hj hu
    obtain ⟨j₁, hj₁, hu₁⟩ := hback k' j' hj' hu'
    exact hw.one k k' j₀ j₁ hj₀ hj₁ hu₀ hu₁
  | fail i | cut i => cases hok

/-- What the passes do, and that a listing finds no sender at work. -/
theorem Sequential.deed (hw : Sequential w) (hok : InSequence w a) (id : String) :
    ofRedrive (deed site w a) = true ∧ Alone id (senders w) (deed site w a) := by
  cases a with
  | spawn q => exact ⟨rfl, trivial⟩
  | exec i r =>
    have hworks : r.works = true := hok
    simp only [Jobs.deed]
    cases hp : w.procs[i]? with
    | none => exact ⟨rfl, trivial⟩
    | some p =>
      simp only [hworks, if_true]
      have hred := hw.jobs p (List.mem_of_getElem? hp)
      cases p with
      | redriveList =>
        have hnone : senders w = [] := by
          apply List.flatMap_eq_nil_iff.mpr
          intro j hj
          obtain ⟨k, hk⟩ := List.mem_iff_getElem?.mp hj
          by_cases hfin : finished j = true
          · exact senders_of_finished hfin
          · have hik := hw.one i k _ j hp hk rfl (Bool.eq_false_iff.mpr hfin)
            subst hik
            cases Option.some.inj (hp.symm.trans hk)
            rfl
        rw [hnone]
        exact ⟨rfl, fun _ x hx => absurd hx List.not_mem_nil⟩
      | redrive tasks =>
        simp only [jobDeed, redriveDeed]
        split
        · exact ⟨rfl, trivial⟩
        · next x _ =>
          split_ifs
          · exact ⟨rfl, trivial⟩
          · cases x with
            | connect d =>
              simp only [taskDeed]
              split_ifs <;> exact ⟨rfl, trivial⟩
            | waiting d | post d | finish d _ _ | done => exact ⟨rfl, trivial⟩
      | dispatch _ _ _ _ | redeliver _ | requeue _ _ | prune _ | compact _ | pruneKeys _
      | elsewhere _ | done => cases hred
  | fail i | cut i => cases hok

/-- The senders of a delivery that run and have not sent yet. -/
def owing (id : String) (l : List Sender) : ℕ :=
  l.countP fun x => x.id = id && x.running && x.due.isNone

/-- Every run of `redrive_one` sends once, and starts below the cap. -/
structure Paced (site : Site) (id : String) (init : ℕ) (l : List Sender) (n runs : ℕ) : Prop where
  runs : runs + init = n + owing id l
  cap : ∀ x ∈ l, x.id = id → x.base < site.config.redriveMaxAttempts ∧ (x.due = none → x.sent = 0)
  bound : (n : ℤ) ≤ max site.config.redriveMaxAttempts init

theorem owing_append (x : Sender) : owing id (l ++ x :: m) =
    owing id (l ++ m) + if x.id = id ∧ x.running = true ∧ x.due = none then 1 else 0 := by
  unfold owing
  rw [List.countP_append, List.countP_append, List.countP_cons]
  simp only [Bool.and_eq_true, decide_eq_true_eq, Option.isNone_iff_eq_none, and_assoc]
  omega

/-- A sender goes on. -/
theorem Paced.cap_replace {x y : Sender} (h : Paced site id init (l ++ x :: m) n runs)
    (hid : y.id = x.id) (hbase : y.base = x.base) (hsent : y.due = none → y.sent = 0) :
    ∀ z ∈ l ++ y :: m, z.id = id → z.base < site.config.redriveMaxAttempts ∧
      (z.due = none → z.sent = 0) := by
  intro z hz hzid
  simp only [List.mem_append, List.mem_cons] at hz
  rcases hz with hz | rfl | hz
  · exact h.cap z (by simp [hz]) hzid
  · rw [hbase]
    exact ⟨(h.cap x (by simp) (hid.symm.trans hzid)).1, hsent⟩
  · exact h.cap z (by simp [hz]) hzid

theorem Paced.finish {x : Sender} (h : Paced site id init (l ++ x :: m) n runs)
    (hdue : x.due ≠ none) :
    Paced site id init (l ++ m) n runs := by
  have hruns := h.runs
  rw [owing_append, if_neg fun hx => hdue hx.2.2] at hruns
  refine ⟨hruns, fun z hz => h.cap z ?_, h.bound⟩
  simp only [List.mem_append, List.mem_cons] at hz ⊢
  tauto

theorem Paced.pick {ds : List WebhookDelivery} (h : Paced site id init (l ++ m) n runs)
    (hcap : ∀ d ∈ ds, d.attempts < site.config.redriveMaxAttempts) :
    Paced site id init (l ++ (ds.map (Sender.of · false) ++ m)) n runs := by
  have hzero : (ds.map (Sender.of · false)).countP
      (fun x => x.id = id && x.running && x.due.isNone) = 0 := by
    apply List.countP_eq_zero.mpr
    intro x hx
    obtain ⟨d, -, rfl⟩ := List.mem_map.mp hx
    simp [Sender.of]
  refine ⟨?_, ?_, h.bound⟩
  · have hruns := h.runs
    unfold owing at hruns ⊢
    rw [List.countP_append] at hruns
    rw [List.countP_append, List.countP_append, hzero]
    omega
  · intro z hz hzid
    simp only [List.mem_append, List.mem_map] at hz
    rcases hz with hz | ⟨d, hd, rfl⟩ | hz
    · exact h.cap z (by simp [hz]) hzid
    · exact ⟨hcap d hd, fun _ => rfl⟩
    · exact h.cap z (by simp [hz]) hzid

theorem Paced.start {d : WebhookDelivery} (h : Paced site id init (l ++ .of d false :: m) n runs) :
    Paced site id init (l ++ .of d true :: m) n (if d.id = id then runs + 1 else runs) := by
  refine ⟨?_, h.cap_replace rfl rfl fun _ => rfl, h.bound⟩
  have hruns := h.runs
  rw [owing_append, if_neg (by simp [Sender.of])] at hruns
  rw [owing_append]
  by_cases hid : d.id = id
  · rw [if_pos hid, if_pos (by simp [Sender.of, hid])]
    omega
  · rw [if_neg hid, if_neg (by simp [Sender.of, hid])]
    exact hruns

theorem Paced.other {x y : Sender} (h : Paced site id init (l ++ x :: m) n runs) (hx : x.id ≠ id)
    (hid : y.id = x.id) : Paced site id init (l ++ y :: m) n runs := by
  have hy : y.id ≠ id := hid ▸ hx
  have hruns := h.runs
  rw [owing_append, if_neg fun hand => hx hand.1] at hruns
  refine ⟨?_, fun z hz hzid => h.cap z ?_ hzid, h.bound⟩
  · rw [owing_append, if_neg fun hand => hy hand.1]
    exact hruns
  · simp only [List.mem_append, List.mem_cons] at hz ⊢
    rcases hz with hz | rfl | hz
    · exact .inl hz
    · exact absurd hzid hy
    · exact .inr (.inr hz)

theorem Paced.answer {base : ℤ} {j : ℕ} {stored : Bool} {o : DeliveryStatus × ℤ}
    (h : Paced site id init (l ++ ⟨id, base, j, true, stored, none⟩ :: m) n runs)
    (hcount : base + (j : ℤ) = n) :
    Paced site id init (l ++ ⟨id, base, j + 1, true, stored, some o⟩ :: m) (n + 1) runs := by
  obtain ⟨hcap, hzero⟩ := h.cap ⟨id, base, j, true, stored, none⟩ (by simp) rfl
  have hj : j = 0 := hzero rfl
  have hbase : base < site.config.redriveMaxAttempts := hcap
  have hruns := h.runs
  rw [owing_append, if_pos ⟨rfl, rfl, rfl⟩] at hruns
  refine ⟨?_, h.cap_replace rfl rfl (by simp), ?_⟩
  · rw [owing_append, if_neg (by simp)]
    omega
  · push_cast
    omega

theorem Move.paced (h : Move site e l s m t) (he : ofRedrive e = true) (hblock : e ≠ .block id)
    (hc : Counted id l s n) (hp : Paced site id init l n runs) :
    Paced site id init m (if restarts id e then 0 else n + (postsFor id t - postsFor id s))
      (if e = .start id then runs + 1 else runs) := by
  have hquiet (hsent : t.sent = s.sent) : n + (postsFor id t - postsFor id s) = n := by
    unfold postsFor
    rw [hsent]
    omega
  cases h with
  | idle _ _ _ hsent =>
    rw [hquiet hsent]
    exact hp
  | @pick a b _ ds manual _ _ hcap =>
    rw [hquiet rfl]
    cases manual with
    | false => exact hp.pick (hcap rfl)
    | true => cases he
  | start a b _ d =>
    rw [hquiet rfl]
    simpa only [restarts, Bool.false_eq_true, if_false, Deed.start.injEq] using hp.start
  | @block a b _ i base stored =>
    rw [hquiet rfl]
    have hid : i ≠ id := fun hid => hblock (by rw [hid])
    exact hp.other hid rfl
  | @answer a b _ _ i base j stored ok p status _ _ _ hsent =>
    have hposts := postsFor_sent id hsent
    by_cases hid : i = id
    · subst hid
      have htrack := hc.busy ⟨i, base, j, true, stored, none⟩ (by simp) rfl
      have hone : postsFor i t - postsFor i s = 1 := by
        rw [hposts, if_pos ⟨htrack.stored, rfl⟩]
        omega
      rw [hone]
      exact hp.answer htrack.count
    · have hnone : postsFor id t - postsFor id s = 0 := by
        rw [hposts, if_neg fun hand => hid hand.2]
        omega
      rw [hnone]
      exact hp.other hid rfl
  | write a b =>
    rw [hquiet rfl]
    exact hp.finish (by simp)
  | store _ _ _ _ _ _ _ | unsaved _ _ _ _ | quit _ _ _ _ | retry _ _ _ _ _ | requeue _ | retain _ _
  | lost _ _ _ _ => cases he

/-- The bound that the pace implies, and that an exhausted delivery is not listed again. -/
theorem Paced.bounded (hc : Counted id l s n) (hp : Paced site id init l n runs) :
    runs ≤ (site.config.redriveMaxAttempts - init).toNat ∧
    ((site.config.redriveMaxAttempts - init).toNat ≤ runs → (∀ x ∈ l, x.id ≠ id) →
      ∀ now random tie, ∀ d ∈ s.db.listRedrivableDeliveries site.config now random tie,
        d.id ≠ id) := by
  have hruns := hp.runs
  have hbound := hp.bound
  by_cases howing : owing id l = 0
  · -- nothing is owed: the runs are the POSTs
    refine ⟨by omega, fun hfull hidle now random tie d hd hid => ?_⟩
    obtain ⟨row, hrow, hred, rfl⟩ := mem_listRedrivable.mp hd
    have hlt := attempts_of_redrivable hred
    have hatt : row.attempts = n := hc.idle hidle row hrow hid
    omega
  · -- one run has not sent yet, and it started below the cap
    obtain ⟨x, hx, hax⟩ := List.countP_pos_iff.mp (Nat.pos_of_ne_zero howing)
    simp only [Bool.and_eq_true, decide_eq_true_eq, Option.isNone_iff_eq_none] at hax
    have hone : owing id l ≤ l.countP (·.id = id) := List.countP_mono_left fun y _ hy => by
      simp only [Bool.and_eq_true] at hy
      exact hy.1.1
    have hle := hc.one
    have hcount := (hc.busy x hx hax.1.1).count
    obtain ⟨hcap, hsent⟩ := hp.cap x hx hax.1.1
    rw [hsent hax.2] at hcount
    refine ⟨by push_cast at hcount; omega, fun _ hidle => absurd hax.1.1 (hidle x hx)⟩

end

/-- No row counts below zero, and no sender is about to write such a count. -/
structure Nonneg (l : List Sender) (s : Ledger) : Prop where
  rows : ∀ d ∈ s.db.webhookDeliveries.rows, 0 ≤ d.attempts
  senders : ∀ x ∈ l, 0 ≤ x.base ∧ ∀ o ∈ x.due, 0 ≤ o.2

theorem Nonneg.replace {a b : List Sender} {x y : Sender} {s : Ledger} (h : Nonneg (a ++ x :: b) s)
    (hy : 0 ≤ x.base → 0 ≤ y.base ∧ ∀ o ∈ y.due, 0 ≤ o.2) :
    ∀ z ∈ a ++ y :: b, 0 ≤ z.base ∧ ∀ o ∈ z.due, 0 ≤ o.2 := by
  intro z hz
  simp only [List.mem_append, List.mem_cons] at hz
  rcases hz with hz | rfl | hz
  · exact h.senders z (by simp [hz])
  · exact hy (h.senders x (by simp)).1
  · exact h.senders z (by simp [hz])

theorem Nonneg.join {a b c : List Sender} {s : Ledger} (h : Nonneg (a ++ b) s)
    (hc : ∀ z ∈ c, 0 ≤ z.base ∧ ∀ o ∈ z.due, 0 ≤ o.2) :
    ∀ z ∈ a ++ (c ++ b), 0 ≤ z.base ∧ ∀ o ∈ z.due, 0 ≤ o.2 := by
  intro z hz
  simp only [List.mem_append] at hz
  rcases hz with hz | hz | hz
  · exact h.senders z (by simp [hz])
  · exact hc z hz
  · exact h.senders z (by simp [hz])

theorem Move.nonneg {site : Site} {e : Deed} {l m : List Sender} {s t : Ledger}
    (h : Move site e l s m t) (hl : Nonneg l s) : Nonneg m t := by
  cases h with
  | idle _ hrows _ _ => exact ⟨hrows ▸ hl.rows, hl.senders⟩
  | store a b hrows hnew _ _ _ =>
    refine ⟨fun d hd => ?_, hl.join (c := [_]) (by simp)⟩
    rw [hrows] at hd
    rcases List.mem_append.mp hd with hd | hd
    · exact hl.rows d hd
    · rw [List.mem_singleton.mp hd, hnew.2]
  | unsaved a b _ i => exact ⟨hl.rows, hl.join (c := [_]) (by simp)⟩
  | pick a b hrows _ _ =>
    refine ⟨hl.rows, hl.join fun z hz => ?_⟩
    obtain ⟨d, hd, rfl⟩ := List.mem_map.mp hz
    obtain ⟨row, hrow, rfl⟩ := hrows d hd
    have hrow' := hl.rows row hrow
    exact ⟨hrow', fun o ho => nomatch ho⟩
  | start a b _ d => exact ⟨hl.rows, hl.replace fun h => ⟨h, fun o ho => nomatch ho⟩⟩
  | quit a b _ d =>
    refine ⟨hl.rows, fun z hz => hl.senders z ?_⟩
    simp only [List.mem_append, List.mem_cons] at hz ⊢
    tauto
  | block a b _ =>
    refine ⟨hl.rows, hl.replace fun h => ⟨h, ?_⟩⟩
    rintro o ⟨⟩
    exact h
  | retry a b hdb _ _ => exact ⟨hdb ▸ hl.rows, hl.replace fun h => ⟨h, fun o ho => nomatch ho⟩⟩
  | @answer a b _ _ _ base n _ _ _ _ _ hdb _ _ =>
    refine ⟨hdb ▸ hl.rows, hl.replace fun h => ⟨h, ?_⟩⟩
    rintro o ⟨⟩
    have hbase : 0 ≤ base := h
    have hsum : 0 ≤ base + (n + 1) := by omega
    exact hsum
  | @write a b _ i base now n stored status attempts =>
    constructor
    · intro d hd
      obtain ⟨d₀, hd₀, rfl⟩ := (Table.mem_update (Db.deliveryRow_keys now status attempts)).mp hd
      split_ifs
      · exact (hl.senders ⟨i, base, n, true, stored, some (status, attempts)⟩ (by simp)).2 _ rfl
      · exact hl.rows d₀ hd₀
    · intro z hz
      refine hl.senders z ?_
      simp only [List.mem_append, List.mem_cons] at hz ⊢
      tauto
  | @requeue _ _ now _ _ =>
    refine ⟨fun d hd => ?_, hl.senders⟩
    obtain ⟨d₀, hd₀, rfl⟩ := (Table.mem_update (Db.requeueRow_keys now)).mp hd
    split_ifs
    · exact le_rfl
    · exact hl.rows d₀ hd₀
  | retain _ hrows =>
    refine ⟨fun d hd => ?_, hl.senders⟩
    obtain ⟨d₀, hd₀, -, -, hatt⟩ := hrows d hd
    rw [hatt]
    exact hl.rows d₀ hd₀
  | lost a b c _ =>
    refine ⟨hl.rows, fun z hz => hl.senders z ?_⟩
    simp only [List.mem_append] at hz ⊢
    tauto

/-- The count of a stored delivery never falls below zero. -/
theorem attempts_nonneg {site : Site} {db : Db} {as : List (Act Request JobReply)}
    {w : Pool Job Ledger} (hr : run (machine site).step (begin db) as = some w) :
    ∀ d ∈ w.store.db.webhookDeliveries.rows, 0 ≤ d.attempts := by
  have hinv := run_invariant
    (I := fun x : Pool Job Ledger => (∀ j ∈ x.procs, Ready site j) ∧ Nonneg (senders x) x.store)
    (fun x a y h hx => ⟨readyStep h hx.1, (step_move hx.1 h).nonneg hx.2⟩) hr
    ⟨(fun j hj => nomatch hj), ⟨(fun d hd => nomatch hd), fun x hx => nomatch hx⟩⟩
  exact hinv.2.rows

/-- The passes come one after the other, and `safe_client` refuses no run for the delivery. -/
def Unblocked (site : Site) (id : String) (w : Pool Job Ledger) (a : Act Request JobReply) : Prop :=
  InSequence w a ∧ deed site w a ≠ .block id

/-- Where `safe_client` refuses no run of `redrive_one` for a delivery, it is run for it at most as
often as the cap leaves attempts, and then the delivery is not listed again. -/
theorem redrive_bounded {site : Site} {db : Db} {d : WebhookDelivery}
    {as : List (Act Request JobReply)} {w : Pool Job Ledger} (hd : d ∈ db.webhookDeliveries.rows)
    (hatt : 0 ≤ d.attempts) (hr : run (machine site).step (idleOver db) as = some w)
    (hok : Along (machine site).step (Unblocked site d.id) (idleOver db) as) :
    let runs := observe (machine site).step (runsOf site d.id) 0 (idleOver db) as
    runs ≤ site.config.redriveMaxAttempts.toNat ∧
    runs ≤ (site.config.redriveMaxAttempts - d.attempts).toNat ∧
    ((site.config.redriveMaxAttempts - d.attempts).toNat ≤ runs → (∀ x ∈ senders w, x.id ≠ d.id) →
      ∀ now random tie, ∀ d' ∈ w.store.db.listRedrivableDeliveries site.config now random tie,
        d'.id ≠ d.id) := by
  intro runs
  obtain ⟨init, hinit⟩ := Int.eq_ofNat_of_zero_le hatt
  have hstart : Counted d.id (senders (idleOver db)) (idleOver db).store init := by
    refine ⟨by simp [senders, idleOver], (fun x hx => absurd hx List.not_mem_nil),
      fun _ d' hd' hid => ?_⟩
    have hsame : d' = d := Table.eq_of_key (k := WebhookDelivery.id) (by simp) hd' hd hid
    rw [hsame]
    exact hinit
  have hpaced : Paced site d.id init (senders (idleOver db)) init 0 :=
    ⟨by simp [senders, idleOver, owing], (fun x hx => absurd hx List.not_mem_nil), le_max_right _ _⟩
  have hinv := hok.observe (f := runsOf site d.id) (g := 0)
    (I := fun x runs => Sequential x ∧ (∀ j ∈ x.procs, Ready site j) ∧ ∃ n,
      Counted d.id (senders x) x.store n ∧ Paced site d.id init (senders x) n runs)
    (fun x a y runs hok h hx => by
      obtain ⟨hseq, hready, n, hc, hp⟩ := hx
      obtain ⟨hkind, halone⟩ := hseq.deed hok.1 d.id
      have hmove := step_move hready h
      exact ⟨hseq.step hok.1 h, readyStep h hready, _, hmove.counted halone hc,
        hmove.paced hkind hok.2 hc hp⟩) hr
    ⟨⟨(fun j hj => absurd hj List.not_mem_nil), fun i k j j' hj => by cases hj⟩,
      (fun j hj => absurd hj List.not_mem_nil), init, hstart, hpaced⟩
  obtain ⟨-, -, n, hc, hp⟩ := hinv
  obtain ⟨hle, hlast⟩ := Paced.bounded hc hp
  rw [hinit]
  refine ⟨?_, hle, hlast⟩
  calc
    runs ≤ (site.config.redriveMaxAttempts - init).toNat := hle
    _ ≤ site.config.redriveMaxAttempts.toNat := by omega

instance (w : Pool Job Ledger) : ∀ a, Decidable (InSequence w a)
  | .spawn q => inferInstanceAs (Decidable (isPass q = true ∧ ∀ j ∈ w.procs, finished j = true))
  | .exec _ r => inferInstanceAs (Decidable (r.works = true))
  | .fail _ | .cut _ => .isFalse fun h => h

instance (site : Site) (id : String) (w : Pool Job Ledger) (a : Act Request JobReply) :
    Decidable (Unblocked site id w a) :=
  inferInstanceAs (Decidable (_ ∧ _))

namespace Sample

def owed : WebhookDelivery :=
  ⟨"d1", "p1", "https://shop.example/hook", "{}", some "payment.completed", .pending, 0, none, none,
    "2026-04-29T15:00:00Z"⟩

def owing : Db := { Db.empty with webhookDeliveries := ⟨[owed], by simp⟩ }

/-- Job `i` is a pass, an hour after the one before, with the answer of `safe_client`; the receiver
refuses what is sent. -/
def pass (safe : Bool) (i : ℕ) : List (Act Request JobReply) :=
  let now : ℤ := 1777480000 + 3600 * i
  [.spawn .redriveOnce, .exec i (reply now true "x"), .exec i (reply now true "x"), .exec i
    (reply now safe "x"), .exec i (reply now false "x"), .exec i (reply now true "x")]

end Sample

theorem redrive_bounded_refused : ∃ w,
    run (machine Sample.site).step (idleOver Sample.owing)
      ((List.range 8).flatMap (Sample.pass true)) = some w ∧
    observe (machine Sample.site).step (runsOf Sample.site "d1") 0 (idleOver Sample.owing)
      ((List.range 8).flatMap (Sample.pass true)) = 8 ∧
    ∀ now random tie, ∀ d ∈ w.store.db.listRedrivableDeliveries Sample.site.config now random tie,
      d.id ≠ "d1" := by
  obtain ⟨w, hw, hidle⟩ := exists_of_run (machine Sample.site).step (idleOver Sample.owing)
    ((List.range 8).flatMap (Sample.pass true)) (P := fun w => senders w = []) (by decide +kernel)
  have hruns : observe (machine Sample.site).step (runsOf Sample.site "d1") 0
      (idleOver Sample.owing) ((List.range 8).flatMap (Sample.pass true)) = 8 := by decide +kernel
  have hbound := redrive_bounded (d := Sample.owed) (by simp [Sample.owing]) (by decide) hw
    (by decide +kernel)
  refine ⟨w, hw, hruns, hbound.2.2 ?_ ?_⟩
  · exact hruns.ge
  · rw [hidle]
    exact fun x hx => absurd hx List.not_mem_nil

/-- A target that stays blocked is tried again for ever: after nine runs, with a cap of eight, the
delivery is still listed. -/
theorem blocked_redriven_on : ∃ w,
    run (machine Sample.site).step (idleOver Sample.owing)
      ((List.range 9).flatMap (Sample.pass false)) = some w ∧
    Along (machine Sample.site).step InSequence (idleOver Sample.owing)
      ((List.range 9).flatMap (Sample.pass false)) ∧
    observe (machine Sample.site).step (runsOf Sample.site "d1") 0 (idleOver Sample.owing)
      ((List.range 9).flatMap (Sample.pass false)) = 9 ∧
    Sample.site.config.redriveMaxAttempts = 8 ∧
    (w.store.db.listRedrivableDeliveries Sample.site.config 1777600000 (fun _ => 0) fun _ => 0).map
      WebhookDelivery.id = ["d1"] := by
  obtain ⟨w, hw, hlisted⟩ := exists_of_run (machine Sample.site).step (idleOver Sample.owing)
    ((List.range 9).flatMap (Sample.pass false))
    (P := fun w => (w.store.db.listRedrivableDeliveries Sample.site.config 1777600000 (fun _ => 0)
      fun _ => 0).map WebhookDelivery.id = ["d1"]) (by decide +kernel)
  exact ⟨w, hw, by decide +kernel, by decide +kernel, rfl, hlisted⟩

end Jobs
end StellarGate
