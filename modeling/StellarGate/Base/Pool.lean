import StellarGate.Base.Run

/-! Any number of processes over one store: a process is started by a request and takes
one step at a time; a step may fail, and a process may be cut short. -/
namespace Base
variable {κ π ρ σ : Type*}

/-- A kind of process: how a request starts it, what a step with the answer `r` of the
outside world does, and what a failing step and a crash leave of it. -/
structure Machine (κ π ρ σ : Type*) where
  start : κ → π
  exec : ρ → π → σ → π × σ
  fail : π → π
  cut : π → π

structure Pool (π σ : Type*) where
  store : σ
  procs : List π

inductive Act (κ ρ : Type*) where
  | spawn (q : κ)
  | exec (i : ℕ) (r : ρ)
  | fail (i : ℕ)
  | cut (i : ℕ)

namespace Machine
variable (M : Machine κ π ρ σ)

def step (w : Pool π σ) : Act κ ρ → Option (Pool π σ)
  | .spawn q => some { w with procs := w.procs ++ [M.start q] }
  | .exec i r =>
    match w.procs[i]? with
    | none => none
    | some p => some ⟨(M.exec r p w.store).2, w.procs.set i (M.exec r p w.store).1⟩
  | .fail i =>
    match w.procs[i]? with
    | none => none
    | some p => some { w with procs := w.procs.set i (M.fail p) }
  | .cut i =>
    match w.procs[i]? with
    | none => none
    | some p => some { w with procs := w.procs.set i (M.cut p) }

/-- `P` holds of the process that takes a step, of the answer and of the store before it. -/
def OnExec (P : ρ → π → σ → Prop) (w : Pool π σ) : Act κ ρ → Prop
  | .exec i r => ∀ p ∈ w.procs[i]?, P r p w.store
  | .spawn _ | .fail _ | .cut _ => True

instance (P : ρ → π → σ → Prop) [∀ r p s, Decidable (P r p s)] (w : Pool π σ) :
    ∀ a : Act κ ρ, Decidable (OnExec P w a)
  | .exec i r => inferInstanceAs (Decidable (∀ p ∈ w.procs[i]?, P r p w.store))
  | .spawn _ | .fail _ | .cut _ => .isTrue trivial

variable {M} {w t : Pool π σ} {a : Act κ ρ} {I : σ → Prop} {J : σ → π → Prop}

theorem OnExec.imp {P P' : ρ → π → σ → Prop} (h : ∀ r p s, P r p s → P' r p s) (ha : OnExec P w a) :
    OnExec P' w a := by
  cases a with
  | exec i r => exact fun p hp => h r p w.store (ha p hp)
  | spawn q | fail i | cut i => trivial

theorem step_exec {i : ℕ} {r : ρ} (h : M.step w (.exec i r) = some t) :
    ∃ p, w.procs[i]? = some p ∧
      t = ⟨(M.exec r p w.store).2, w.procs.set i (M.exec r p w.store).1⟩ := by
  simp only [step] at h
  split at h
  · cases h
  · next p hp =>
    cases h
    exact ⟨p, hp, rfl⟩

theorem step_fail {i : ℕ} (h : M.step w (.fail i) = some t) :
    ∃ p, w.procs[i]? = some p ∧ t = { w with procs := w.procs.set i (M.fail p) } := by
  simp only [step] at h
  split at h
  · cases h
  · next p hp =>
    cases h
    exact ⟨p, hp, rfl⟩

theorem step_cut {i : ℕ} (h : M.step w (.cut i) = some t) :
    ∃ p, w.procs[i]? = some p ∧ t = { w with procs := w.procs.set i (M.cut p) } := by
  simp only [step] at h
  split at h
  · cases h
  · next p hp =>
    cases h
    exact ⟨p, hp, rfl⟩

theorem step_store (h : M.step w a = some t) :
    t.store = w.store ∨
      ∃ i r p, a = .exec i r ∧ w.procs[i]? = some p ∧ t.store = (M.exec r p w.store).2 := by
  cases a with
  | spawn q =>
    cases h
    exact .inl rfl
  | exec i r =>
    obtain ⟨p, hp, rfl⟩ := step_exec h
    exact .inr ⟨i, r, p, rfl, hp, rfl⟩
  | fail i =>
    obtain ⟨p, -, rfl⟩ := step_fail h
    exact .inl rfl
  | cut i =>
    obtain ⟨p, -, rfl⟩ := step_cut h
    exact .inl rfl

theorem step_proc {j : ℕ} {p : π} (h : M.step w a = some t) (hp : w.procs[j]? = some p) :
    t.procs[j]? = some p ∨
      (∃ r, a = .exec j r ∧ t = ⟨(M.exec r p w.store).2, w.procs.set j (M.exec r p w.store).1⟩) ∨
      t.procs[j]? = some (M.fail p) ∨ t.procs[j]? = some (M.cut p) := by
  have hlt := (List.getElem?_eq_some_iff.mp hp).1
  cases a with
  | spawn q =>
    cases h
    exact .inl ((List.getElem?_append_left hlt).trans hp)
  | exec i r =>
    obtain ⟨p', hp', rfl⟩ := step_exec h
    by_cases hij : i = j
    · subst hij
      cases Option.some.inj (hp.symm.trans hp')
      exact .inr (.inl ⟨r, rfl, rfl⟩)
    · exact .inl ((List.getElem?_set_ne hij).trans hp)
  | fail i =>
    obtain ⟨p', hp', rfl⟩ := step_fail h
    by_cases hij : i = j
    · subst hij
      cases Option.some.inj (hp.symm.trans hp')
      exact .inr (.inr (.inl (List.getElem?_set_self hlt)))
    · exact .inl ((List.getElem?_set_ne hij).trans hp)
  | cut i =>
    obtain ⟨p', hp', rfl⟩ := step_cut h
    by_cases hij : i = j
    · subst hij
      cases Option.some.inj (hp.symm.trans hp')
      exact .inr (.inr (.inr (List.getElem?_set_self hlt)))
    · exact .inl ((List.getElem?_set_ne hij).trans hp)

theorem forall_mem_set {P : π → Prop} {l : List π} {i : ℕ} {p : π} (hl : ∀ x ∈ l, P x) (hp : P p) :
    ∀ x ∈ l.set i p, P x := by
  intro x hx
  rcases List.mem_or_eq_of_mem_set hx with hx | rfl
  · exact hl x hx
  · exact hp

/-- The invariant rule of a pool: the store keeps `I` and every process keeps `J`, where a
step of one process must not disturb the others. -/
theorem invariant_step {P : ρ → π → σ → Prop} (hstart : ∀ s q, I s → J s (M.start q))
    (hexec : ∀ r p s, P r p s → I s → J s p →
      I (M.exec r p s).2 ∧ J (M.exec r p s).2 (M.exec r p s).1 ∧
        ∀ p', J s p' → J (M.exec r p s).2 p')
    (hfail : ∀ s p, J s p → J s (M.fail p)) (hcut : ∀ s p, J s p → J s (M.cut p))
    (hok : OnExec P w a) (h : M.step w a = some t) (hw : I w.store ∧ ∀ p ∈ w.procs, J w.store p) :
    I t.store ∧ ∀ p ∈ t.procs, J t.store p := by
  obtain ⟨hI, hJ⟩ := hw
  cases a with
  | spawn q =>
    cases h
    refine ⟨hI, fun p hp => ?_⟩
    rcases List.mem_append.mp hp with hp | hp
    · exact hJ p hp
    · rw [List.mem_singleton.mp hp]
      exact hstart _ q hI
  | exec i r =>
    obtain ⟨p, hp, rfl⟩ := step_exec h
    obtain ⟨hI', hJ', hothers⟩ := hexec r p w.store (hok p hp) hI (hJ p (List.mem_of_getElem? hp))
    exact ⟨hI', forall_mem_set (fun p' hp' => hothers p' (hJ p' hp')) hJ'⟩
  | fail i =>
    obtain ⟨p, hp, rfl⟩ := step_fail h
    exact ⟨hI, forall_mem_set hJ (hfail _ p (hJ p (List.mem_of_getElem? hp)))⟩
  | cut i =>
    obtain ⟨p, hp, rfl⟩ := step_cut h
    exact ⟨hI, forall_mem_set hJ (hcut _ p (hJ p (List.mem_of_getElem? hp)))⟩

/-- Where a step keeps the property `Q` of the store exactly when it meets `ok`, the property
holds in every state of a run exactly when every step of the run meets `ok`. -/
theorem always_iff_onExec {Q : σ → Prop} {ok : ρ → π → σ → Prop} {as : List (Act κ ρ)}
    (hstart : ∀ s q, I s → J s (M.start q))
    (hexec : ∀ r p s, I s → J s p → I (M.exec r p s).2 ∧ J (M.exec r p s).2 (M.exec r p s).1 ∧
      ∀ p', J s p' → J (M.exec r p s).2 p')
    (hfail : ∀ s p, J s p → J s (M.fail p)) (hcut : ∀ s p, J s p → J s (M.cut p))
    (hQ : ∀ r p s, I s → J s p → Q s → (Q (M.exec r p s).2 ↔ ok r p s))
    (hr : run M.step w as = some t) (hw : I w.store ∧ ∀ p ∈ w.procs, J w.store p)
    (hq : Q w.store) :
    (∀ bs, bs <+: as → ∀ u, run M.step w bs = some u → Q u.store) ↔
      Along M.step (OnExec ok) w as := by
  have hinv : ∀ v a u, M.step v a = some u → (I v.store ∧ ∀ p ∈ v.procs, J v.store p) →
      I u.store ∧ ∀ p ∈ u.procs, J u.store p := fun v a u h hv =>
    invariant_step (P := fun _ _ _ => True) hstart (fun r p s _ => hexec r p s) hfail hcut
      (by cases a <;> simp [OnExec]) h hv
  refine always_iff_along hinv ?_ hr hw hq
  intro v a u h hv hqv
  cases a with
  | exec i r =>
    obtain ⟨p, hp, rfl⟩ := step_exec h
    have hiff := hQ r p v.store hv.1 (hv.2 p (List.mem_of_getElem? hp)) hqv
    simp only [OnExec, hp, Option.mem_def, Option.some.injEq, forall_eq']
    exact hiff
  | spawn q =>
    cases h
    exact iff_of_true hqv trivial
  | fail i | cut i =>
    rcases step_store h with hs | ⟨_, _, _, ha, -⟩
    · exact iff_of_true (hs ▸ hqv) trivial
    · cases ha

end Machine
end Base
