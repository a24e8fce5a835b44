import Mathlib.Algebra.Ring.Nat
import Mathlib.Data.List.Forall2
import Mathlib.Tactic.Common

/-! Runs of a labelled transition function. `none` means that the event is not
enabled in the state. -/
namespace Base
variable {σ ε : Type*}

/-- Take the events in order, stopping at the first one that is not enabled. -/
def run (step : σ → ε → Option σ) : σ → List ε → Option σ
  | s, [] => some s
  | s, e :: es =>
    match step s e with
    | none => none
    | some t => run step t es

/-- Every step of the run meets `ok` in the state it starts from. -/
def Along (step : σ → ε → Option σ) (ok : σ → ε → Prop) : σ → List ε → Prop
  | _, [] => True
  | s, e :: es =>
    ok s e ∧
    match step s e with
    | none => True
    | some t => Along step ok t es

instance Along.decidable (step : σ → ε → Option σ) (ok : σ → ε → Prop)
    [∀ s e, Decidable (ok s e)] : ∀ s es, Decidable (Along step ok s es)
  | _, [] => .isTrue trivial
  | s, e :: es =>
    match h : step s e with
    | none => decidable_of_iff (ok s e) (by simp [Along, h])
    | some t =>
      have := Along.decidable step ok t es
      decidable_of_iff (ok s e ∧ Along step ok t es) (by simp [Along, h])

variable {step : σ → ε → Option σ} {ok : σ → ε → Prop} {I : σ → Prop} {s t u : σ}
  {e : ε} {es fs : List ε}

theorem run_cons : run step s (e :: es) = some u ↔ ∃ t, step s e = some t ∧
    run step t es = some u := by
  cases h : step s e <;> simp [run, h]

theorem run_append (h : run step s es = some t) (hf : run step t fs = some u) :
    run step s (es ++ fs) = some u := by
  induction es generalizing s with
  | nil =>
    cases h
    exact hf
  | cons e es ih =>
    obtain ⟨v, hv, hr⟩ := run_cons.mp h
    exact run_cons.mpr ⟨v, hv, ih hr⟩

theorem run_split (h : run step s (es ++ fs) = some u) :
    ∃ t, run step s es = some t ∧ run step t fs = some u := by
  induction es generalizing s with
  | nil => exact ⟨s, rfl, h⟩
  | cons e es ih =>
    obtain ⟨v, hv, hr⟩ := run_cons.mp h
    obtain ⟨t, ht, hf⟩ := ih hr
    exact ⟨t, run_cons.mpr ⟨v, hv, ht⟩, hf⟩

theorem exists_of_run (step : σ → ε → Option σ) (s : σ) (es : List ε) {P : σ → Prop}
    [DecidablePred P] (h : (run step s es).any (fun t => decide (P t)) = true) :
    ∃ t, run step s es = some t ∧ P t := by
  cases hr : run step s es with
  | none => simp [hr] at h
  | some t => exact ⟨t, rfl, by simpa [hr] using h⟩

/-- An invariant kept by every step that meets the condition holds at the end of
every run whose steps all meet it. -/
theorem Along.invariant (hstep : ∀ s e t, ok s e → step s e = some t → I s → I t)
    (ha : Along step ok s es) (hr : run step s es = some t) (hs : I s) : I t := by
  induction es generalizing s with
  | nil =>
    cases hr
    exact hs
  | cons e es ih =>
    obtain ⟨v, hv, hr⟩ := run_cons.mp hr
    simp only [Along, hv] at ha
    exact ih ha.2 hr (hstep s e v ha.1 hv hs)

/-- What one of the events establishes and every step keeps holds at the end. -/
theorem Along.after {Q : σ → Prop} (hstep : ∀ s e t, ok s e → step s e = some t → I s → I t)
    (hest : ∀ s t, ok s e → step s e = some t → I s → Q t)
    (hkeep : ∀ s e t, ok s e → step s e = some t → I s → Q s → Q t)
    (he : e ∈ es) (ha : Along step ok s es) (hr : run step s es = some t) (hs : I s) : Q t := by
  induction es generalizing s with
  | nil => exact absurd he List.not_mem_nil
  | cons f es ih =>
    obtain ⟨v, hv, hrest⟩ := run_cons.mp hr
    simp only [Along, hv] at ha
    rcases List.mem_cons.mp he with rfl | he
    · have hboth := Along.invariant (I := fun s => I s ∧ Q s)
        (fun s e t ho h hi => ⟨hstep s e t ho h hi.1, hkeep s e t ho h hi.1 hi.2⟩)
        ha.2 hrest ⟨hstep s e v ha.1 hv hs, hest s v ha.1 hv hs⟩
      exact hboth.2
    · exact ih he ha.2 hrest (hstep s f v ha.1 hv hs)

/-- What is kept on record along a run: each step updates it from the states around it. -/
def observe {γ : Type*} (step : σ → ε → Option σ) (f : σ → ε → σ → γ → γ) : γ → σ → List ε → γ
  | g, _, [] => g
  | g, s, e :: es =>
    match step s e with
    | none => g
    | some t => observe step f (f s e t g) t es

theorem Along.observe {γ : Type*} {f : σ → ε → σ → γ → γ} {I : σ → γ → Prop} {g : γ}
    (hstep : ∀ s e t g, ok s e → step s e = some t → I s g → I t (f s e t g))
    (ha : Along step ok s es) (hr : run step s es = some t) (hs : I s g) :
    I t (observe step f g s es) := by
  induction es generalizing s g with
  | nil =>
    cases hr
    exact hs
  | cons e es ih =>
    obtain ⟨v, hv, hr⟩ := run_cons.mp hr
    simp only [Along, hv] at ha
    simp only [Base.observe, hv]
    exact ih ha.2 hr (hstep s e v g ha.1 hv hs)

/-- Where a step keeps a property exactly when it meets the condition, the property holds
in every state of a run exactly when every step meets the condition. -/
theorem always_iff_along {P : σ → Prop} (hstep : ∀ s e t, step s e = some t → I s → I t)
    (hP : ∀ s e t, step s e = some t → I s → P s → (P t ↔ ok s e))
    (hr : run step s es = some t) (hs : I s) (hPs : P s) :
    (∀ fs, fs <+: es → ∀ u, run step s fs = some u → P u) ↔ Along step ok s es := by
  induction es generalizing s with
  | nil =>
    refine iff_of_true (fun fs hfs u hu => ?_) trivial
    rw [List.prefix_nil.mp hfs] at hu
    cases hu
    exact hPs
  | cons e es ih =>
    obtain ⟨v, hv, hrest⟩ := run_cons.mp hr
    have hiff := hP s e v hv hs hPs
    simp only [Along, hv]
    constructor
    · intro hall
      have hPv : P v := hall [e] ⟨es, rfl⟩ v (run_cons.mpr ⟨v, hv, rfl⟩)
      refine ⟨hiff.mp hPv, (ih hrest (hstep s e v hv hs) hPv).mp fun fs hfs u hu => ?_⟩
      exact hall (e :: fs) (List.cons_prefix_cons.mpr ⟨rfl, hfs⟩) u (run_cons.mpr ⟨v, hv, hu⟩)
    · rintro ⟨hok, ha⟩ fs hfs u hu
      cases fs with
      | nil =>
        cases hu
        exact hPs
      | cons f fs =>
        obtain ⟨rfl, htail⟩ := List.cons_prefix_cons.mp hfs
        obtain ⟨v', hv', hu'⟩ := run_cons.mp hu
        cases hv.symm.trans hv'
        exact (ih hrest (hstep s f v hv hs) (hiff.mpr hok)).mpr ha fs htail u hu'

theorem Along.imp {ok' : σ → ε → Prop} (h : ∀ s e, ok s e → ok' s e) (ha : Along step ok s es) :
    Along step ok' s es := by
  induction es generalizing s with
  | nil => trivial
  | cons e es ih =>
    obtain ⟨he, hrest⟩ := ha
    refine ⟨h s e he, ?_⟩
    cases hs : step s e with
    | none => trivial
    | some t =>
      rw [hs] at hrest
      exact ih hrest

theorem Along.and {ok' : σ → ε → Prop} (ha : Along step ok s es) (hb : Along step ok' s es) :
    Along step (fun s e => ok s e ∧ ok' s e) s es := by
  induction es generalizing s with
  | nil => trivial
  | cons e es ih =>
    obtain ⟨he, hrest⟩ := ha
    obtain ⟨he', hrest'⟩ := hb
    refine ⟨⟨he, he'⟩, ?_⟩
    cases hs : step s e with
    | none => trivial
    | some t =>
      rw [hs] at hrest hrest'
      exact ih hrest hrest'

/-- What holds of the events in whatever state they come holds along the run. -/
theorem along_of_forall (h : ∀ e ∈ es, ∀ s, ok s e) : Along step ok s es := by
  induction es generalizing s with
  | nil => exact trivial
  | cons e es ih =>
    refine ⟨h e List.mem_cons_self s, ?_⟩
    cases step s e with
    | none => exact trivial
    | some v => exact ih fun e he => h e (List.mem_cons_of_mem _ he)

theorem along_true : Along step (fun _ _ => True) s es := by
  induction es generalizing s with
  | nil => trivial
  | cons e es ih =>
    refine ⟨trivial, ?_⟩
    cases step s e with
    | none => trivial
    | some v => exact ih

theorem run_invariant (hstep : ∀ s e t, step s e = some t → I s → I t)
    (hr : run step s es = some t) (hs : I s) : I t :=
  (along_true : Along step (fun _ _ => True) s es).invariant (fun s e t _ => hstep s e t) hr hs

/-- A reflexive and transitive relation kept by every step from a state that
satisfies the invariant relates the two ends of a run. -/
theorem run_relation {R : σ → σ → Prop} (hrefl : ∀ s, R s s)
    (htrans : ∀ s t u, R s t → R t u → R s u)
    (hstep : ∀ s e t, step s e = some t → I s → R s t ∧ I t)
    (hr : run step s es = some t) (hs : I s) : R s t := by
  induction es generalizing s with
  | nil =>
    cases hr
    exact hrefl _
  | cons e es ih =>
    obtain ⟨v, hv, hr⟩ := run_cons.mp hr
    obtain ⟨hsv, hv⟩ := hstep s e v hv hs
    exact htrans s v t hsv (ih hr hv)

/-! A pool of processes, one of which takes a step. -/
section Pool
variable {α : Type*} {l : List α} {i : ℕ} {a b c : α}

theorem mem_set_of_mem (h : l[i]? = some a) (hc : c ∈ l) : c = a ∨ c ∈ l.set i b := by
  obtain ⟨j, hj⟩ := List.mem_iff_getElem?.mp hc
  by_cases hij : i = j
  · subst hij
    exact .inl (Option.some.inj (hj.symm.trans h))
  · exact .inr (List.mem_iff_getElem?.mpr ⟨j, by rwa [List.getElem?_set_ne hij]⟩)

theorem mem_set_self (h : l[i]? = some a) : b ∈ l.set i b := by
  obtain ⟨hi, -⟩ := List.getElem?_eq_some_iff.mp h
  exact List.mem_set hi b

theorem set_self (h : l[i]? = some a) : l.set i a = l := by
  obtain ⟨hlt, rfl⟩ := List.getElem?_eq_some_iff.mp h
  exact List.set_getElem_self hlt

theorem map_set_of_eq {β : Type*} {v : α → β} (h : l[i]? = some a) (hab : v b = v a) :
    (l.set i b).map v = l.map v := by
  obtain ⟨hlt, rfl⟩ := List.getElem?_eq_some_iff.mp h
  rw [List.map_set, hab]
  apply List.ext_getElem?
  intro n
  by_cases hn : i = n
  · subst hn
    simp [hlt]
  · rw [List.getElem?_set_ne hn]

theorem sum_map_set {f : α → ℕ} (h : l[i]? = some a) :
    ((l.set i b).map f).sum + f a = (l.map f).sum + f b := by
  induction l generalizing i with
  | nil => cases h
  | cons x l ih =>
    cases i with
    | zero =>
      cases h
      simp only [List.set_cons_zero, List.map_cons, List.sum_cons]
      omega
    | succ i =>
      have := ih (i := i) (by simpa using h)
      simp only [List.set_cons_succ, List.map_cons, List.sum_cons]
      omega

theorem forall₂_set {R : α → α → Prop} (hrefl : ∀ x, R x x) (h : l[i]? = some a) (hab : R a b) :
    List.Forall₂ R l (l.set i b) := by
  induction l generalizing i with
  | nil => cases h
  | cons x l ih =>
    cases i with
    | zero =>
      cases h
      exact .cons hab (List.forall₂_same.mpr fun x _ => hrefl x)
    | succ i => exact .cons (hrefl x) (ih (by simpa using h))

theorem getElem?_of_forall₂ {R : α → α → Prop} {l' : List α} (h : List.Forall₂ R l l')
    (ha : l[i]? = some a) : ∃ b, l'[i]? = some b ∧ R a b := by
  induction h generalizing i with
  | nil => cases ha
  | cons hab _ ih =>
    cases i with
    | zero =>
      cases ha
      exact ⟨_, rfl, hab⟩
    | succ i => exact ih (by simpa using ha)

/-- Values held by at most one process stay so when one process takes a step that keeps
its value, gives it up or takes a fresh one. -/
theorem nodup_filterMap_set {β : Type*} {f : α → Option β} (hn : (l.filterMap f).Nodup)
    (h : l[i]? = some a) (hb : ∀ v, f b = some v → f a = some v ∨ ∀ c ∈ l, f c ≠ some v) :
    ((l.set i b).filterMap f).Nodup := by
  induction l generalizing i with
  | nil => cases h
  | cons x l ih =>
    have htail : (l.filterMap f).Nodup := hn.sublist ((List.sublist_cons_self x l).filterMap f)
    have hhead : ∀ v, f x = some v → v ∉ l.filterMap f := fun v hv => by
      rw [List.filterMap_cons_some hv] at hn
      exact (List.nodup_cons.mp hn).1
    cases i with
    | zero =>
      cases h
      rw [List.set_cons_zero]
      cases hv : f b with
      | none => rwa [List.filterMap_cons_none hv]
      | some v =>
        rw [List.filterMap_cons_some hv, List.nodup_cons]
        refine ⟨fun hm => ?_, htail⟩
        rcases hb v hv with hx | hfresh
        · exact hhead v hx hm
        · obtain ⟨c, hc, hcv⟩ := List.mem_filterMap.mp hm
          exact hfresh c (List.mem_cons_of_mem _ hc) hcv
    | succ i =>
      have ha : l[i]? = some a := by simpa using h
      have hset := ih htail ha fun v hv =>
        (hb v hv).imp_right fun hfresh c hc => hfresh c (List.mem_cons_of_mem x hc)
      rw [List.set_cons_succ]
      cases hu : f x with
      | none => rwa [List.filterMap_cons_none hu]
      | some u =>
        rw [List.filterMap_cons_some hu, List.nodup_cons]
        refine ⟨fun hm => ?_, hset⟩
        obtain ⟨c, hc, hcu⟩ := List.mem_filterMap.mp hm
        rcases List.mem_or_eq_of_mem_set hc with hc | rfl
        · exact hhead u hu (List.mem_filterMap.mpr ⟨c, hc, hcu⟩)
        · rcases hb u hcu with hau | hfresh
          · exact hhead u hu (List.mem_filterMap.mpr ⟨a, List.mem_of_getElem? ha, hau⟩)
          · exact hfresh x List.mem_cons_self hu

theorem filterMap_sublist_filterMap {β : Type*} {f g : α → Option β}
    (h : ∀ a v, g a = some v → f a = some v) : (l.filterMap g).Sublist (l.filterMap f) := by
  induction l with
  | nil => exact .slnil
  | cons x l ih =>
    cases hg : g x with
    | none =>
      rw [List.filterMap_cons_none hg]
      exact ih.trans ((List.sublist_cons_self x l).filterMap f)
    | some v =>
      rw [List.filterMap_cons_some hg, List.filterMap_cons_some (h x v hg)]
      exact ih.cons_cons v

end Pool
end Base
