import Mathlib.Data.Finset.Max
import StellarGate.Base.Run

/-! Threads that share values under locks, one value a lock. Where every call takes its locks in one
order and reads and writes under them only, no state is a deadlock, and what a thread has read under
locks it still holds is what the shared values are now. -/
namespace Base
namespace Locks
variable {L κ : Type*} {D : L → Type*}

inductive Op (L : Type*) (D : L → Type*) where
  | acquire (l : L)
  | read (l : L)
  | write (l : L) (f : D l → D l)
  | release (l : L)

/-- The locks a thread holds, what it has read in its call, and the rest of the call. -/
structure Thread (L : Type*) (D : L → Type*) where
  held : List L
  seen : (l : L) → Option (D l)
  todo : List (Op L D)

structure Shared (L : Type*) (D : L → Type*) where
  value : (l : L) → D l
  threads : List (Thread L D)

/-- A thread without work begins a call, or a thread takes its next step. -/
inductive Event (κ : Type*) where
  | call (i : ℕ) (c : κ)
  | go (i : ℕ)

/-- Whether a call that holds `held` takes its locks in the order of `rank`, touches no value but
under its lock, and gives up all it took. -/
def Fits (rank : L → ℕ) [DecidableEq L] : List L → List (Op L D) → Prop
  | held, [] => held = []
  | held, .acquire l :: ops => (∀ k ∈ held, rank k < rank l) ∧ Fits rank (l :: held) ops
  | held, .read l :: ops => l ∈ held ∧ Fits rank held ops
  | held, .write l _ :: ops => l ∈ held ∧ Fits rank held ops
  | held, .release l :: ops => l ∈ held ∧ Fits rank (held.erase l) ops

variable [DecidableEq L]

def Op.apply (value : (l : L) → D l) : Op L D → (l : L) → D l
  | .write l f => Function.update value l (f (value l))
  | _ => value

/-- The next step of a thread, where no other holds the lock it needs. -/
def Thread.go (value : (l : L) → D l) (taken : L → Bool) (t : Thread L D) :
    Option (((l : L) → D l) × Thread L D) :=
  match t.todo with
  | [] => none
  | .acquire l :: ops =>
    if taken l then none
    else some (value, { held := l :: t.held, seen := Function.update t.seen l none, todo := ops })
  | .read l :: ops =>
    some (value, { t with seen := Function.update t.seen l (some (value l)), todo := ops })
  | .write l f :: ops =>
    some (Function.update value l (f (value l)),
      { t with seen := Function.update t.seen l none, todo := ops })
  | .release l :: ops => some (value, { t with held := t.held.erase l, todo := ops })

def Shared.taken (s : Shared L D) (l : L) : Bool := s.threads.any fun t => t.held.contains l

def step (program : κ → List (Op L D)) (s : Shared L D) : Event κ → Option (Shared L D)
  | .call i c =>
    match s.threads[i]? with
    | none => none
    | some t =>
      if t.todo.isEmpty then
        some
          { s with
            threads := s.threads.set i { t with seen := fun _ => none, todo := program c } }
      else none
  | .go i =>
    match s.threads[i]? with
    | none => none
    | some t => (t.go s.value s.taken).map fun (value, t') => ⟨value, s.threads.set i t'⟩

def idle (n : ℕ) (value : (l : L) → D l) : Shared L D :=
  ⟨value, List.replicate n ⟨[], fun _ => none, []⟩⟩

/-- The invariant: no two threads hold a lock, every call fits, and what has been read under a lock
that is still held has not changed. -/
structure Sound (rank : L → ℕ) (s : Shared L D) : Prop where
  exclusive : ∀ (i j : ℕ) (t t' : Thread L D) (l : L), s.threads[i]? = some t →
    s.threads[j]? = some t' →
    l ∈ t.held → l ∈ t'.held → i = j
  fits : ∀ t ∈ s.threads, Fits rank t.held t.todo
  current : ∀ t ∈ s.threads, ∀ l ∈ t.held, ∀ v, t.seen l = some v → v = s.value l

/-- What a step of a thread does, with all that is known where it does so. -/
inductive Goes (value : (l : L) → D l) (taken : L → Bool) (t : Thread L D) :
    ((l : L) → D l) → Thread L D → Prop where
  | acquire {l : L} {ops : List (Op L D)} (htodo : t.todo = .acquire l :: ops)
    (hfree : taken l = false) :
    Goes value taken t value
      { held := l :: t.held, seen := Function.update t.seen l none, todo := ops }
  | read {l : L} {ops : List (Op L D)} (htodo : t.todo = .read l :: ops) :
    Goes value taken t value
      { t with seen := Function.update t.seen l (some (value l)), todo := ops }
  | write {l : L} {f : D l → D l} {ops : List (Op L D)} (htodo : t.todo = .write l f :: ops) :
    Goes value taken t (Function.update value l (f (value l)))
      { t with seen := Function.update t.seen l none, todo := ops }
  | release {l : L} {ops : List (Op L D)} (htodo : t.todo = .release l :: ops) :
    Goes value taken t value { t with held := t.held.erase l, todo := ops }

variable {rank : L → ℕ} {program : κ → List (Op L D)} {s u : Shared L D} {t t' : Thread L D}
  {e : Event κ} {i : ℕ}

theorem goes_of_go {value value' : (l : L) → D l} {taken : L → Bool}
    (h : t.go value taken = some (value', t')) :
    Goes value taken t value' t' := by
  unfold Thread.go at h
  split at h
  · cases h
  · rename_i l ops htodo
    split_ifs at h with htaken
    cases h
    exact .acquire htodo (by simpa using htaken)
  · rename_i l ops htodo
    cases h
    exact .read htodo
  · rename_i l f ops htodo
    cases h
    exact .write htodo
  · rename_i l ops htodo
    cases h
    exact .release htodo

theorem step_go (h : step program s (.go i) = some u) :
    ∃ t t', s.threads[i]? = some t ∧ Goes s.value s.taken t u.value t' ∧
      u.threads = s.threads.set i t' := by
  simp only [step] at h
  split at h
  · cases h
  · rename_i t ht
    obtain ⟨⟨value, t'⟩, hgo, rfl⟩ := Option.map_eq_some_iff.mp h
    exact ⟨t, t', ht, goes_of_go hgo, rfl⟩

theorem step_call {c : κ} (h : step program s (.call i c) = some u) :
    ∃ t, s.threads[i]? = some t ∧ t.todo = [] ∧
      u =
        { s with
          threads := s.threads.set i { t with seen := fun _ => none, todo := program c } } := by
  simp only [step] at h
  split at h
  · cases h
  · rename_i t ht
    split_ifs at h with hidle
    cases h
    exact ⟨t, ht, List.isEmpty_iff.mp hidle, rfl⟩

theorem not_taken {l : L} (h : s.taken l = false) (ht : t ∈ s.threads) : l ∉ t.held := by
  intro hl
  have htaken : s.taken l = true := List.any_eq_true.mpr ⟨t, ht, List.contains_iff_mem.mpr hl⟩
  rw [h] at htaken
  cases htaken

theorem exists_of_taken {l : L} (h : s.taken l = true) : ∃ t ∈ s.threads, l ∈ t.held := by
  obtain ⟨t, ht, hl⟩ := List.any_eq_true.mp h
  exact ⟨t, ht, List.contains_iff_mem.mp hl⟩

theorem sound_idle (n : ℕ) (value : (l : L) → D l) : Sound rank (idle n value) := by
  have hrest : ∀ t ∈ (idle n value).threads, t = ⟨[], fun _ => none, []⟩ := fun t ht =>
    List.eq_of_mem_replicate ht
  constructor
  · intro i j t t' l hi _ hl
    rw [hrest t (List.mem_of_getElem? hi)] at hl
    cases hl
  · intro t ht
    rw [hrest t ht]
    rfl
  · intro t ht l hl
    rw [hrest t ht] at hl
    cases hl

theorem Sound.exclusive_set (hs : Sound rank s) (hi : s.threads[i]? = some t)
    (hheld : ∀ l ∈ t'.held, l ∈ t.held ∨ s.taken l = false) :
    ∀ (j k : ℕ) (x y : Thread L D) (l : L), (s.threads.set i t')[j]? = some x →
      (s.threads.set i t')[k]? = some y → l ∈ x.held → l ∈ y.held → j = k := by
  have hlt := (List.getElem?_eq_some_iff.mp hi).1
  -- what another thread holds is held by that thread alone
  have hother : ∀ (k : ℕ) (y : Thread L D) (l : L), k ≠ i → s.threads[k]? = some y → l ∈ y.held →
      l ∉ t'.held := by
    intro k y l hne hk hl hl'
    rcases hheld l hl' with hold | hfree
    · exact hne (hs.exclusive k i y t l hk hi hl hold)
    · exact not_taken hfree (List.mem_of_getElem? hk) hl
  intro j k x y l hj hk hx hy
  by_cases hji : i = j <;> by_cases hki : i = k
  · exact hji.symm.trans hki
  · subst hji
    rw [List.getElem?_set_self hlt] at hj
    rw [List.getElem?_set_ne hki] at hk
    cases hj
    exact absurd hx (hother k y l (Ne.symm hki) hk hy)
  · subst hki
    rw [List.getElem?_set_self hlt] at hk
    rw [List.getElem?_set_ne hji] at hj
    cases hk
    exact absurd hy (hother j x l (Ne.symm hji) hj hx)
  · rw [List.getElem?_set_ne hji] at hj
    rw [List.getElem?_set_ne hki] at hk
    exact hs.exclusive j k x y l hj hk hx hy

omit [DecidableEq L] in
theorem forall_set {P : Thread L D → Prop} (h : ∀ x ∈ s.threads, P x) (ht' : P t') :
    ∀ x ∈ s.threads.set i t', P x := by
  intro x hx
  rcases List.mem_or_eq_of_mem_set hx with hx | rfl
  · exact h x hx
  · exact ht'

/-- A step keeps the invariant. -/
theorem Sound.step (hfits : ∀ c, Fits rank [] (program c)) (h : Locks.step program s e = some u)
    (hs : Sound rank s) :
    Sound rank u := by
  cases e with
  | call i c =>
    obtain ⟨t, hi, hidle, rfl⟩ := step_call h
    have hin := List.mem_of_getElem? hi
    have hnone : t.held = [] := by
      have hfit := hs.fits t hin
      rwa [hidle] at hfit
    constructor
    · exact hs.exclusive_set hi fun l hl => .inl hl
    · exact forall_set hs.fits (by rw [hnone]; exact hfits c)
    · refine forall_set hs.current fun l _ v hv => ?_
      cases hv
  | go i =>
    obtain ⟨t, t', hi, hgoes, hthreads⟩ := step_go h
    have hin := List.mem_of_getElem? hi
    have hfit := hs.fits t hin
    have hnow := hs.current t hin
    obtain ⟨value, threads⟩ := u
    simp only at hthreads hgoes
    subst hthreads
    cases hgoes with
    | @acquire l ops htodo hfree =>
      rw [htodo] at hfit
      constructor
      · refine hs.exclusive_set hi fun k hk => ?_
        rcases List.mem_cons.mp hk with rfl | hk
        · exact .inr hfree
        · exact .inl hk
      · exact forall_set hs.fits hfit.2
      · refine forall_set hs.current fun k hk v hv => ?_
        simp only at hv
        by_cases hkl : k = l
        · subst hkl
          rw [Function.update_self] at hv
          cases hv
        · rw [Function.update_of_ne hkl] at hv
          exact hnow k ((List.mem_cons.mp hk).resolve_left hkl) v hv
    | @read l ops htodo =>
      rw [htodo] at hfit
      constructor
      · exact hs.exclusive_set hi fun k hk => .inl hk
      · exact forall_set hs.fits hfit.2
      · refine forall_set hs.current fun k hk v hv => ?_
        simp only at hv
        by_cases hkl : k = l
        · subst hkl
          rw [Function.update_self] at hv
          exact (Option.some.inj hv).symm
        · rw [Function.update_of_ne hkl] at hv
          exact hnow k hk v hv
    | @write l f ops htodo =>
      rw [htodo] at hfit
      constructor
      · exact hs.exclusive_set hi fun k hk => .inl hk
      · exact forall_set hs.fits hfit.2
      · -- no other thread holds the lock of the value that changes
        intro x hx k hk v hv
        show v = Function.update s.value l (f (s.value l)) k
        obtain ⟨j, hj⟩ := List.mem_iff_getElem?.mp hx
        by_cases hji : i = j
        · subst hji
          rw [List.getElem?_set_self (List.getElem?_eq_some_iff.mp hi).1] at hj
          cases hj
          simp only at hv
          by_cases hkl : k = l
          · subst hkl
            rw [Function.update_self] at hv
            cases hv
          · rw [Function.update_of_ne hkl] at hv ⊢
            exact hnow k hk v hv
        · rw [List.getElem?_set_ne hji] at hj
          have hkl : k ≠ l := by
            rintro rfl
            exact hji (hs.exclusive i j t x k hi hj hfit.1 hk)
          rw [Function.update_of_ne hkl]
          exact hs.current x (List.mem_of_getElem? hj) k hk v hv
    | @release l ops htodo =>
      rw [htodo] at hfit
      constructor
      · exact hs.exclusive_set hi fun k hk => .inl (List.mem_of_mem_erase hk)
      · exact forall_set hs.fits hfit.2
      · exact forall_set hs.current fun k hk v hv => hnow k (List.mem_of_mem_erase hk) v hv

/-- What a thread has still to do is the rest of a call. -/
theorem rest_of_run {n : ℕ} {value : (l : L) → D l} {es : List (Event κ)}
    (hrun : run (step program) (idle n value) es = some s) (ht : t ∈ s.threads) :
    t.todo = [] ∨ ∃ c, t.todo <:+ program c := by
  refine run_invariant (I := fun s => ∀ t ∈ s.threads, t.todo = [] ∨ ∃ c, t.todo <:+ program c)
    ?_ hrun (fun t ht => .inl ?_) t ht
  · intro s e u h hs
    cases e with
    | call i c =>
      obtain ⟨t, ht, -, rfl⟩ := step_call h
      exact forall_set hs (.inr ⟨c, List.suffix_refl _⟩)
    | go i =>
      obtain ⟨t, t', hi, hgoes, hthreads⟩ := step_go h
      have hrest := hs t (List.mem_of_getElem? hi)
      rw [hthreads]
      refine forall_set hs ?_
      generalize u.value = value at hgoes
      cases hgoes with
      | acquire htodo | read htodo | write htodo | release htodo =>
        rw [htodo] at hrest
        obtain ⟨c, hc⟩ := hrest.resolve_left (List.cons_ne_nil _ _)
        exact .inr ⟨c, (List.suffix_cons _ _).trans hc⟩
  · rw [List.eq_of_mem_replicate ht]

def Thread.wanted (t : Thread L D) : Option L :=
  match t.todo with
  | .acquire l :: _ => some l
  | _ => none

omit [DecidableEq L] in
theorem todo_of_wanted {l : L} (h : t.wanted = some l) : ∃ ops, t.todo = .acquire l :: ops := by
  unfold Thread.wanted at h
  split at h
  · rename_i k ops htodo
    cases h
    exact ⟨ops, htodo⟩
  · cases h

theorem wanted_of_stuck {value : (l : L) → D l} {taken : L → Bool} (hbusy : t.todo ≠ [])
    (hstuck : t.go value taken = none) : ∃ l, t.wanted = some l ∧ taken l = true := by
  unfold Thread.go at hstuck
  split at hstuck
  · contradiction
  · rename_i l ops htodo
    split_ifs at hstuck with htaken
    refine ⟨l, ?_, htaken⟩
    unfold Thread.wanted
    rw [htodo]
  all_goals cases hstuck

/-- No state is a deadlock: where a call is unfinished, some thread can go on. -/
theorem Sound.progress (hs : Sound rank s) (ht : t ∈ s.threads) (hbusy : t.todo ≠ []) :
    ∃ i, (Locks.step program s (.go i)).isSome := by
  by_contra hno
  simp only [not_exists] at hno
  -- else every thread with work waits for a lock
  have hstuck : ∀ t ∈ s.threads, t.todo ≠ [] → ∃ l, t.wanted = some l ∧ s.taken l = true := by
    intro t ht htodo
    obtain ⟨i, hi⟩ := List.mem_iff_getElem?.mp ht
    have hnone := hno i
    simp only [Locks.step, hi, Option.isSome_map, Option.not_isSome_iff_eq_none] at hnone
    exact wanted_of_stuck htodo hnone
  -- and the holder of that lock for a greater one
  have hmore : ∀ l ∈ s.threads.filterMap Thread.wanted, ∃ k ∈ s.threads.filterMap Thread.wanted,
      rank l < rank k := by
    intro l hl
    obtain ⟨t, ht, hwanted⟩ := List.mem_filterMap.mp hl
    obtain ⟨ops, htodo⟩ := todo_of_wanted hwanted
    obtain ⟨k, hk, htaken⟩ := hstuck t ht (by rw [htodo]; exact List.cons_ne_nil _ _)
    cases hk.symm.trans hwanted
    obtain ⟨t', ht', hheld⟩ := exists_of_taken htaken
    have hwork : t'.todo ≠ [] := by
      intro hidle
      have hfit := hs.fits t' ht'
      rw [hidle] at hfit
      rw [show t'.held = [] from hfit] at hheld
      cases hheld
    obtain ⟨k', hk', -⟩ := hstuck t' ht' hwork
    obtain ⟨ops', htodo'⟩ := todo_of_wanted hk'
    have hfit := hs.fits t' ht'
    rw [htodo'] at hfit
    exact ⟨k', List.mem_filterMap.mpr ⟨t', ht', hk'⟩, hfit.1 _ hheld⟩
  obtain ⟨l, hwanted, -⟩ := hstuck t ht hbusy
  have hsome : (s.threads.filterMap Thread.wanted).toFinset.Nonempty :=
    ⟨l, List.mem_toFinset.mpr (List.mem_filterMap.mpr ⟨t, ht, hwanted⟩)⟩
  obtain ⟨k, hk, hmax⟩ := Finset.exists_max_image _ rank hsome
  obtain ⟨k', hk', hlt⟩ := hmore k (List.mem_toFinset.mp hk)
  exact absurd (hmax k' (List.mem_toFinset.mpr hk')) (not_le.mpr hlt)

def Shared.left (s : Shared L D) : ℕ := (s.threads.map fun t => t.todo.length).sum

theorem left_of_go (h : Locks.step program s (.go i) = some u) : u.left + 1 = s.left := by
  obtain ⟨t, t', hi, hgoes, hthreads⟩ := step_go h
  have hsum := sum_map_set (f := fun t : Thread L D => t.todo.length) (b := t') hi
  have hless : t.todo.length = t'.todo.length + 1 := by
    generalize u.value = value at hgoes
    cases hgoes with
    | acquire htodo | read htodo | write htodo | release htodo =>
      rw [htodo]
      rfl
  unfold Shared.left
  rw [hthreads]
  omega

theorem Sound.over {es : List (Event κ)} (hfits : ∀ c, Fits rank [] (program c)) (hs : Sound rank s)
    (hgo : ∀ e ∈ es, ∃ i, e = .go i) (hrun : run (Locks.step program) s es = some u) :
    es.length + u.left = s.left ∧
      ((∀ i, Locks.step program u (.go i) = none) ↔ ∀ t ∈ u.threads, t.todo = []) := by
  have hsound : Sound rank u := run_invariant (fun s e t h hs => hs.step hfits h) hrun hs
  constructor
  · induction es generalizing s with
    | nil =>
      cases hrun
      exact Nat.zero_add _
    | cons e es ih =>
      obtain ⟨v, hv, hrest⟩ := run_cons.mp hrun
      obtain ⟨i, rfl⟩ := hgo e List.mem_cons_self
      have hleft := left_of_go hv
      have hmore := ih (hs.step hfits hv) (fun e he => hgo e (List.mem_cons_of_mem _ he)) hrest
      rw [List.length_cons]
      omega
  · constructor
    · intro hnone t ht
      by_contra hbusy
      obtain ⟨i, hi⟩ : ∃ i, (Locks.step program u (.go i)).isSome := hsound.progress ht hbusy
      rw [hnone i] at hi
      cases hi
    · intro hover i
      simp only [Locks.step]
      cases hi : u.threads[i]? with
      | none => rfl
      | some t =>
        have hnone : t.go u.value u.taken = none := by
          unfold Thread.go
          rw [hover t (List.mem_of_getElem? hi)]
        simp only [hnone, Option.map_none]

/-! A call that takes locks, reads what they guard and gives them up. -/
section
variable {ls : List L} {es : List (Event κ)}

def readAll (ls : List L) : List (Op L D) :=
  ls.map .acquire ++ (ls.map .read ++ ls.reverse.map .release)

theorem fits_release (held : List L) : Fits rank held (held.map .release : List (Op L D)) := by
  induction held with
  | nil => rfl
  | cons l held ih =>
    refine ⟨List.mem_cons_self, ?_⟩
    rw [List.erase_cons_head]
    exact ih

theorem fits_read {held : List L} {ops : List (Op L D)} (hheld : ∀ l ∈ ls, l ∈ held)
    (h : Fits rank held ops) :
    Fits rank held (ls.map .read ++ ops) := by
  induction ls with
  | nil => exact h
  | cons l ls ih =>
    exact ⟨hheld l List.mem_cons_self, ih fun k hk => hheld k (List.mem_cons_of_mem l hk)⟩

theorem fits_acquire {held : List L} {ops : List (Op L D)}
    (hsorted : ls.Pairwise fun k l => rank k < rank l)
    (hheld : ∀ k ∈ held, ∀ l ∈ ls, rank k < rank l) (h : Fits rank (ls.reverse ++ held) ops) :
    Fits rank held (ls.map .acquire ++ ops) := by
  induction ls generalizing held with
  | nil => exact h
  | cons l ls ih =>
    obtain ⟨hfirst, hrest⟩ := List.pairwise_cons.mp hsorted
    refine ⟨fun k hk => hheld k hk l List.mem_cons_self, ih hrest ?_ ?_⟩
    · intro k hk j hj
      rcases List.mem_cons.mp hk with rfl | hk
      · exact hfirst j hj
      · exact hheld k hk j (List.mem_cons_of_mem l hj)
    · rwa [List.reverse_cons, List.append_assoc] at h

theorem fits_readAll (hsorted : ls.Pairwise fun k l => rank k < rank l) :
    Fits rank [] (readAll ls : List (Op L D)) := by
  refine fits_acquire hsorted (fun k hk => by cases hk) ?_
  rw [List.append_nil]
  exact fits_read (fun l hl => List.mem_reverse.mpr hl) (fits_release ls.reverse)

/-- Where a thread stands in the call until it gives up the locks: it takes them, or it
reads under all of them. -/
inductive Reading (ls : List L) (t : Thread L D) : Prop where
  | acquiring {ls₁ ls₂ : List L} {l : L} (h : ls = ls₁ ++ l :: ls₂) (hheld : t.held = ls₁.reverse)
    (htodo : t.todo = .acquire l :: (ls₂.map .acquire ++ (ls.map .read ++ ls.reverse.map .release)))
  | reading {ls₁ ls₂ : List L} (h : ls = ls₁ ++ ls₂) (hheld : t.held = ls.reverse)
    (htodo : t.todo = ls₂.map .read ++ ls.reverse.map .release)
    (hseen : ∀ l ∈ ls₁, (t.seen l).isSome)

structure Complete (ls : List L) (t : Thread L D) : Prop where
  held : t.held = ls.reverse
  todo : t.todo = ls.reverse.map .release
  seen : ∀ l ∈ ls, (t.seen l).isSome

omit [DecidableEq L] in
theorem reading_of_locks {ls₁ ls₂ : List L} (h : ls = ls₁ ++ ls₂) (hheld : t.held = ls₁.reverse)
    (htodo : t.todo = ls₂.map .acquire ++ (ls.map .read ++ ls.reverse.map .release)) :
    Reading ls t := by
  cases ls₂ with
  | nil =>
    rw [List.append_nil] at h
    subst h
    exact .reading (List.nil_append _).symm hheld htodo fun _ hl => by cases hl
  | cons l ls₂ => exact .acquiring h hheld htodo

omit [DecidableEq L] in
theorem reading_of_call (hheld : t.held = []) (htodo : t.todo = readAll ls) : Reading ls t :=
  reading_of_locks (List.nil_append _).symm hheld htodo

theorem Reading.go {value value' : (l : L) → D l} {taken : L → Bool} (hr : Reading ls t)
    (h : Goes value taken t value' t') : Reading ls t' ∨ Complete ls t := by
  cases hr with
  | @acquiring ls₁ ls₂ l hls hheld htodo =>
    refine .inl ?_
    cases h with
    | acquire htodo' hfree =>
      cases htodo.symm.trans htodo'
      have hls' : ls = (ls₁ ++ [l]) ++ ls₂ := by
        rw [hls, List.append_assoc]
        rfl
      refine reading_of_locks hls' ?_ rfl
      rw [List.reverse_append]
      exact congrArg (l :: ·) hheld
    | read htodo' | write htodo' | release htodo' => cases htodo.symm.trans htodo'
  | @reading ls₁ ls₂ hls hheld htodo hseen =>
    cases ls₂ with
    | nil =>
      rw [List.append_nil] at hls
      exact .inr ⟨hheld, htodo, hls ▸ hseen⟩
    | cons l ls₂ =>
      refine .inl ?_
      cases h with
      | read htodo' =>
        cases htodo.symm.trans htodo'
        have hls' : ls = (ls₁ ++ [l]) ++ ls₂ := by
          rw [hls, List.append_assoc]
          rfl
        refine .reading hls' hheld rfl fun k hk => ?_
        show (Function.update t.seen l (some (value l)) k).isSome
        by_cases hkl : k = l
        · subst hkl
          rw [Function.update_self]
          rfl
        · rw [Function.update_of_ne hkl]
          rcases List.mem_append.mp hk with hk | hk
          · exact hseen k hk
          · exact absurd (List.mem_singleton.mp hk) hkl
      | acquire htodo' | write htodo' | release htodo' => cases htodo.symm.trans htodo'

theorem seen_of_releases {value value' : (l : L) → D l} {taken : L → Bool}
    (htodo : t.todo = ls.map .release) (h : Goes value taken t value' t') :
    t'.seen = t.seen ∧ t'.todo = ls.tail.map .release := by
  cases ls with
  | nil => cases h with
    | acquire htodo' | read htodo' | write htodo' | release htodo' => cases htodo.symm.trans htodo'
  | cons l ls => cases h with
    | release htodo' =>
      cases htodo.symm.trans htodo'
      exact ⟨rfl, rfl⟩
    | acquire htodo' | read htodo' | write htodo' => cases htodo.symm.trans htodo'

/-- Where thread `i` begins no call. -/
def NoCall (i : ℕ) (_ : Shared L D) : Event κ → Prop
  | .call j _ => j ≠ i
  | .go _ => True

theorem thread_step (hno : NoCall i s e) (h : step program s e = some u)
    (ht : s.threads[i]? = some t) :
    ∃ t', u.threads[i]? = some t' ∧ (t' = t ∨ Goes s.value s.taken t u.value t') := by
  have hother : ∀ {j : ℕ} {x : Thread L D}, j ≠ i → u.threads = s.threads.set j x →
      u.threads[i]? = some t := by
    intro j x hne hset
    rw [hset, List.getElem?_set_ne hne]
    exact ht
  cases e with
  | call j c =>
    obtain ⟨x, hj, hidle, rfl⟩ := step_call h
    exact ⟨t, hother hno rfl, .inl rfl⟩
  | go j =>
    obtain ⟨x, x', hj, hgoes, hset⟩ := step_go h
    by_cases hji : j = i
    · subst hji
      cases hj.symm.trans ht
      refine ⟨x', ?_, .inr hgoes⟩
      rw [hset, List.getElem?_set_self (List.getElem?_eq_some_iff.mp ht).1]
    · exact ⟨t, hother hji hset, .inl rfl⟩

/-- While it only gives up locks, a thread keeps what it has read. -/
theorem seen_of_run (ht : s.threads[i]? = some t) (htodo : t.todo = ls.map .release)
    (hno : Along (step program) (NoCall i) s es) (hrun : run (step program) s es = some u) :
    ∃ t', u.threads[i]? = some t' ∧ t'.seen = t.seen := by
  have hinv := Along.invariant (I := fun s => ∃ t', s.threads[i]? = some t' ∧ t'.seen = t.seen ∧
    ∃ ls : List L, t'.todo = ls.map .release) ?_ hno hrun ⟨t, ht, rfl, ls, htodo⟩
  · obtain ⟨t', ht', hseen, -⟩ := hinv
    exact ⟨t', ht', hseen⟩
  · rintro s e v hno hstep ⟨x, hx, hseen, ls, htodo⟩
    obtain ⟨y, hy, rfl | hgoes⟩ := thread_step hno hstep hx
    · exact ⟨y, hy, hseen, ls, htodo⟩
    · obtain ⟨hsame, hrest⟩ := seen_of_releases htodo hgoes
      exact ⟨y, hy, hsame.trans hseen, ls.tail, hrest⟩

/-- A call that reads has an instant: when it is over, all that it has read is what the shared
values were at one moment of the call. -/
theorem Sound.instant (hfits : ∀ c, Fits rank [] (program c)) (hs : Sound rank s)
    (ht : s.threads[i]? = some t) (hr : Reading ls t)
    (hno : Along (Locks.step program) (NoCall i) s es)
    (hrun : run (Locks.step program) s es = some u) (hu : u.threads[i]? = some t')
    (hover : t'.todo = []) :
    ∃ es₁ es₂ m, es = es₁ ++ es₂ ∧ run (Locks.step program) s es₁ = some m ∧
      ∀ l ∈ ls, t'.seen l = some (m.value l) := by
  -- the moment is the last one at which it holds all the locks
  have hmoment : ∀ {s : Shared L D} {t : Thread L D}, Sound rank s → s.threads[i]? = some t →
      Complete ls t →
      ∀ l ∈ ls, t.seen l = some (s.value l) := by
    intro s t hs ht hc l hl
    obtain ⟨v, hv⟩ := Option.isSome_iff_exists.mp (hc.seen l hl)
    have hheld : l ∈ t.held := by
      rw [hc.held]
      exact List.mem_reverse.mpr hl
    rw [hv, hs.current t (List.mem_of_getElem? ht) l hheld v hv]
  induction es generalizing s t with
  | nil =>
    cases hrun
    obtain rfl : t = t' := Option.some.inj (ht.symm.trans hu)
    have hc : Complete ls t := by
      cases hr with
      | acquiring h hheld htodo =>
        rw [hover] at htodo
        cases htodo
      | @reading ls₁ ls₂ h hheld htodo hseen =>
        rw [hover] at htodo
        obtain ⟨hreads, hreleases⟩ := List.append_eq_nil_iff.mp htodo.symm
        rw [List.map_eq_nil_iff.mp hreads, List.append_nil] at h
        exact ⟨hheld, hover.trans hreleases.symm, h ▸ hseen⟩
    exact ⟨[], [], _, rfl, rfl, hmoment hs ht hc⟩
  | cons e es ih =>
    obtain ⟨v, hv, hrest⟩ := run_cons.mp hrun
    simp only [Along, hv] at hno
    have hsound := hs.step hfits hv
    obtain ⟨x, hx, hgo⟩ := thread_step hno.1 hv ht
    have hcases : Reading ls x ∨ Complete ls t := by
      rcases hgo with rfl | hgoes
      · exact .inl hr
      · exact hr.go hgoes
    rcases hcases with hr' | hc
    · obtain ⟨es₁, es₂, m, hes, hm, hread⟩ := ih hsound hx hr' hno.2 hrest
      exact ⟨e :: es₁, es₂, m, by rw [hes]; rfl, run_cons.mpr ⟨v, hv, hm⟩, hread⟩
    · have hno' : Along (Locks.step program) (NoCall i) s (e :: es) := by
        simp only [Along, hv]
        exact hno
      obtain ⟨t₂, ht₂, hseen⟩ := seen_of_run ht hc.todo hno' hrun
      cases ht₂.symm.trans hu
      refine ⟨[], e :: es, s, rfl, rfl, fun l hl => ?_⟩
      rw [hseen]
      exact hmoment hs ht hc l hl

end

end Locks
end Base
