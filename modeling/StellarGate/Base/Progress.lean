import Mathlib.Order.WellFounded
import StellarGate.Base.Run

/-! Endless runs: what must happen where no useful step is put off for ever. -/
namespace Base
variable {σ ε : Type*} {step : σ → ε → Option σ} {s : ℕ → σ} {e : ℕ → ε} {μ : σ → ℕ}
  {useful : ε → Prop}

def Endless (step : σ → ε → Option σ) (s : ℕ → σ) (e : ℕ → ε) : Prop :=
  ∀ n, step (s n) (e n) = some (s (n + 1))

def Moves (step : σ → ε → Option σ) (s : σ) (ev : ε) : Prop := ∃ t, step s ev = some t ∧ t ≠ s

/-- No useful event that would change the state is put off for ever. -/
def Fair (step : σ → ε → Option σ) (useful : ε → Prop) (s : ℕ → σ) (e : ℕ → ε) : Prop :=
  ∀ ev, useful ev → ∀ n, (∀ k, n ≤ k → Moves step (s k) ev) → ∃ k, n ≤ k ∧ e k = ev

/-- An invariant of every step holds all along. -/
theorem Endless.invariant {I : σ → Prop} (hrun : Endless step s e)
    (hstep : ∀ n t, I (s n) → step (s n) (e n) = some t → I t) (h : I (s 0)) (n : ℕ) : I (s n) := by
  induction n with
  | zero => exact h
  | succ n ih => exact hstep n _ ih (hrun n)

theorem Endless.shift (hrun : Endless step s e) (N : ℕ) :
    Endless step (fun n => s (N + n)) fun n => e (N + n) :=
  fun n => hrun (N + n)

theorem Fair.shift (hfair : Fair step useful s e) (N : ℕ) :
    Fair step useful (fun n => s (N + n)) fun n => e (N + n) := by
  intro ev huseful n hmoves
  obtain ⟨k, hk, hev⟩ := hfair ev huseful (N + n) fun k hk => by
    obtain ⟨d, rfl⟩ := Nat.exists_eq_add_of_le (Nat.le_of_add_right_le hk)
    exact hmoves d (by omega)
  obtain ⟨d, rfl⟩ := Nat.exists_eq_add_of_le (Nat.le_of_add_right_le hk)
  exact ⟨d, by omega, hev⟩

/-- A run goes on for ever where some event leaves its last state as it is. -/
theorem endless_of_run {f g : σ} {es : List ε} {ev : ε} (hr : run step f es = some g)
    (hstay : step g ev = some g) :
    ∃ s : ℕ → σ, s 0 = f ∧ (∀ n, es.length ≤ n → s n = g) ∧ Endless step s fun n =>
      es.getD n ev := by
  induction es generalizing f with
  | nil =>
    cases hr
    exact ⟨fun _ => g, rfl, fun _ _ => rfl, fun _ => hstay⟩
  | cons e es ih =>
    obtain ⟨t, ht, hr⟩ := run_cons.mp hr
    obtain ⟨s, rfl, hlast, hrun⟩ := ih hr
    refine ⟨fun n => n.casesOn f s, rfl, fun n hn => ?_, fun n => ?_⟩
    · cases n with
      | zero => cases hn
      | succ n => exact hlast n (Nat.le_of_succ_le_succ hn)
    · cases n with
      | zero => exact ht
      | succ n => exact hrun n

theorem measure_le (h : ∀ n, s (n + 1) = s n ∨ μ (s (n + 1)) < μ (s n)) {n k : ℕ} (hnk : n ≤ k) :
    μ (s k) ≤ μ (s n) := by
  induction k, hnk using Nat.le_induction with
  | base => exact le_rfl
  | succ k _ ih =>
    rcases h k with hsame | hless
    · rw [hsame]
      exact ih
    · exact hless.le.trans ih

/-- Where every step leaves the state as it is or has a measure fall, the state
changes for the last time. -/
theorem settles (h : ∀ n, s (n + 1) = s n ∨ μ (s (n + 1)) < μ (s n)) :
    ∃ n, ∀ k, n ≤ k → s k = s n := by
  obtain ⟨-, ⟨n, rfl⟩, hmin⟩ := WellFounded.has_min Nat.lt_wfRel.wf (Set.range fun n => μ (s n))
    ⟨_, 0, rfl⟩
  refine ⟨n, fun k hnk => ?_⟩
  induction k, hnk using Nat.le_induction with
  | base => rfl
  | succ k hnk ih =>
    rcases h k with hsame | hless
    · exact hsame.trans ih
    · exact absurd (hless.trans_le (measure_le h hnk)) (hmin _ ⟨k + 1, rfl⟩)

/-- Where moreover some useful event would change each state that is not done, a fair run is done in
the end, and stays so. -/
theorem Fair.done {done : σ → Prop} (hfair : Fair step useful s e) (hrun : Endless step s e)
    (h : ∀ n, s (n + 1) = s n ∨ μ (s (n + 1)) < μ (s n))
    (hprogress : ∀ n, ¬ done (s n) → ∃ ev, useful ev ∧ Moves step (s n) ev) :
    ∃ n, ∀ k, n ≤ k → s k = s n ∧ done (s k) := by
  obtain ⟨n, hn⟩ := settles h
  refine ⟨n, fun k hnk => ⟨hn k hnk, ?_⟩⟩
  by_contra hdone
  rw [hn k hnk] at hdone
  obtain ⟨ev, huseful, hmoves⟩ := hprogress n hdone
  obtain ⟨j, hnj, rfl⟩ := hfair ev huseful n fun k hnk => (hn k hnk).symm ▸ hmoves
  -- the event is taken where it changes nothing
  obtain ⟨t, ht, hne⟩ := hmoves
  have htaken := hrun j
  rw [hn j hnj, ht, hn (j + 1) (hnj.trans j.le_succ)] at htaken
  exact hne (Option.some.inj htaken)

end Base
