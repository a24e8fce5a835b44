import Mathlib.Logic.Relation
import StellarGate.Base.Run

/-! Refinement: every run of one transition system is a run of a more abstract one, seen through a
function of its states. -/
namespace Base
open Relation (ReflTransGen)

section
variable {σ ε α : Type*} {step : σ → ε → Option σ} {ok : σ → ε → Prop} {I : σ → Prop} {view : σ → α}
  {Next : α → α → Prop} {s t : σ} {es : List ε}

/-- Where each step, from a state that keeps the invariant, is some abstract steps, perhaps none, a
run is an abstract run. -/
theorem refines (hkeep : ∀ s e t, ok s e → step s e = some t → I s → I t)
    (hstep : ∀ s e t, ok s e → step s e = some t → I s → ReflTransGen Next (view s) (view t))
    (hok : Along step ok s es) (hrun : run step s es = some t) (hs : I s) :
    ReflTransGen Next (view s) (view t) := by
  induction es generalizing s with
  | nil =>
    cases hrun
    exact .refl
  | cons e es ih =>
    obtain ⟨v, hv, hrest⟩ := run_cons.mp hrun
    simp only [Along, hv] at hok
    exact (hstep s e v hok.1 hv hs).trans (ih hok.2 hrest (hkeep s e v hok.1 hv hs))

/-- An invariant of the abstract steps holds of an abstract run. -/
theorem invariant_of_reaches {J : α → Prop} {a b : α} (hnext : ∀ a b, Next a b → J a → J b)
    (h : ReflTransGen Next a b) (ha : J a) : J b := by
  induction h with
  | refl => exact ha
  | tail _ hlast ih => exact hnext _ _ hlast ih

end
end Base
