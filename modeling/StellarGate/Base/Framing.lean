import Mathlib.Data.List.Basic
import Mathlib.Tactic.Common

/-! Cutting a growing buffer into frames: a frame is complete once its end has been found,
and more input does not move an end that was found. -/
namespace Base
variable {α : Type*}

/-- The number of entries up to the end of the first complete frame. -/
structure Framer (α : Type*) where
  findEnd : List α → Option ℕ
  pos : ∀ {b e}, findEnd b = some e → 0 < e
  le : ∀ {b e}, findEnd b = some e → e ≤ b.length
  append : ∀ {b e} c, findEnd b = some e → findEnd (b ++ c) = some e

namespace Framer
variable (F : Framer α)

/-- Cut off at most `k` frames. -/
def cut : ℕ → List α → List (List α) × List α
  | 0, b => ([], b)
  | k + 1, b =>
    match F.findEnd b with
    | none => ([], b)
    | some e =>
      let r := cut k (b.drop e)
      (b.take e :: r.1, r.2)

/-- Cut off every complete frame. -/
def drain (b : List α) : List (List α) × List α := F.cut b.length b

/-- One frame and nothing more. -/
def IsFrame (f : List α) : Prop := F.findEnd f = some f.length

variable {F} {b rest : List α} {f : List α} {fs : List (List α)} {k : ℕ}

theorem IsFrame.findEnd_append (h : F.IsFrame f) : F.findEnd (f ++ rest) = some f.length :=
  F.append rest h

/-- The first frame of a stream is cut off as it was sent, whatever part of the stream
has arrived beyond it. -/
theorem take_of_findEnd (hfs : ∀ f ∈ fs, F.IsFrame f) (h : b ++ rest = fs.flatten) {e : ℕ}
    (he : F.findEnd b = some e) :
    ∃ f gs, fs = f :: gs ∧ b.take e = f ∧ b.drop e ++ rest = gs.flatten := by
  have hall : F.findEnd fs.flatten = some e := h ▸ F.append rest he
  cases fs with
  | nil =>
    have hpos := F.pos hall
    have hle := F.le hall
    simp at hle
    omega
  | cons f gs =>
    rw [List.flatten_cons] at h hall
    have hlen : e = f.length :=
      Option.some.inj (hall.symm.trans (hfs f List.mem_cons_self).findEnd_append)
    have hle : e ≤ b.length := F.le he
    refine ⟨f, gs, rfl, ?_, ?_⟩
    · have := congrArg (List.take e) h
      rwa [List.take_append_of_le_length hle, hlen, List.take_left' rfl, ← hlen] at this
    · have := congrArg (List.drop e) h
      rwa [List.drop_append_of_le_length hle, hlen, List.drop_left' rfl, ← hlen] at this

/-- From a part of a stream of frames the complete ones are cut off, and the rest goes on. -/
theorem cut_of_frames (hk : b.length ≤ k) (hfs : ∀ f ∈ fs, F.IsFrame f)
    (h : b ++ rest = fs.flatten) :
    ∃ gs hs, fs = gs ++ hs ∧ (F.cut k b).1 = gs ∧ (F.cut k b).2 ++ rest = hs.flatten ∧
      F.findEnd (F.cut k b).2 = none := by
  induction k generalizing b fs with
  | zero =>
    have hb : b = [] := List.length_eq_zero_iff.mp (Nat.le_zero.mp hk)
    subst hb
    refine ⟨[], fs, rfl, rfl, h, ?_⟩
    cases he : F.findEnd ([] : List α) with
    | none => exact he
    | some e =>
      have hpos := F.pos he
      have hle := F.le he
      simp at hle
      omega
  | succ k ih =>
    cases he : F.findEnd b with
    | none =>
      have hcut : F.cut (k + 1) b = ([], b) := by simp only [cut, he]
      rw [hcut]
      exact ⟨[], fs, rfl, rfl, h, he⟩
    | some e =>
      obtain ⟨f, gs, rfl, htake, hdrop⟩ := take_of_findEnd hfs h he
      have hpos := F.pos he
      have hshort : (b.drop e).length ≤ k := by
        rw [List.length_drop]
        omega
      obtain ⟨gs', hs, rfl, hcut₁, hcut₂, hnone⟩ :=
        ih hshort (fun g hg => hfs g (List.mem_cons_of_mem _ hg)) hdrop
      have hcut : F.cut (k + 1) b = (f :: (F.cut k (b.drop e)).1, (F.cut k (b.drop e)).2) := by
        simp only [cut, he, htake]
      rw [hcut]
      exact ⟨f :: gs', hs, rfl, by rw [hcut₁], hcut₂, hnone⟩

theorem drain_of_frames (hfs : ∀ f ∈ fs, F.IsFrame f) (h : b ++ rest = fs.flatten) :
    ∃ gs hs, fs = gs ++ hs ∧ (F.drain b).1 = gs ∧ (F.drain b).2 ++ rest = hs.flatten ∧
      F.findEnd (F.drain b).2 = none :=
  cut_of_frames (Nat.le_refl _) hfs h

/-- A buffer without a complete frame that is a stream of frames is empty. -/
theorem eq_nil_of_findEnd_none (hfs : ∀ f ∈ fs, F.IsFrame f) (h : b = fs.flatten)
    (hn : F.findEnd b = none) : fs = [] := by
  cases fs with
  | nil => rfl
  | cons f gs =>
    rw [h, List.flatten_cons, (hfs f List.mem_cons_self).findEnd_append] at hn
    cases hn

theorem drain_flatten (hfs : ∀ f ∈ fs, F.IsFrame f) : F.drain fs.flatten = (fs, []) := by
  obtain ⟨gs, hs, rfl, hcut, hrest, hnone⟩ := drain_of_frames hfs (List.append_nil fs.flatten)
  rw [List.append_nil] at hrest
  have hnil : hs = [] :=
    eq_nil_of_findEnd_none (fun f hf => hfs f (List.mem_append_right gs hf)) hrest hnone
  subst hnil
  rw [List.append_nil] at hcut hrest ⊢
  exact Prod.ext hcut hrest

variable (F)

theorem findEnd_nil : F.findEnd ([] : List α) = none := by
  cases he : F.findEnd ([] : List α) with
  | none => rfl
  | some e =>
    have hpos := F.pos he
    have hle := F.le he
    rw [List.length_nil] at hle
    omega

/-- Induction over the frames of a buffer. -/
@[elab_as_elim]
theorem induct {motive : List α → Prop} (stop : ∀ b, F.findEnd b = none → motive b)
    (more : ∀ b e, F.findEnd b = some e → motive (b.drop e) → motive b) (b : List α) :
    motive b := by
  induction hn : b.length using Nat.strongRecOn generalizing b with
  | ind n ih =>
    cases he : F.findEnd b with
    | none => exact stop b he
    | some e =>
      have hpos := F.pos he
      have hle := F.le he
      refine more b e he (ih (b.drop e).length ?_ (b.drop e) rfl)
      rw [List.length_drop]
      omega

theorem cut_eq_drain (b : List α) (hk : b.length ≤ k) : F.cut k b = F.drain b := by
  induction b using F.induct generalizing k with
  | stop b hnone =>
    unfold drain
    cases k <;> cases hb : b.length <;> simp only [cut, hnone]
  | more b e he ih =>
    have hpos := F.pos he
    have hle := F.le he
    have hlen : (b.drop e).length = b.length - e := List.length_drop
    unfold drain
    obtain ⟨k, rfl⟩ : ∃ j, k = j + 1 := ⟨k - 1, by omega⟩
    obtain ⟨m, hm⟩ : ∃ m, b.length = m + 1 := ⟨b.length - 1, by omega⟩
    rw [hm]
    simp only [cut, he]
    rw [ih (k := k) (by omega), ih (k := m) (by omega)]

theorem drain_of_none (h : F.findEnd b = none) : F.drain b = ([], b) := by
  unfold drain
  cases hb : b.length <;> simp only [cut, h]

theorem drain_of_some {e : ℕ} (h : F.findEnd b = some e) :
    F.drain b = (b.take e :: (F.drain (b.drop e)).1, (F.drain (b.drop e)).2) := by
  have hshort : (b.drop e).length ≤ b.length := by
    rw [List.length_drop]
    omega
  rw [← F.cut_eq_drain b (Nat.le_succ b.length)]
  simp only [cut, h]
  rw [F.cut_eq_drain (b.drop e) hshort]

/-- Nothing complete is left in the buffer. -/
theorem findEnd_drain (b : List α) : F.findEnd (F.drain b).2 = none := by
  induction b using F.induct with
  | stop b hnone =>
    rwa [F.drain_of_none hnone]
  | more b e he ih =>
    rwa [F.drain_of_some he]

/-- No byte is lost or made up. -/
theorem drain_flatten_append (b : List α) : (F.drain b).1.flatten ++ (F.drain b).2 = b := by
  induction b using F.induct with
  | stop b hnone =>
    rw [F.drain_of_none hnone]
    rfl
  | more b e he ih =>
    rw [F.drain_of_some he, List.flatten_cons, List.append_assoc, ih, List.take_append_drop]

/-- What arrives later is cut as if it had been there from the start. -/
theorem drain_append (b c : List α) :
    F.drain (b ++ c) = ((F.drain b).1 ++ (F.drain ((F.drain b).2 ++ c)).1,
      (F.drain ((F.drain b).2 ++ c)).2) := by
  induction b using F.induct with
  | stop b hnone =>
    rw [F.drain_of_none hnone]
    rfl
  | more b e he ih =>
    have hle := F.le he
    rw [F.drain_of_some (F.append c he), F.drain_of_some he, List.take_append_of_le_length hle,
      List.drop_append_of_le_length hle, ih]
    rfl

def feed (buf : List α) : List (List α) → List (List α) × List α
  | [] => ([], buf)
  | c :: cs =>
    let now := F.drain (buf ++ c)
    let later := feed now.2 cs
    (now.1 ++ later.1, later.2)

/-- However a stream is cut into chunks, its frames are those of the whole. -/
theorem feed_eq_drain {buf : List α} (h : F.findEnd buf = none) (cs : List (List α)) :
    F.feed buf cs = F.drain (buf ++ cs.flatten) := by
  induction cs generalizing buf with
  | nil =>
    rw [List.flatten_nil, List.append_nil, F.drain_of_none h]
    rfl
  | cons c cs ih =>
    have hlater := ih (F.findEnd_drain (buf ++ c))
    rw [List.flatten_cons, ← List.append_assoc, F.drain_append (buf ++ c), ← hlater]
    rfl

end Framer

/-! The place of a pattern. -/
section Window
variable [DecidableEq α]

/-- `windows(n).position(|w| w == pattern)`, for a pattern of length `n`. -/
def windowPosition (pattern : List α) : List α → Option ℕ
  | [] => none
  | x :: xs =>
    if pattern.isPrefixOf (x :: xs) then some 0 else (windowPosition pattern xs).map (· + 1)

variable {pattern b c : List α} {i : ℕ}

theorem windowPosition_le (h : windowPosition pattern b = some i) :
    i + pattern.length ≤ b.length := by
  induction b generalizing i with
  | nil => cases h
  | cons x xs ih =>
    unfold windowPosition at h
    split_ifs at h with hp
    · cases h
      have := ( List.isPrefixOf_iff_prefix.mp hp).length_le
      omega
    · obtain ⟨j, hj, rfl⟩ := Option.map_eq_some_iff.mp h
      have := ih hj
      rw [List.length_cons]
      omega

theorem windowPosition_append (h : windowPosition pattern b = some i) :
    windowPosition pattern (b ++ c) = some i := by
  induction b generalizing i with
  | nil => cases h
  | cons x xs ih =>
    have hlen := windowPosition_le h
    have hiff : pattern.isPrefixOf (x :: xs ++ c) = pattern.isPrefixOf (x :: xs) := by
      rw [Bool.eq_iff_iff, List.isPrefixOf_iff_prefix, List.isPrefixOf_iff_prefix]
      constructor
      · intro hp
        exact List.prefix_of_prefix_length_le hp (List.prefix_append _ _) (by omega)
      · intro hp
        exact hp.trans (List.prefix_append _ _)
    unfold windowPosition at h
    rw [List.cons_append, windowPosition, ← List.cons_append, hiff]
    split_ifs at h ⊢ with hp
    · exact h
    · obtain ⟨j, hj, rfl⟩ := Option.map_eq_some_iff.mp h
      rw [ih hj]
      rfl

theorem lt_of_windowPosition_append (hne : 0 < pattern.length)
    (hb : windowPosition pattern b = none) (h : windowPosition pattern (b ++ c) = some i) :
    b.length < i + pattern.length := by
  induction b generalizing i with
  | nil =>
    rw [List.length_nil]
    omega
  | cons x xs ih =>
    unfold windowPosition at hb
    split_ifs at hb with hp
    rw [List.cons_append, windowPosition] at h
    split_ifs at h with hq
    · cases h
      by_contra hle
      apply hp
      rw [ List.isPrefixOf_iff_prefix] at hq ⊢
      exact List.prefix_of_prefix_length_le hq (List.prefix_append (x :: xs) c) (by omega)
    · obtain ⟨j, hj, rfl⟩ := Option.map_eq_some_iff.mp h
      have := ih (Option.map_eq_none_iff.mp hb) hj
      rw [List.length_cons]
      omega

theorem windowPosition_cons {x : α} (h : ¬ pattern <+: x :: b) :
    windowPosition pattern (x :: b) = (windowPosition pattern b).map (· + 1) := by
  rw [windowPosition, if_neg (fun hp => h ( List.isPrefixOf_iff_prefix.mp hp))]

theorem windowPosition_append_of_not_mem {x : α} (h : x ∉ b) :
    windowPosition (x :: pattern) (b ++ c) =
      (windowPosition (x :: pattern) c).map (· + b.length) := by
  induction b with
  | nil =>
    rw [List.nil_append, List.length_nil]
    exact Option.map_id.symm ▸ rfl
  | cons y ys ih =>
    obtain ⟨hxy, hys⟩ := List.ne_and_not_mem_of_not_mem_cons h
    have hno : ¬ x :: pattern <+: y :: (ys ++ c) := fun hp => hxy (List.cons_prefix_cons.mp hp).1
    rw [List.cons_append, windowPosition_cons hno, ih hys, Option.map_map, List.length_cons]
    rfl

theorem windowPosition_eq_none_of_not_mem {x : α} (h : x ∉ b) :
    windowPosition (x :: pattern) b = none := by
  have happ : windowPosition (x :: pattern) (b ++ []) = (windowPosition (x :: pattern) []).map
    (· + b.length) :=
    windowPosition_append_of_not_mem h
  rwa [List.append_nil] at happ

end Window
end Base
