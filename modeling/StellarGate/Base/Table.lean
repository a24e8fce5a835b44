import Mathlib.Algebra.Ring.Int.Defs
import Mathlib.Data.List.Nodup
import Mathlib.Data.List.Perm.Subperm
import Mathlib.Algebra.BigOperators.Group.List.Basic
import Mathlib.Algebra.Order.BigOperators.Group.List
import Mathlib.Tactic.Common

/-! Tables whose rows are unique in each of a list of key columns, with the
statements a relational store runs on them. Rows stand in insertion order. -/
namespace Base
variable {ρ κ : Type*} {keys : List (ρ → κ)}

/-- No two rows agree in any of the `keys`. -/
structure Table (ρ κ : Type*) (keys : List (ρ → κ)) where
  rows : List ρ
  unique : ∀ k ∈ keys, (rows.map k).Nodup

namespace Table

@[ext] theorem ext {s t : Table ρ κ keys} (h : s.rows = t.rows) : s = t := by
  cases s
  cases t
  cases h
  rfl

def empty : Table ρ κ keys := ⟨[], fun _ _ => List.nodup_nil⟩

section
variable [DecidableEq κ]

/-- Some row already holds one of the key values of `r`. -/
def conflicts (t : Table ρ κ keys) (r : ρ) : Bool :=
  keys.any fun k => (t.rows.map k).contains (k r)

theorem conflicts_eq_false {t : Table ρ κ keys} {r : ρ} :
    t.conflicts r = false ↔ ∀ k ∈ keys, k r ∉ t.rows.map k := by
  simp [conflicts]

/-- `INSERT`: `none` when a uniqueness constraint rejects the row. -/
def insert (t : Table ρ κ keys) (r : ρ) : Option (Table ρ κ keys) :=
  if h : t.conflicts r = false then
    some ⟨t.rows ++ [r], fun k hk => by
      rw [List.map_append, List.nodup_append]
      have hfresh := conflicts_eq_false.mp h k hk
      refine ⟨t.unique k hk, by simp, ?_⟩
      rintro a ha b hb rfl
      simp only [List.map_cons, List.map_nil, List.mem_singleton] at hb
      exact hfresh (hb ▸ ha)⟩
  else none

theorem insert_eq_some {t t' : Table ρ κ keys} {r : ρ} (h : t.insert r = some t') :
    t'.rows = t.rows ++ [r] ∧ ∀ k ∈ keys, k r ∉ t.rows.map k := by
  unfold insert at h
  split_ifs at h with hc
  cases h
  exact ⟨rfl, conflicts_eq_false.mp hc⟩

theorem insert_of_fresh {t : Table ρ κ keys} {r : ρ} (h : ∀ k ∈ keys, k r ∉ t.rows.map k) :
    ∃ t', t.insert r = some t' ∧ t'.rows = t.rows ++ [r] := by
  have hc := conflicts_eq_false.mpr h
  exact ⟨_, dif_pos hc, rfl⟩

/-- `INSERT … ON CONFLICT DO NOTHING`, with whether a row was added. -/
def insertOrIgnore (t : Table ρ κ keys) (r : ρ) : Bool × Table ρ κ keys :=
  match t.insert r with
  | some t' => (true, t')
  | none => (false, t)

theorem insertOrIgnore_true {t : Table ρ κ keys} {r : ρ} (h : (t.insertOrIgnore r).1 = true) :
    (t.insertOrIgnore r).2.rows = t.rows ++ [r] ∧ ∀ k ∈ keys, k r ∉ t.rows.map k := by
  unfold insertOrIgnore at h ⊢
  cases hi : t.insert r with
  | none => simp [hi] at h
  | some t' => exact insert_eq_some hi

theorem insertOrIgnore_false {t : Table ρ κ keys} {r : ρ} (h : (t.insertOrIgnore r).1 = false) :
    (t.insertOrIgnore r).2 = t ∧ ∃ k ∈ keys, k r ∈ t.rows.map k := by
  unfold insertOrIgnore at h ⊢
  cases hi : t.insert r with
  | some t' => simp [hi] at h
  | none =>
    refine ⟨rfl, ?_⟩
    unfold insert at hi
    split_ifs at hi with hc
    by_contra hn
    exact hc (conflicts_eq_false.mpr fun k hk hm => hn ⟨k, hk, hm⟩)

/-- `INSERT OR IGNORE` of many rows, one after the other. -/
def insertAll (t : Table ρ κ keys) (rows : List ρ) : Table ρ κ keys :=
  rows.foldl (fun t r => (t.insertOrIgnore r).2) t

@[simp] theorem insertAll_nil {t : Table ρ κ keys} : t.insertAll [] = t := rfl

@[simp] theorem insertAll_cons {t : Table ρ κ keys} {r : ρ} {rows : List ρ} :
    t.insertAll (r :: rows) = (t.insertOrIgnore r).2.insertAll rows := rfl

theorem insertOrIgnore_eq_self {t : Table ρ κ keys} {r : ρ} (h : ∃ k ∈ keys, k r ∈ t.rows.map k) :
    (t.insertOrIgnore r).2 = t := by
  cases hi : (t.insertOrIgnore r).1 with
  | true =>
    obtain ⟨k, hk, hm⟩ := h
    exact absurd hm ((insertOrIgnore_true hi).2 k hk)
  | false => exact (insertOrIgnore_false hi).1

/-- Rows that all conflict add nothing. -/
theorem insertAll_eq_self {t : Table ρ κ keys} {rows : List ρ}
    (h : ∀ r ∈ rows, ∃ k ∈ keys, k r ∈ t.rows.map k) : t.insertAll rows = t := by
  induction rows with
  | nil => rfl
  | cons r rows ih =>
    rw [insertAll_cons, insertOrIgnore_eq_self (h r List.mem_cons_self)]
    exact ih fun x hx => h x (List.mem_cons_of_mem _ hx)

theorem mem_insertOrIgnore {t : Table ρ κ keys} {r x : ρ} (hx : x ∈ t.rows) :
    x ∈ (t.insertOrIgnore r).2.rows := by
  cases hi : (t.insertOrIgnore r).1 with
  | true =>
    rw [(insertOrIgnore_true hi).1]
    exact List.mem_append_left _ hx
  | false => rwa [(insertOrIgnore_false hi).1]

theorem mem_insertAll {t : Table ρ κ keys} {rows : List ρ} {x : ρ} (hx : x ∈ t.rows) :
    x ∈ (t.insertAll rows).rows := by
  induction rows generalizing t with
  | nil => exact hx
  | cons r rows ih => exact ih (mem_insertOrIgnore hx)

theorem insertAll_of_fresh {t : Table ρ κ keys} {rows : List ρ}
    (h : ∀ k ∈ keys, ((t.rows ++ rows).map k).Nodup) :
    (t.insertAll rows).rows = t.rows ++ rows := by
  induction rows generalizing t with
  | nil => simp
  | cons r rows ih =>
    obtain ⟨t', hi, hrows⟩ := insert_of_fresh (t := t) (r := r) fun k hk hm => by
      have hnodup := h k hk
      rw [List.map_append, List.map_cons, List.nodup_middle] at hnodup
      exact (List.nodup_cons.mp hnodup).1 (List.mem_append_left _ hm)
    have hignore : (t.insertOrIgnore r).2 = t' := by
      simp only [insertOrIgnore, hi]
    rw [insertAll_cons, hignore, ih fun k hk => by simpa [hrows] using h k hk, hrows]
    simp

theorem key_mem_insertAll {f : ρ → κ} {t : Table ρ κ [f]} {rows : List ρ} {r : ρ} (hr : r ∈ rows) :
    f r ∈ (t.insertAll rows).rows.map f := by
  induction rows generalizing t with
  | nil => cases hr
  | cons x rows ih =>
    rw [insertAll_cons]
    rcases List.mem_cons.mp hr with rfl | hr
    · have hthere : f r ∈ (t.insertOrIgnore r).2.rows.map f := by
        cases hi : (t.insertOrIgnore r).1 with
        | true => simp [(insertOrIgnore_true hi).1]
        | false =>
          obtain ⟨hsame, k, hk, hm⟩ := insertOrIgnore_false hi
          rw [hsame]
          exact List.mem_singleton.mp hk ▸ hm
      obtain ⟨y, hy, hkey⟩ := List.mem_map.mp hthere
      exact List.mem_map.mpr ⟨y, mem_insertAll hy, hkey⟩
    · exact ih hr

theorem second_mem_insertAll {f g : ρ → κ} {t : Table ρ κ [f, g]} {rows : List ρ} {r : ρ}
    (hf : ((t.rows ++ rows).map f).Nodup) (hr : r ∈ rows) :
    g r ∈ (t.insertAll rows).rows.map g := by
  induction rows generalizing t with
  | nil => cases hr
  | cons x rows ih =>
    rw [insertAll_cons]
    cases hi : (t.insertOrIgnore x).1 with
    | true =>
      obtain ⟨hrows, -⟩ := insertOrIgnore_true hi
      rcases List.mem_cons.mp hr with rfl | hr
      · refine List.mem_map_of_mem (mem_insertAll ?_)
        simp [hrows]
      · exact ih (by simpa [hrows] using hf) hr
    | false =>
      obtain ⟨hsame, k, hk, hm⟩ := insertOrIgnore_false hi
      rw [hsame]
      rw [List.map_append, List.map_cons, List.nodup_middle, ← List.map_append] at hf
      obtain ⟨hnew, hrest⟩ := List.nodup_cons.mp hf
      rcases List.mem_cons.mp hr with rfl | hr
      · rcases List.mem_pair.mp hk with rfl | rfl
        · exact absurd (by simp only [List.map_append]; exact List.mem_append_left _ hm) hnew
        · obtain ⟨y, hy, hkey⟩ := List.mem_map.mp hm
          exact List.mem_map.mpr ⟨y, mem_insertAll hy, hkey⟩
      · exact ih hrest hr

end

/-- `UPDATE … SET … WHERE p`, for assignments that keep the key columns. -/
def update (t : Table ρ κ keys) (p : ρ → Bool) (f : ρ → ρ)
    (hf : ∀ k ∈ keys, ∀ r, k (f r) = k r) : Table ρ κ keys :=
  ⟨t.rows.map fun r => if p r then f r else r, fun k hk => by
    rw [List.map_map]
    have he : k ∘ (fun r => if p r then f r else r) = k := by
      funext r
      simp only [Function.comp_apply]
      split_ifs
      · exact hf k hk r
      · rfl
    rw [he]
    exact t.unique k hk⟩

theorem update_rows {t : Table ρ κ keys} {p : ρ → Bool} {f : ρ → ρ}
    {hf : ∀ k ∈ keys, ∀ r, k (f r) = k r} :
    (t.update p f hf).rows = t.rows.map fun r => if p r then f r else r := rfl

theorem update_eq_self {t : Table ρ κ keys} {p : ρ → Bool} {f : ρ → ρ}
    {hf : ∀ k ∈ keys, ∀ r, k (f r) = k r} (h : ∀ r ∈ t.rows, p r = false) :
    t.update p f hf = t := by
  apply Table.ext
  rw [update_rows]
  calc
    t.rows.map (fun r => if p r then f r else r) = t.rows.map id :=
      List.map_congr_left fun r hr => by simp [h r hr]
    _ = t.rows := List.map_id _

theorem mem_update {t : Table ρ κ keys} {p : ρ → Bool} {f : ρ → ρ}
    (hf : ∀ k ∈ keys, ∀ r, k (f r) = k r) {x : ρ} :
    x ∈ (t.update p f hf).rows ↔ ∃ r ∈ t.rows, (if p r then f r else r) = x := by
  simp [update]

def image {σ : Type*} {keys' : List (σ → κ)} (t : Table ρ κ keys) (f : ρ → σ)
    (hf : ∀ k ∈ keys', k ∘ f ∈ keys) :
    Table σ κ keys' :=
  ⟨t.rows.map f, fun k hk => by
    rw [List.map_map]
    exact t.unique _ (hf k hk)⟩

theorem image_rows {σ : Type*} {keys' : List (σ → κ)} {t : Table ρ κ keys} {f : ρ → σ}
    {hf : ∀ k ∈ keys', k ∘ f ∈ keys} : (t.image f hf).rows = t.rows.map f := rfl

theorem image_image {σ : Type*} {keys' : List (σ → κ)} {t : Table ρ κ keys} {f : ρ → σ} {g : σ → ρ}
    {hf : ∀ k ∈ keys', k ∘ f ∈ keys} {hg : ∀ k ∈ keys, k ∘ g ∈ keys'} (h : ∀ r, g (f r) = r) :
    (t.image f hf).image g hg = t := by
  apply ext
  rw [image_rows, image_rows, List.map_map]
  exact (List.map_congr_left fun r _ => h r).trans (List.map_id _)

theorem filter_update {t : Table ρ κ keys} {p q : ρ → Bool} {f : ρ → ρ}
    (hf : ∀ k ∈ keys, ∀ r, k (f r) = k r) (hq : ∀ r, q (f r) = q r)
    (hp : ∀ r ∈ t.rows, p r = true → q r = false) :
    (t.update p f hf).rows.filter q = t.rows.filter q := by
  rw [update_rows]
  generalize t.rows = rows at hp
  induction rows with
  | nil => rfl
  | cons r rows ih =>
    have ih := ih fun r hr => hp r (List.mem_cons_of_mem _ hr)
    rw [List.map_cons, List.filter_cons, List.filter_cons, ih]
    by_cases hr : p r = true
    · have hqr := hp r List.mem_cons_self hr
      simp only [hr, if_true, hq, hqr, Bool.false_eq_true, if_false]
    · simp only [hr, if_false, Bool.false_eq_true]

/-- `DELETE … WHERE p`. -/
def delete (t : Table ρ κ keys) (p : ρ → Bool) : Table ρ κ keys :=
  ⟨t.rows.filter fun r => !p r, fun k hk =>
    (t.unique k hk).sublist (List.filter_sublist.map k)⟩

theorem countP_key_le_one [DecidableEq κ] {t : Table ρ κ keys} {k : ρ → κ} (hk : k ∈ keys) (a : κ)
    {p : ρ → Bool} (hp : ∀ r, p r = true → k r = a) : t.rows.countP p ≤ 1 := by
  have hle : t.rows.countP p ≤ (t.rows.map k).count a := by
    rw [List.count, List.countP_map]
    exact List.countP_mono_left fun r _ hr => by simpa using hp r hr
  exact hle.trans (List.nodup_iff_count_le_one.mp (t.unique k hk) a)

/-- Two rows with the same value of a key are the same row. -/
theorem eq_of_key {t : Table ρ κ keys} {k : ρ → κ} (hk : k ∈ keys) {a b : ρ}
    (ha : a ∈ t.rows) (hb : b ∈ t.rows) (h : k a = k b) : a = b :=
  List.inj_on_of_nodup_map (t.unique k hk) ha hb h

end Table

/-! Totals over rows that are told apart by a key. -/
section Totals
variable {α β : Type*} {f : α → κ} {g : β → κ} {v : α → ℤ} {w : β → ℤ}

/-- A list without repeated keys whose keyed values all occur in another such list
has at most its total. -/
theorem sum_le_of_keyed_subset {xs : List α} {ys : List β} (hx : (xs.map f).Nodup)
    (hw : ∀ y ∈ ys, 0 ≤ w y) (h : ∀ x ∈ xs, ∃ y ∈ ys, g y = f x ∧ w y = v x) :
    (xs.map v).sum ≤ (ys.map w).sum := by
  have hn : (xs.map fun x => (f x, v x)).Nodup := by
    apply List.Nodup.of_map Prod.fst
    simpa [List.map_map, Function.comp_def] using hx
  have hs : (xs.map fun x => (f x, v x)).Subperm (ys.map fun y => (g y, w y)) := by
    apply hn.subperm
    intro a ha
    obtain ⟨x, hxm, rfl⟩ := List.mem_map.mp ha
    obtain ⟨y, hy, hk, hv⟩ := h x hxm
    exact List.mem_map.mpr ⟨y, hy, by rw [hk, hv]⟩
  obtain ⟨l, hp, hl⟩ := hs
  have hsum : ((xs.map fun x => (f x, v x)).map Prod.snd).sum = (l.map Prod.snd).sum :=
    (hp.map Prod.snd).sum_eq.symm
  have hle : (l.map Prod.snd).sum ≤ ((ys.map fun y => (g y, w y)).map Prod.snd).sum := by
    apply (hl.map Prod.snd).sum_le_sum
    intro a ha
    obtain ⟨y, hy, rfl⟩ := by simpa using ha
    exact hw y hy
  rw [List.map_map] at hsum hle
  exact hsum.trans_le hle

end Totals
end Base
