import Mathlib.Data.List.Basic
import Mathlib.Data.List.Nodup
import Mathlib.Data.List.Perm.Basic
import Mathlib.Tactic.Common

/-! Work that is done in batches: rows that meet a condition are dropped or changed, so many at a
time, so that they meet it no more. -/
namespace Base
variable {ρ κ : Type*}

/-- The rows `rows'` that are left of `rows` when the taken ones, all of which meet `p`, are dropped
or changed as `act` says. -/
structure Takes (p : ρ → Bool) (act : ρ → Option ρ) (taken : ρ → Bool) (rows rows' : List ρ) :
    Prop where
  meets : ∀ r ∈ rows, taken r = true → p r = true
  left : rows' = rows.filterMap fun r => if taken r then act r else some r

theorem filterMap_drop (taken : ρ → Bool) (rows : List ρ) :
    (rows.filterMap fun r => if taken r then none else some r) = rows.filter fun r => !taken r := by
  rw [← List.filterMap_eq_filter]
  apply List.filterMap_congr
  intro r _
  cases h : taken r <;> simp [Option.guard, h]

theorem filterMap_change (taken : ρ → Bool) (f : ρ → ρ) (rows : List ρ) :
    (rows.filterMap fun r => if taken r then some (f r) else some r) =
      rows.map fun r => if taken r then f r else r := by
  rw [← List.filterMap_eq_map]
  apply List.filterMap_congr
  intro r _
  simp only [Function.comp_apply]
  split_ifs <;> rfl

section Takes
variable {p : ρ → Bool} {act : ρ → Option ρ} {taken taken' : ρ → Bool} {rows rows' rows'' : List ρ}

theorem Takes.refl (p : ρ → Bool) (act : ρ → Option ρ) (rows : List ρ) :
    Takes p act (fun _ => false) rows rows :=
  ⟨fun _ _ h => (nomatch h), (List.filterMap_some).symm⟩

theorem Takes.congr (h : Takes p act taken rows rows') (heq : ∀ r ∈ rows, taken r = taken' r) :
    Takes p act taken' rows rows' := by
  constructor
  · intro r hr ht
    exact h.meets r hr ((heq r hr).trans ht)
  · rw [h.left]
    apply List.filterMap_congr
    intro r hr
    rw [heq r hr]

theorem Takes.mem (h : Takes p act taken rows rows') {r : ρ} (hr : r ∈ rows)
    (ht : taken r = false) : r ∈ rows' := by
  rw [h.left]
  refine List.mem_filterMap.mpr ⟨r, hr, ?_⟩
  rw [ht]
  rfl

/-- What meets the condition afterwards did so before, and was not taken. -/
theorem Takes.mem_inv (h : Takes p act taken rows rows')
    (hact : ∀ r r', act r = some r' → p r' = false) {r : ρ} (hr : r ∈ rows') (hp : p r = true) :
    r ∈ rows ∧ taken r = false := by
  rw [h.left] at hr
  obtain ⟨x, hx, he⟩ := List.mem_filterMap.mp hr
  by_cases ht : taken x = true
  · rw [if_pos ht] at he
    rw [hact x r he] at hp
    cases hp
  · rw [if_neg ht] at he
    cases he
    exact ⟨hx, by simpa using ht⟩

/-- The condition is met by so many rows fewer as were taken. -/
theorem Takes.countP (h : Takes p act taken rows rows')
    (hact : ∀ r r', act r = some r' → p r' = false) :
    rows'.countP p + rows.countP taken = rows.countP p := by
  obtain ⟨hmeets, rfl⟩ := h
  induction rows with
  | nil => rfl
  | cons r rows ih =>
    have ih := ih fun x hx => hmeets x (List.mem_cons_of_mem _ hx)
    rw [List.filterMap_cons]
    by_cases ht : taken r = true
    · have hp := hmeets r List.mem_cons_self ht
      rw [if_pos ht, List.countP_cons_of_pos ht, List.countP_cons_of_pos hp]
      cases ha : act r with
      | none =>
        simp only
        omega
      | some r' =>
        simp only
        rw [List.countP_cons_of_neg (by simp [hact r r' ha])]
        omega
    · rw [if_neg ht, List.countP_cons_of_neg ht]
      simp only [List.countP_cons]
      omega

/-- One batch after the other. -/
theorem Takes.trans (h : Takes p act taken rows rows') (h' : Takes p act taken' rows' rows'')
    (hact : ∀ r r', act r = some r' → p r' = false) :
    Takes p act (fun r => taken r || taken' r) rows rows'' := by
  constructor
  · intro r hr ht
    by_cases hfirst : taken r = true
    · exact h.meets r hr hfirst
    · have hfirst : taken r = false := by simpa using hfirst
      rw [hfirst, Bool.false_or] at ht
      exact h'.meets r (h.mem hr hfirst) ht
  · have hrest : ∀ r' ∈ rows', p r' = false → taken' r' = false := by
      intro r' hr' hp
      by_contra ht
      rw [h'.meets r' hr' (by simpa using ht)] at hp
      cases hp
    rw [h'.left, h.left, List.filterMap_filterMap]
    apply List.filterMap_congr
    intro r hr
    by_cases hfirst : taken r = true
    · rw [if_pos hfirst, hfirst, Bool.true_or, if_pos rfl]
      cases ha : act r with
      | none => rfl
      | some r' =>
        have hmem : r' ∈ rows' := by
          rw [h.left]
          exact List.mem_filterMap.mpr ⟨r, hr, by rw [if_pos hfirst]; exact ha⟩
        rw [Option.bind_some, hrest r' hmem (hact r r' ha)]
        rfl
    · have hfirst : taken r = false := by simpa using hfirst
      rw [hfirst, Bool.false_or]
      rfl

theorem Takes.countP_trans (h : Takes p act taken rows rows') (h' : Takes p act taken' rows' rows'')
    (hact : ∀ r r', act r = some r' → p r' = false) :
    rows.countP (fun r => taken r || taken' r) = rows.countP taken + rows'.countP taken' := by
  have hfirst := h.countP hact
  have hsecond := h'.countP hact
  have hboth := (h.trans h' hact).countP hact
  omega

/-- Of another condition that no taken row meets, before or after, as many rows
are left as there were. -/
theorem Takes.countP_of_disjoint (h : Takes p act taken rows rows') {q : ρ → Bool}
    (hpq : ∀ r, p r = true → q r = false) (hact : ∀ r r', act r = some r' → q r' = false) :
    rows'.countP q = rows.countP q := by
  obtain ⟨hmeets, rfl⟩ := h
  induction rows with
  | nil => rfl
  | cons r rows ih =>
    have ih := ih fun x hx => hmeets x (List.mem_cons_of_mem _ hx)
    rw [List.filterMap_cons]
    by_cases ht : taken r = true
    · have hq := hpq r (hmeets r List.mem_cons_self ht)
      rw [if_pos ht, List.countP_cons_of_neg (by simp [hq]), ← ih]
      cases ha : act r with
      | none => rfl
      | some r' => exact List.countP_cons_of_neg (by simp [hact r r' ha])
    · rw [if_neg ht]
      simp only [List.countP_cons]
      rw [ih]

/-- `n` rows were taken: all that meet the condition, or `size` of them. -/
def TakesUpTo (p : ρ → Bool) (act : ρ → Option ρ) (size : ℕ) (rows rows' : List ρ) (n : ℕ) : Prop :=
  ∃ taken, Takes p act taken rows rows' ∧ rows.countP taken = n ∧ n = min (rows.countP p) size

theorem TakesUpTo.none (p : ρ → Bool) (act : ρ → Option ρ) (rows : List ρ) :
    TakesUpTo p act 0 rows rows 0 :=
  ⟨_, Takes.refl p act rows, by simp, by simp⟩

theorem TakesUpTo.short {size size' n : ℕ} (h : TakesUpTo p act size rows rows' n) (hn : n < size)
    (hsize : size ≤ size') : TakesUpTo p act size' rows rows' n := by
  obtain ⟨taken, htakes, hcount, hmin⟩ := h
  refine ⟨taken, htakes, hcount, ?_⟩
  omega

theorem TakesUpTo.trans {size size' n n' : ℕ} (h : TakesUpTo p act size rows rows' n)
    (h' : TakesUpTo p act size' rows' rows'' n') (hact : ∀ r r', act r = some r' → p r' = false) :
    TakesUpTo p act (size + size') rows rows'' (n + n') := by
  obtain ⟨taken, htakes, hcount, hmin⟩ := h
  obtain ⟨taken', htakes', hcount', hmin'⟩ := h'
  refine ⟨_, htakes.trans htakes' hact, ?_, ?_⟩
  · rw [htakes.countP_trans htakes' hact, hcount, hcount']
  · have hrest := htakes.countP hact
    omega

end Takes

/-! A batch by its keys. -/
section Picked
variable [BEq κ] [LawfulBEq κ] {key : ρ → κ} {rows picked : List ρ}

theorem filter_contains_perm (hkey : (rows.map key).Nodup) (hmem : ∀ r ∈ picked, r ∈ rows)
    (hnodup : picked.Nodup) :
    (rows.filter fun r => (picked.map key).contains (key r)).Perm picked := by
  apply (List.perm_ext_iff_of_nodup ((List.Nodup.of_map key hkey).filter _) hnodup).mpr
  intro r
  rw [List.mem_filter, List.contains_iff_mem, List.mem_map]
  constructor
  · rintro ⟨hr, x, hx, he⟩
    rw [← List.inj_on_of_nodup_map hkey (hmem x hx) hr he]
    exact hx
  · exact fun hr => ⟨hmem r hr, r, hr, rfl⟩

theorem countP_contains (hkey : (rows.map key).Nodup) (hmem : ∀ r ∈ picked, r ∈ rows)
    (hnodup : picked.Nodup) :
    rows.countP (fun r => (picked.map key).contains (key r)) = picked.length := by
  rw [List.countP_eq_length_filter]
  exact (filter_contains_perm hkey hmem hnodup).length_eq

theorem takesUpTo_of_keys {p : ρ → Bool} {act : ρ → Option ρ} {size : ℕ}
    (hkey : (rows.map key).Nodup) (hmem : ∀ r ∈ picked, r ∈ rows ∧ p r = true)
    (hnodup : picked.Nodup) (hlen : picked.length = min (rows.countP p) size) :
    TakesUpTo p act size rows
      (rows.filterMap fun r => if (picked.map key).contains (key r) then act r else some r)
      (picked.map key).length := by
  have hpicked : ∀ r ∈ rows, (picked.map key).contains (key r) = true → r ∈ picked := by
    intro r hr hc
    obtain ⟨x, hx, he⟩ := List.mem_map.mp (List.contains_iff_mem.mp hc)
    rw [← List.inj_on_of_nodup_map hkey (hmem x hx).1 hr he]
    exact hx
  refine ⟨_, ⟨fun r hr hc => (hmem r (hpicked r hr hc)).2, rfl⟩, ?_, ?_⟩
  · rw [countP_contains hkey (fun r hr => (hmem r hr).1) hnodup, List.length_map]
  · rw [List.length_map, hlen]

end Picked
end Base
