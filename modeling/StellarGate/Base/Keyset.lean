import Mathlib.Data.List.Sort
import Mathlib.Order.Basic
import Mathlib.Tactic.Common

/-! Paging through a list in the order of a key: a page holds the first
entries after a given key. -/
namespace Base
variable {α κ : Type*} [LinearOrder κ]

/-- The entries stand in the strict order of their keys. -/
def SortedBy (key : α → κ) (l : List α) : Prop := l.Pairwise fun x y => key x < key y

/-- The entries after the key `c`. -/
def after (key : α → κ) (c : κ) (l : List α) : List α := l.filter fun x => c < key x

/-- The entries after the key `a` up to the key `b`. -/
def stretch (key : α → κ) (a b : κ) (l : List α) : List α :=
  l.filter fun x => a < key x ∧ key x ≤ b

variable {key : α → κ} {a b c : κ} {l m page : List α} {x y : α}

theorem mem_after : x ∈ after key c l ↔ x ∈ l ∧ c < key x := by
  simp [after]

theorem SortedBy.after (h : SortedBy key l) : SortedBy key (after key c l) := h.filter _

theorem SortedBy.of_append (h : SortedBy key (l ++ m)) (hx : x ∈ l) (hy : y ∈ m) : key x < key y :=
  (List.pairwise_append.mp h).2.2 x hx y hy

theorem SortedBy.concat (h : SortedBy key l) (hx : ∀ y ∈ l, key y < key x) :
    SortedBy key (l ++ [x]) := by
  refine List.pairwise_append.mpr ⟨h, List.pairwise_singleton _ _, fun y hy z hz => ?_⟩
  rw [List.mem_singleton.mp hz]
  exact hx y hy

theorem stretch_self : stretch key a a l = [] := by
  apply List.filter_eq_nil_iff.mpr
  intro x _ h
  obtain ⟨hlt, hle⟩ := by simpa using h
  exact absurd hlt (not_lt.mpr hle)

theorem after_eq_stretch_append (h : SortedBy key l) (hab : a ≤ b) :
    after key a l = stretch key a b l ++ after key b l := by
  induction l with
  | nil => rfl
  | cons x l ih =>
    obtain ⟨hx, hl⟩ := List.pairwise_cons.mp h
    have ih := ih hl
    unfold after stretch at ih ⊢
    by_cases hax : a < key x
    · by_cases hbx : key x ≤ b
      · simp only [List.filter_cons, hax, hbx, not_lt.mpr hbx, and_self, decide_true,
          decide_false, if_true, Bool.false_eq_true, if_false, List.cons_append, ih]
      · -- the rest of the list is beyond `b` too
        have hbx : b < key x := not_le.mp hbx
        have hnil : l.filter (fun y => decide (a < key y ∧ key y ≤ b)) = [] := by
          apply List.filter_eq_nil_iff.mpr
          intro y hy hle
          have := (of_decide_eq_true hle).2
          exact absurd (hbx.trans (hx y hy)) (not_lt.mpr this)
        rw [hnil] at ih
        simp only [List.filter_cons, hax, hbx, not_le.mpr hbx, and_false, decide_true,
          decide_false, if_true, Bool.false_eq_true, if_false, hnil, ih, List.nil_append]
    · have hbx : ¬ b < key x := fun hb => hax (hab.trans_lt hb)
      simp only [List.filter_cons, hax, hbx, false_and, decide_false, Bool.false_eq_true,
        if_false, ih]

theorem stretch_eq_of_prefix (h : SortedBy key l) {front : List α}
    (hp : front ++ [x] <+: after key c l) : stretch key c (key x) l = front ++ [x] := by
  obtain ⟨rest, hrest⟩ := hp
  have hsorted : SortedBy key (front ++ [x] ++ rest) := hrest ▸ h.after
  have hfront : ∀ y ∈ front ++ [x], key y ≤ key x := by
    intro y hy
    rcases List.mem_append.mp hy with hy | hy
    · rw [List.append_assoc] at hsorted
      exact (hsorted.of_append hy (by simp)).le
    · rw [List.mem_singleton.mp hy]
  -- both sides are what the entries after `c` keep up to `key x`
  have hkeep : (after key c l).filter (fun y => key y ≤ key x) = stretch key c (key x) l := by
    unfold after stretch
    rw [List.filter_filter]
    exact List.filter_congr fun y _ => by simp [and_comm]
  have hpage : (front ++ [x]).filter (fun y => key y ≤ key x) = front ++ [x] :=
    List.filter_eq_self.mpr fun y hy => by simpa using hfront y hy
  have htail : rest.filter (fun y => key y ≤ key x) = [] := by
    apply List.filter_eq_nil_iff.mpr
    intro y hy
    have := hsorted.of_append (x := x) (by simp) hy
    simpa using this
  rw [← hkeep, ← hrest, List.filter_append, hpage, htail, List.append_nil]

theorem stretch_append (h : SortedBy key l) (hab : a ≤ b) (hbc : b ≤ c) :
    stretch key a c l = stretch key a b l ++ stretch key b c l := by
  have hac := after_eq_stretch_append h (hab.trans hbc)
  rw [after_eq_stretch_append h hab, after_eq_stretch_append h hbc, ← List.append_assoc] at hac
  exact (List.append_cancel_right hac).symm

/-! Following the cursor of one page to the next, over a list that may change
between two requests. -/
section Follow
variable {σ β γ : Type*}

/-- Requests from the cursor `c` on, one for each of the states, until one hands out no further
cursor: the pages, and whether that end was reached. `none` when a request is refused. -/
def follow (fetch : Option γ → σ → Option (List β × Option γ)) :
    Option γ → List σ → Option (List (List β) × Bool)
  | _, [] => some ([], false)
  | c, s :: ss =>
    match fetch c s with
    | none => none
    | some (page, none) => some ([page], true)
    | some (page, some c') => (follow fetch (some c') ss).map fun r => (page :: r.1, r.2)

/-- Requests that run side by side with others, from related cursors and states, return the
images of their pages. -/
theorem follow_map {σ' β' γ' : Type*} {fetch : Option γ → σ → Option (List β × Option γ)}
    {fetch' : Option γ' → σ' → Option (List β' × Option γ')} (f : σ' → σ) (g : γ → γ') (h : β → β')
    {P : Option γ → Prop} {ss : List σ'}
    (hfetch : ∀ s ∈ ss, ∀ c, P c → ∃ page next, fetch c (f s) = some (page, next) ∧ P next ∧
      fetch' (c.map g) s = some (page.map h, next.map g)) {c : Option γ} (hc : P c) :
    follow fetch' (c.map g) ss =
      (follow fetch c (ss.map f)).map fun r => (r.1.map (List.map h), r.2) := by
  induction ss generalizing c with
  | nil => rfl
  | cons s ss ih =>
    obtain ⟨page, next, hf, hnext, hf'⟩ := hfetch s (by simp) c hc
    cases next with
    | none => simp [follow, hf, hf']
    | some c' =>
      have hrest := ih (fun s' hs' => hfetch s' (by simp [hs'])) hnext
      simp only [List.map_cons, follow, hf, hf', Option.map_some] at hrest ⊢
      rw [hrest, Option.map_map, Option.map_map]
      rfl

def afterCursor (key : α → κ) (c : Option κ) (l : List α) : List α :=
  match c with
  | none => l
  | some c => after key c l

/-- A page of at most `n` entries, with the key of its last one while it is full. -/
def fetchPage (key : α → κ) (n : ℕ) (c : Option κ) (l : List α) : Option (List α × Option κ) :=
  let page := (afterCursor key c l).take n
  some (page, if page.length = n then page.getLast?.map key else none)

variable {key : α → κ} {n : ℕ} {c : Option κ} {l : List α} {ls : List (List α)}
  {pages : List (List α)} {done : Bool}

theorem afterCursor_sorted (h : SortedBy key l) : SortedBy key (afterCursor key c l) := by
  cases c with
  | none => exact h
  | some c => exact h.after

theorem mem_afterCursor {x : α} : x ∈ afterCursor key c l ↔ x ∈ l ∧ ∀ a ∈ c, a < key x := by
  cases c with
  | none => simp [afterCursor]
  | some c => simp [afterCursor, mem_after]

theorem after_append_cons {front rest : List α} {x : α} (h : SortedBy key (front ++ x :: rest)) :
    after key (key x) (front ++ x :: rest) = rest := by
  have hfront : front.filter (fun y => key x < key y) = [] := by
    apply List.filter_eq_nil_iff.mpr
    intro y hy
    have hlt := h.of_append hy List.mem_cons_self
    simpa using hlt.le
  have hrest : rest.filter (fun y => key x < key y) = rest := by
    apply List.filter_eq_self.mpr
    intro y hy
    have hlt := (List.pairwise_cons.mp (List.pairwise_append.mp h).2.1).1 y hy
    simpa using hlt
  unfold after
  rw [List.filter_append, hfront, List.filter_cons_of_neg (by simp), hrest, List.nil_append]

theorem afterCursor_split (h : SortedBy key l) {front : List α} {x : α}
    (hp : (afterCursor key c l).take n = front ++ [x]) :
    afterCursor key (some (key x)) l = (afterCursor key c l).drop n := by
  have hsplit : afterCursor key c l = front ++ x :: (afterCursor key c l).drop n := by
    conv_lhs => rw [← List.take_append_drop n (afterCursor key c l), hp]
    rw [List.append_assoc, List.singleton_append]
  have hsorted := afterCursor_sorted (c := c) h
  have hx : x ∈ afterCursor key c l := by
    rw [hsplit]
    simp
  have hkeep : afterCursor key (some (key x)) l = after key (key x) (afterCursor key c l) := by
    cases c with
    | none => rfl
    | some c =>
      have hc := (mem_after.mp hx).2
      simp only [afterCursor, after, List.filter_filter]
      apply List.filter_congr
      intro y _
      by_cases hy : key x < key y
      · simp [hy, hc.trans hy]
      · simp [hy]
  rw [hkeep]
  rw [hsplit] at hsorted
  conv_lhs => rw [hsplit]
  exact after_append_cons hsorted

theorem fetchPage_eq {page : List α} {next : Option κ}
    (h : fetchPage key n c l = some (page, next)) :
    page = (afterCursor key c l).take n ∧
      (page.length = n ∧ next = page.getLast?.map key ∨ page.length ≠ n ∧ next = none) := by
  obtain ⟨rfl, rfl⟩ := Prod.mk.inj (Option.some.inj h)
  refine ⟨rfl, ?_⟩
  split_ifs with hn
  · exact .inl ⟨hn, rfl⟩
  · exact .inr ⟨hn, rfl⟩

/-- A page that hands out a cursor ends with it; without one it is the end of the list. -/
theorem fetchPage_cases (hn : 0 < n) {page : List α} {next : Option κ}
    (h : fetchPage key n c l = some (page, next)) :
    (next = none ∧ page = afterCursor key c l ∧ page.length < n) ∨
    ∃ front x, page = front ++ [x] ∧ page.length = n ∧ next = some (key x) ∧
      (afterCursor key c l).take n = page := by
  obtain ⟨hpage, ⟨hlen, hnext⟩ | ⟨hlen, hnext⟩⟩ := fetchPage_eq h
  · right
    have hne : page ≠ [] := by
      intro hnil
      rw [hnil] at hlen
      exact absurd hlen (Nat.ne_of_lt hn)
    refine ⟨page.dropLast, page.getLast hne, (List.dropLast_append_getLast hne).symm, hlen, ?_,
      hpage.symm⟩
    rw [hnext, List.getLast?_eq_some_getLast hne, Option.map_some]
  · left
    have hshort : page.length < n := by
      have : page.length ≤ n := by
        rw [hpage]
        exact List.length_take_le _ _
      omega
    refine ⟨hnext, ?_, hshort⟩
    rw [hpage] at hshort ⊢
    rw [List.length_take] at hshort
    exact List.take_of_length_le (by omega)

theorem exists_follow (c : Option κ) (ls : List (List α)) :
    ∃ pages done, follow (fetchPage key n) c ls = some (pages, done) := by
  induction ls generalizing c with
  | nil => exact ⟨[], false, rfl⟩
  | cons l ls ih =>
    simp only [follow]
    split
    · next hf => simp [fetchPage] at hf
    · exact ⟨_, _, rfl⟩
    · next page c' _ =>
      obtain ⟨pages, done, hrest⟩ := ih (some c')
      exact ⟨page :: pages, done, by rw [hrest]; rfl⟩

theorem exists_mem_of_follow (h : follow (fetchPage key n) c ls = some (pages, done)) {x : α}
    (hx : x ∈ pages.flatten) : ∃ l ∈ ls, x ∈ l := by
  induction ls generalizing c pages done with
  | nil =>
    obtain ⟨rfl, -⟩ := Prod.mk.inj (Option.some.inj h)
    simp at hx
  | cons l ls ih =>
    have hpage {page : List α} {next : Option κ} (hf : fetchPage key n c l = some (page, next))
        (hx : x ∈ page) : x ∈ l := by
      obtain ⟨rfl, -⟩ := fetchPage_eq hf
      exact (mem_afterCursor.mp (List.mem_of_mem_take hx)).1
    simp only [follow] at h
    split at h
    · cases h
    · next page hf =>
      obtain ⟨rfl, -⟩ := Prod.mk.inj (Option.some.inj h)
      exact ⟨l, by simp, hpage hf (by simpa using hx)⟩
    · next page c' hf =>
      obtain ⟨⟨pages', done'⟩, hrest, heq⟩ := Option.map_eq_some_iff.mp h
      obtain ⟨rfl, rfl⟩ := Prod.mk.inj heq
      rcases List.mem_append.mp hx with hx | hx
      · exact ⟨l, by simp, hpage hf hx⟩
      · obtain ⟨l', hl', hxl⟩ := ih hrest hx
        exact ⟨l', by simp [hl'], hxl⟩

/-- Over any states the pages stand in the order of the keys, without a repetition. -/
theorem follow_sorted (hn : 0 < n) (hl : ∀ l ∈ ls, SortedBy key l)
    (h : follow (fetchPage key n) c ls = some (pages, done)) :
    SortedBy key pages.flatten ∧ ∀ x ∈ pages.flatten, ∀ a ∈ c, a < key x := by
  induction ls generalizing c pages with
  | nil =>
    obtain ⟨rfl, -⟩ := Prod.mk.inj (Option.some.inj h)
    exact ⟨List.Pairwise.nil, by simp⟩
  | cons l ls ih =>
    have hsorted := afterCursor_sorted (c := c) (hl l (by simp))
    simp only [follow] at h
    split at h
    · cases h
    · next page hf =>
      obtain ⟨rfl, -⟩ := Prod.mk.inj (Option.some.inj h)
      obtain ⟨rfl, -⟩ := fetchPage_eq hf
      simp only [List.flatten_cons, List.flatten_nil, List.append_nil]
      exact ⟨hsorted.sublist (List.take_sublist _ _), fun x hx =>
        (mem_afterCursor.mp (List.mem_of_mem_take hx)).2⟩
    · next page c' hf =>
      obtain ⟨⟨pages', done'⟩, hrest, heq⟩ := Option.map_eq_some_iff.mp h
      obtain ⟨rfl, rfl⟩ := Prod.mk.inj heq
      obtain ⟨hs, hafter⟩ := ih (fun l' hl' => hl l' (by simp [hl'])) hrest
      rcases fetchPage_cases hn hf with ⟨hnone, -⟩ | ⟨front, y, hpage, -, hnext, htake⟩
      · cases hnone
      · cases Option.some.inj hnext
        have hps : SortedBy key page := htake ▸ hsorted.sublist (List.take_sublist _ _)
        have hin : ∀ x ∈ page, ∀ a ∈ c, a < key x := fun x hx =>
          (mem_afterCursor.mp (List.mem_of_mem_take (htake ▸ hx))).2
        have hlast : ∀ x ∈ page, key x ≤ key y := by
          intro x hx
          rw [hpage] at hx hps
          rcases List.mem_append.mp hx with hx | hx
          · exact (hps.of_append hx (by simp)).le
          · rw [List.mem_singleton.mp hx]
        refine ⟨List.pairwise_append.mpr ⟨hps, hs, fun x hx z hz => ?_⟩, fun x hx => ?_⟩
        · exact (hlast x hx).trans_lt (hafter z hz _ rfl)
        · rcases List.mem_append.mp hx with hx | hx
          · exact hin x hx
          · intro a ha
            have hy : y ∈ page := by simp [hpage]
            exact (hin y hy a ha).trans (hafter x hx _ rfl)

/-- Once the end is reached, every key that was there at each request was returned. -/
theorem follow_complete (hn : 0 < n) (hl : ∀ l ∈ ls, SortedBy key l)
    (h : follow (fetchPage key n) c ls = some (pages, true)) {k : κ} (hk : ∀ a ∈ c, a < k)
    (hin : ∀ l ∈ ls.take pages.length, ∃ x ∈ l, key x = k) : ∃ x ∈ pages.flatten, key x = k := by
  induction ls generalizing c pages with
  | nil => simp [follow] at h
  | cons l ls ih =>
    simp only [follow] at h
    split at h
    · cases h
    · next page hf =>
      obtain ⟨rfl, -⟩ := Prod.mk.inj (Option.some.inj h)
      obtain ⟨x, hx, hxk⟩ := hin l (by simp)
      rcases fetchPage_cases hn hf with ⟨-, hpage, -⟩ | ⟨_, _, _, _, hnext, _⟩
      · refine ⟨x, ?_, hxk⟩
        simp only [List.flatten_cons, List.flatten_nil, List.append_nil, hpage]
        exact mem_afterCursor.mpr ⟨hx, fun a ha => hxk ▸ hk a ha⟩
      · cases hnext
    · next page c' hf =>
      obtain ⟨⟨pages', done'⟩, hrest, heq⟩ := Option.map_eq_some_iff.mp h
      obtain ⟨rfl, rfl⟩ := Prod.mk.inj heq
      rcases fetchPage_cases hn hf with ⟨hnone, -⟩ | ⟨front, y, hpage, -, hnext, htake⟩
      · cases hnone
      · cases Option.some.inj hnext
        obtain ⟨x, hx, hxk⟩ := hin l (by simp)
        have hsl := hl l (by simp)
        by_cases hle : k ≤ key y
        · -- the entry is on this page, or it would come after the page's last entry
          refine ⟨x, List.mem_append_left _ ?_, hxk⟩
          have hxa : x ∈ afterCursor key c l := mem_afterCursor.mpr ⟨hx, fun a ha => hxk ▸ hk a ha⟩
          rw [← List.take_append_drop n (afterCursor key c l)] at hxa
          rcases List.mem_append.mp hxa with hxa | hxa
          · exact htake ▸ hxa
          · rw [← afterCursor_split hsl (htake.trans hpage)] at hxa
            have := (mem_afterCursor.mp hxa).2 _ rfl
            exact absurd (hxk ▸ this) (not_lt.mpr hle)
        · obtain ⟨z, hz, hzk⟩ := ih (fun l' hl' => hl l' (by simp [hl'])) hrest
            (fun a ha => by cases ha; exact not_le.mp hle)
            (fun l' hl' => hin l' (by simp [hl']))
          exact ⟨z, List.mem_append_right _ hz, hzk⟩

/-- Over an unchanged list the end is reached within `⌊m / n⌋ + 1` requests for `m` entries, and
the pages are the list. -/
theorem follow_static (hn : 0 < n) (hl : SortedBy key l) {m : ℕ}
    (hm : (afterCursor key c l).length / n ≤ m) :
    ∃ pages, follow (fetchPage key n) c (List.replicate (m + 1) l) = some (pages, true) ∧
      pages.flatten = afterCursor key c l := by
  induction m generalizing c with
  | zero =>
    have hshort : (afterCursor key c l).length < n := by
      by_contra hlong
      have := Nat.div_pos (not_lt.mp hlong) hn
      omega
    have hf : fetchPage key n c l = some (afterCursor key c l, none) := by
      simp only [fetchPage, List.take_of_length_le hshort.le, if_neg hshort.ne]
    exact ⟨[afterCursor key c l], by simp [follow, hf], by simp⟩
  | succ m ih =>
    rw [List.replicate_succ]
    simp only [follow]
    split
    · next hf => simp [fetchPage] at hf
    · next page hf =>
      rcases fetchPage_cases hn hf with ⟨-, hpage, -⟩ | ⟨_, _, _, _, hnext, _⟩
      · exact ⟨[page], rfl, by simp [hpage]⟩
      · cases hnext
    · next page c' hf =>
      rcases fetchPage_cases hn hf with ⟨hnone, -⟩ | ⟨front, y, hpage, hlen, hnext, htake⟩
      · cases hnone
      · cases Option.some.inj hnext
        have hrest := afterCursor_split hl (htake.trans hpage)
        have hm' : (afterCursor key (some (key y)) l).length / n ≤ m := by
          rw [hrest, List.length_drop]
          have := Nat.sub_mul_div (afterCursor key c l).length n 1
          rw [Nat.mul_one] at this
          omega
        obtain ⟨pages, hfollow, hflat⟩ := ih hm'
        refine ⟨page :: pages, by rw [hfollow]; rfl, ?_⟩
        rw [List.flatten_cons, hflat, hrest, ← htake, List.take_append_drop]

end Follow
end Base
