import StellarGate.Base.Keyset
import StellarGate.Horizon.Poller

/-! Which payments `poll_once` hands to `reconcile_payment`: what the persisted cursor
covers, what the first baseline leaves out, and what a cycle without failures does. -/
namespace StellarGate
open Base

namespace Poller

/-- The record was handed to `reconcile_payment`. -/
def Handed (w : Poller) (hp : HorizonPayment) : Prop := hp ∈ w.reconciled.map Prod.fst

instance (w : Poller) (hp : HorizonPayment) : Decidable (w.Handed hp) :=
  inferInstanceAs (Decidable (hp ∈ w.reconciled.map Prod.fst))

/-- The cursor a cycle pages from: the persisted one, or `"0"` while there is none. -/
def PagesFrom (w : Poller) (base : String) : Prop :=
  w.cursor = some base ∨ w.cursor = none ∧ base = "0"

section
variable (position : String → ℕ)

/-- What a cycle has done so far: the records of the page before the current
one were handed over. -/
structure Handing (w : Poller) : Prop where
  ascending : Ascending position w.history
  pc : match w.pc with
    | .baseline => w.cursor = none
    | .saveBaseline token => w.cursor = none ∧ ∃ hp ∈ w.history, place position hp = position token
    | .fetch c _ _ => w.PagesFrom c
    | .records page todo c _ _ =>
      ∃ base, w.PagesFrom base ∧ PageAfter position w.history base page ∧
        Walked base page todo c ∧ ∀ seen, page = seen ++ todo → ∀ x ∈ seen, w.Handed x
    | .checkpoint page c _ _ => ∃ base, w.PagesFrom base ∧ PageAfter position w.history base page ∧
        Walked base page [] c ∧ ∀ x ∈ page, w.Handed x
    | _ => True

end

section
variable {position : String → ℕ} {w t : Poller} {e : PollEvent} {hp : HorizonPayment}

theorem Ascending.lands {history : List HorizonPayment} (h : Ascending position history)
    (token : hp.pagingToken.isSome) (last : ∀ x ∈ history, place position x < place position hp) :
    Ascending position (history ++ [hp]) := by
  constructor
  · intro x hx
    rcases List.mem_append.mp hx with hx | hx
    · exact h.tokens x hx
    · rw [List.mem_singleton.mp hx]
      exact token
  · exact SortedBy.concat h.sorted last

theorem handed_append {result : ReconcileResult} {x : HorizonPayment} {pc : PollPc} :
    Handed { w with reconciled := w.reconciled ++ [(hp, result)], pc := pc } x ↔
      w.Handed x ∨ x = hp := by
  simp [Handed]

theorem Handing.walk {page todo : List HorizonPayment} {base cursor : String} {settled pages : ℕ}
    (ha : Ascending position w.history) (hb : w.PagesFrom base)
    (hpage : PageAfter position w.history base page) (hwalk : Walked base page todo cursor)
    (hseen : ∀ seen, page = seen ++ todo → ∀ x ∈ seen, w.Handed x) :
    Handing position { w with pc := Poller.walk page todo cursor settled pages } := by
  refine ⟨ha, ?_⟩
  unfold Poller.walk
  split_ifs with h
  · subst h
    exact ⟨base, hb, hpage, hwalk, hseen page (by simp)⟩
  · exact ⟨base, hb, hpage, hwalk, hseen⟩

theorem Handing.lands (h : Handing position w) (token : hp.pagingToken.isSome)
    (last : ∀ x ∈ w.history, place position x < place position hp) :
    Handing position { w with history := w.history ++ [hp] } := by
  refine ⟨h.ascending.lands token last, ?_⟩
  have hpc := h.pc
  simp only
  split
  · next heq => simpa only [heq] using hpc
  · next heq =>
    simp only [heq] at hpc
    obtain ⟨hc, x, hx, hplace⟩ := hpc
    exact ⟨hc, x, List.mem_append_left _ hx, hplace⟩
  · next heq =>
    simp only [heq] at hpc
    exact hpc
  · next heq =>
    simp only [heq] at hpc
    obtain ⟨base, hb, hpage, hwalk, hseen⟩ := hpc
    exact ⟨base, hb, hpage.lands last, hwalk, hseen⟩
  · next heq =>
    simp only [heq] at hpc
    obtain ⟨base, hb, hpage, hwalk, hseen⟩ := hpc
    exact ⟨base, hb, hpage.lands last, hwalk, hseen⟩
  · trivial

theorem next_seen {page seen seen' todo : List HorizonPayment} (h : page = seen ++ hp :: todo)
    (h' : page = seen' ++ todo) : seen' = seen ++ [hp] := by
  apply (List.append_left_inj todo).mp
  rw [← h', h]
  simp

theorem Handing.record {page todo : List HorizonPayment} {cursor : String} {settled pages : ℕ}
    {result : ReconcileResult} (h : Handing position w)
    (heq : w.pc = .records page (hp :: todo) cursor settled pages) (n : ℕ) :
    Handing position { w with
      reconciled := w.reconciled ++ [(hp, result)]
      pc := Poller.walk page todo (hp.pagingToken.getD cursor) n pages } := by
  have hpc := h.pc
  simp only [heq] at hpc
  obtain ⟨base, hb, hpage, hwalk, hseen⟩ := hpc
  obtain ⟨seen, hsplit, -⟩ := id hwalk
  have hin : hp ∈ page := by simp [hsplit]
  apply Handing.walk (w := { w with reconciled := w.reconciled ++ [(hp, result)] })
    h.ascending hb hpage (hwalk.next (h.ascending.tokens hp (hpage.after hp hin).1))
  intro seen' hsplit' x hx
  have hsame := next_seen hsplit hsplit'
  rw [hsame] at hx
  rcases List.mem_append.mp hx with hx | hx
  · exact handed_append.mpr (.inl (hseen seen hsplit x hx))
  · exact handed_append.mpr (.inr (List.mem_singleton.mp hx))

theorem Handing.step (hs : Poller.step position w e = some t) (h : Handing position w) :
    Handing position t := by
  have hpc := h.pc
  cases step_moves hs with
  | lands token _ last => exact h.lands token last
  | poll | failed | crash => exact ⟨h.ascending, trivial⟩
  | resume _ hc => exact ⟨h.ascending, .inl hc⟩
  | unset _ hc => exact ⟨h.ascending, hc⟩
  | latest heq hlast =>
    simp only [heq] at hpc
    obtain ⟨x, hx, htoken⟩ := Option.bind_eq_some_iff.mp hlast
    exact ⟨h.ascending, hpc, x, List.mem_of_getLast? hx, by simp [place, htoken]⟩
  | fromZero heq =>
    simp only [heq] at hpc
    exact ⟨h.ascending, .inr ⟨hpc, rfl⟩⟩
  | baselined => exact ⟨h.ascending, .inl rfl⟩
  | page heq hpage =>
    simp only [heq] at hpc
    subst hpage
    apply Handing.walk h.ascending hpc (fetchRecentPayments_pageAfter h.ascending _)
      ⟨[], rfl, .inl ⟨rfl, rfl⟩⟩
    intro seen hseen x hx
    rw [List.self_eq_append_left.mp hseen] at hx
    exact absurd hx List.not_mem_nil
  | checkpoint =>
    refine ⟨h.ascending, ?_⟩
    unfold afterCheckpoint
    split_ifs
    · trivial
    · trivial
    · exact .inl rfl
  | record heq => exact h.record heq _

/-- A successful statement or request of a cycle moves the cursor only with a
baseline or a checkpoint. -/
theorem step_cycle (hs : step position w e = some t) (he : e = .poll ∨ e = .reply true) :
    t.history = w.history ∧ t.reconciled = w.reconciled ∧
      (∀ page todo cursor settled pages, w.pc ≠ .records page todo cursor settled pages) ∧
      (t.cursor = w.cursor ∨
        (∃ token, e = .reply true ∧ w.pc = .saveBaseline token ∧ t.cursor = some token) ∨
        ∃ page cursor settled pages, w.pc = .checkpoint page cursor settled pages ∧
          t.cursor = some cursor) := by
  cases step_moves hs with
  | poll ended =>
    refine ⟨rfl, rfl, ?_, .inl rfl⟩
    rcases ended with ended | ⟨result, ended⟩ <;> simp [ended]
  | resume heq | unset heq | latest heq | fromZero heq | page heq =>
    exact ⟨rfl, rfl, by simp [heq], .inl rfl⟩
  | baselined heq => exact ⟨rfl, rfl, by simp [heq], .inr (.inl ⟨_, rfl, heq, rfl⟩)⟩
  | checkpoint heq => exact ⟨rfl, rfl, by simp [heq], .inr (.inr ⟨_, _, _, _, heq, rfl⟩)⟩
  | lands | failed | record | crash => simp at he

/-- At the end of a page every record after the cursor it was fetched with, up to the one it
ends with, was handed over. -/
theorem Handing.checkpoint {page : List HorizonPayment} {cursor : String} {settled pages : ℕ}
    (h : Handing position w) (heq : w.pc = .checkpoint page cursor settled pages) :
    ∃ base, w.PagesFrom base ∧ position base ≤ position cursor ∧
      ∀ x ∈ w.history, position base < place position x → place position x ≤ position cursor →
        w.Handed x := by
  have hpc := h.pc
  simp only [heq] at hpc
  obtain ⟨base, hb, hpage, hwalk, hall⟩ := hpc
  refine ⟨base, hb, ?_⟩
  rcases hwalk.end_cases hpage with ⟨-, rfl⟩ | ⟨last, hlast, hplace, -⟩
  · exact ⟨le_rfl, fun x _ hlt hle => by omega⟩
  · have := (hpage.after last hlast).2
    refine ⟨by omega, fun x hx hlt hle => ?_⟩
    exact hall x (hpage.closed x hx last hlast hlt (by omega))

end

/-! The first run, without a persisted cursor. -/
section Baseline
variable (position : String → ℕ) (known : List HorizonPayment)

/-- Every record that landed after the start (it is not among the `known` ones) was handed
over before the persisted cursor passed it. -/
def Passed (w : Poller) : Prop :=
  ∀ cursor ∈ w.cursor, ∀ hp ∈ w.history, hp ∉ known → place position hp ≤ position cursor →
  w.Handed hp

/-- A baseline is persisted only at a record from before the start, or at one that an earlier
cycle has handed over. -/
def BaselinesSeen (w : Poller) (e : PollEvent) : Prop :=
  match w.pc, e with
  | .saveBaseline token, .reply true =>
    ∀ hp ∈ w.history, place position hp = position token → hp ∈ known ∨ w.Handed hp
  | _, _ => True

instance (w : Poller) : Decidable (w.Passed position known) :=
  inferInstanceAs (Decidable (∀ cursor ∈ w.cursor, ∀ hp ∈ w.history, hp ∉ known →
    place position hp ≤ position cursor → w.Handed hp))

/-- What holds while the poller baselines: the records known at the start come first, and
as long as nothing is persisted the records handed over are the first ones that landed. -/
structure Baselining (w : Poller) : Prop where
  handing : Handing position w
  landed : ∀ hp ∈ w.history, hp ∉ known →
    position "0" < place position hp ∧ ∀ x ∈ known, place position x < place position hp
  older : ∀ x ∈ known, x ∈ w.history
  first : w.cursor = none → ∀ x ∈ w.history, x ∉ known → ∀ y ∈ w.history, y ∉ known →
    place position x ≤ place position y → w.Handed y → w.Handed x
  calls : ∀ hp, w.Handed hp → hp ∈ w.history
  persisted : ∀ cursor ∈ w.cursor,
    position cursor = position "0" ∨ ∃ x ∈ w.history, place position x = position cursor

variable {position known} {w t : Poller} {e : PollEvent}

theorem Baselining.start (h : Ascending position known) :
    Baselining position known (Poller.start known none) where
  handing := ⟨h, trivial⟩
  landed hp hin hnot := absurd hin hnot
  older _ hx := hx
  first _ x hx hnot := absurd hx hnot
  calls _ hp := absurd hp List.not_mem_nil
  persisted _ hc := by cases hc

theorem Baselining.lands {hp : HorizonPayment} (h : Baselining position known w)
    (token : hp.pagingToken.isSome) (positive : position "0" < place position hp)
    (last : ∀ x ∈ w.history, place position x < place position hp) :
    Baselining position known { w with history := w.history ++ [hp] } := by
  have hmem {x : HorizonPayment} (hx : x ∈ w.history ++ [hp]) : x ∈ w.history ∨ x = hp := by
    simpa using hx
  refine ⟨h.handing.lands token last, ?_, ?_, ?_, ?_, ?_⟩
  · intro x hx hnot
    rcases hmem hx with hx | rfl
    · exact h.landed x hx hnot
    · exact ⟨positive, fun y hy => last y (h.older y hy)⟩
  · intro x hx
    exact List.mem_append_left _ (h.older x hx)
  · intro hc x hx hxk y _ hyk hle hhanded
    have hy := h.calls y hhanded
    rcases hmem hx with hx | rfl
    · exact h.first hc x hx hxk y hy hyk hle hhanded
    · have := last y hy
      omega
  · intro x hx
    exact List.mem_append_left _ (h.calls x hx)
  · intro c hc
    exact (h.persisted c hc).imp_right fun ⟨x, hx, hplace⟩ => ⟨x, List.mem_append_left _ hx, hplace⟩

/-- Before anything is persisted, the record that is handed over follows
those already handed over. -/
theorem Baselining.record {page todo : List HorizonPayment} {hp : HorizonPayment} {cursor : String}
    {settled pages : ℕ} {result : ReconcileResult} (h : Baselining position known w)
    (heq : w.pc = .records page (hp :: todo) cursor settled pages) (n : ℕ) :
    Baselining position known { w with
      reconciled := w.reconciled ++ [(hp, result)]
      pc := Poller.walk page todo (hp.pagingToken.getD cursor) n pages } := by
  have hpc := h.handing.pc
  simp only [heq] at hpc
  obtain ⟨base, hb, hpage, ⟨seen, hsplit, -⟩, hseen⟩ := hpc
  have hin : hp ∈ w.history := (hpage.after hp (by simp [hsplit])).1
  have hsorted : SortedBy (place position) (seen ++ hp :: todo) := hsplit ▸ hpage.sorted
  refine ⟨h.handing.record heq n, h.landed, h.older, ?_, ?_, h.persisted⟩
  · intro hc x hx hxk y hy hyk hle hhanded
    rw [handed_append] at hhanded ⊢
    rcases hhanded with hhanded | rfl
    · exact .inl (h.first hc x hx hxk y hy hyk hle hhanded)
    · -- the page was fetched from "0", so it holds everything up to `y`
      have hbase : base = "0" := by
        rcases hb with hb | ⟨-, hb⟩
        · exact absurd (hb.symm.trans hc) (by simp)
        · exact hb
      have hxpage : x ∈ seen ++ y :: todo :=
        hsplit ▸ hpage.closed x hx y (by simp [hsplit]) (hbase ▸ (h.landed x hx hxk).1) hle
      rcases List.mem_append.mp hxpage with hxs | hxs
      · exact .inl (hseen seen hsplit x hxs)
      · rcases List.mem_cons.mp hxs with rfl | hxs
        · exact .inr rfl
        · have := (List.pairwise_cons.mp (List.pairwise_append.mp hsorted).2.1).1 x hxs
          omega
  · intro x hx
    rcases handed_append.mp hx with hx | rfl
    · exact h.calls x hx
    · exact hin

theorem Baselining.checkpoint {page : List HorizonPayment} {cursor : String} {settled pages : ℕ}
    (h : Baselining position known w) (heq : w.pc = .checkpoint page cursor settled pages)
    (ht : Handing position { w with
      cursor := some cursor, pc := afterCheckpoint page cursor settled pages }) :
    Baselining position known { w with
      cursor := some cursor, pc := afterCheckpoint page cursor settled pages } := by
  have hpc := h.handing.pc
  simp only [heq] at hpc
  obtain ⟨base, hb, hpage, hwalk, -⟩ := hpc
  refine ⟨ht, h.landed, h.older, ?_, h.calls, ?_⟩
  · intro hc
    cases hc
  · intro c hc
    cases Option.some.inj hc
    rcases hwalk.end_cases hpage with ⟨-, rfl⟩ | ⟨x, hx, hplace, -⟩
    · rcases hb with hb | ⟨-, rfl⟩
      · exact h.persisted _ hb
      · exact .inl rfl
    · exact .inr ⟨x, (hpage.after x hx).1, hplace⟩

theorem Baselining.step (hs : Poller.step position w e = some t) (h : Baselining position known w) :
    Baselining position known t := by
  have ht := h.handing.step hs
  cases step_moves hs with
  | lands token positive last => exact h.lands token positive last
  | poll | resume | unset | latest | fromZero | page | failed | crash =>
    exact ⟨ht, h.landed, h.older, h.first, h.calls, h.persisted⟩
  | baselined heq =>
    have hpc := h.handing.pc
    simp only [heq] at hpc
    refine ⟨ht, h.landed, h.older, ?_, h.calls, ?_⟩
    · intro hc
      cases hc
    · intro c hc
      cases Option.some.inj hc
      exact .inr hpc.2
  | checkpoint heq => exact h.checkpoint heq ht
  | record heq => exact h.record heq _

/-- A baseline at a record passes only records handed over exactly when the record itself is
known from the start or was handed over. -/
theorem passed_baseline_iff {token : String} (h : Baselining position known w)
    (heq : w.pc = .saveBaseline token) (pc : PollPc) (origin : Option String) :
    Passed position known { w with cursor := some token, origin := origin, pc := pc } ↔
      ∀ hp ∈ w.history, place position hp = position token → hp ∈ known ∨ w.Handed hp := by
  have hpc := h.handing.pc
  simp only [heq] at hpc
  obtain ⟨hc, r, hr, hplace⟩ := hpc
  constructor
  · intro hpassed hp hin hat
    by_cases hk : hp ∈ known
    · exact .inl hk
    · exact .inr (hpassed token rfl hp hin hk hat.le)
  · intro hseen c hc' hp hin hk hle
    cases Option.some.inj hc'
    rcases hseen r hr hplace with hold | hhanded
    · have := (h.landed hp hin hk).2 r hold
      omega
    · by_cases hrk : r ∈ known
      · have := (h.landed hp hin hk).2 r hrk
        omega
      · exact h.first hc hp hin hk r hr hrk (by omega) hhanded

/-- A checkpoint passes only records that were handed over. -/
theorem Passed.checkpoint {page : List HorizonPayment} {cursor : String} {settled pages : ℕ}
    (h : Baselining position known w) (hp : w.Passed position known)
    (heq : w.pc = .checkpoint page cursor settled pages) (pc : PollPc) :
    Passed position known { w with cursor := some cursor, pc := pc } := by
  obtain ⟨base, hb, -, hall⟩ := h.handing.checkpoint heq
  intro c hc x hx hk hle
  cases Option.some.inj hc
  by_cases hbase : place position x ≤ position base
  · rcases hb with hb | ⟨-, rfl⟩
    · exact hp base hb x hx hk hbase
    · have := (h.landed x hx hk).1
      omega
  · exact hall x hx (by omega) hle

theorem passed_step_iff (hs : step position w e = some t) (h : Baselining position known w)
    (hp : w.Passed position known) :
    t.Passed position known ↔ w.BaselinesSeen position known e := by
  have hok (hne : ∀ token, w.pc = .saveBaseline token → e ≠ .reply true)
      (ht : t.Passed position known) :
      t.Passed position known ↔ w.BaselinesSeen position known e := by
    refine iff_of_true ht ?_
    unfold BaselinesSeen
    split
    · next heq => exact absurd rfl (hne _ heq)
    · trivial
  cases step_moves hs with
  | lands token positive last =>
    apply hok (by simp)
    intro c hc x hx hk hle
    rcases List.mem_append.mp hx with hx | hx
    · exact hp c hc x hx hk hle
    · rw [List.mem_singleton.mp hx] at hle
      rcases h.persisted c hc with hz | ⟨y, hy, hplace⟩
      · omega
      · have := last y hy
        omega
  | poll | failed | crash => exact hok (by simp) hp
  | resume heq | unset heq | latest heq | fromZero heq | page heq => exact hok (by simp [heq]) hp
  | baselined heq =>
    rw [passed_baseline_iff h heq]
    simp only [BaselinesSeen, heq]
  | checkpoint heq => exact hok (by simp [heq]) (hp.checkpoint h heq _)
  | record =>
    apply hok (by simp)
    intro c hc x hx hk hle
    exact handed_append.mpr (.inl (hp c hc x hx hk hle))

/-- On a first run every record that lands is handed over before the persisted cursor
passes it exactly when no baseline is persisted at a record that landed after the start
and was not handed over. -/
theorem baseline_passes_iff {es : List PollEvent} (hh : Ascending position known)
    (hr : run (step position) (start known none) es = some w) :
    (∀ fs, fs <+: es → ∀ u, run (step position) (start known none) fs = some u →
      u.Passed position known) ↔
      Along (step position) (BaselinesSeen position known) (start known none) es := by
  apply always_iff_along (I := Baselining position known) (fun _ _ _ hs hi => hi.step hs)
    (fun _ _ _ hs hi hp => passed_step_iff hs hi hp) hr (Baselining.start hh)
  intro c hc
  cases hc

/-- The account is empty, so the cycle starts at the beginning; a record that lands before
its page is fetched is handed over. -/
theorem baseline_passes_iff_empty :
    let es := [.poll, .reply true, .reply true, .lands (Sample.landed "7"), .reply true,
      .reconciled (.ok true), .reply true]
    ∃ w, run (step Sample.position) (start [] none) es = some w ∧ w.cursor = some "7" ∧
      ((∀ fs, fs <+: es → ∀ u, run (step Sample.position) (start [] none) fs = some u →
        u.Passed Sample.position []) ↔
        Along (step Sample.position) (BaselinesSeen Sample.position []) (start [] none) es) := by
  intro es
  obtain ⟨w, hw, hc⟩ := exists_of_run (step Sample.position) (start [] none) es
    (P := fun w => w.cursor = some "7") (by decide)
  exact ⟨w, hw, hc, baseline_passes_iff ⟨by decide, by decide⟩ hw⟩

/-- A record lands during the sleep before the first cycle, which then baselines at it. -/
theorem baseline_skips_first_payment :
    ∃ w, run (step Sample.position) (start [] none)
        [.lands (Sample.landed "7"), .poll, .reply true, .reply true, .reply true] = some w ∧
      w.cursor = some "7" ∧ w.reconciled = [] ∧ ¬ w.Passed Sample.position [] :=
  exists_of_run _ _ _ (by decide)

end Baseline

/-! Runs from a persisted cursor. -/
section Coverage
variable (position : String → ℕ)

/-- The calls of `reconcile_payment` in their order. -/
def calls (w : Poller) : List HorizonPayment := w.reconciled.map Prod.fst

def Ended (w : Poller) : Prop := w.pc = .idle ∨ ∃ result, w.pc = .returned result

/-- No statement and no request fails, and the process restarts only between cycles. -/
def Faultless (w : Poller) : PollEvent → Prop
  | .reply ok => ok = true
  | .crash => w.Ended
  | .lands _ | .poll | .reconciled _ => True

def pageFetched (w : Poller) (e : PollEvent) : List (List HorizonPayment) :=
  match w.pc, e with
  | .fetch cursor _ _, .reply true => [fetchRecentPayments position w.history cursor pageLimit]
  | _, _ => []

def fetched (w : Poller) : List PollEvent → List (List HorizonPayment)
  | [] => []
  | e :: es =>
    match Poller.step position w e with
    | none => []
    | some t => w.pageFetched position e ++ t.fetched es

/-- A whole cycle: full pages up to one that is short, or up to the page cap. -/
def WholeCycle (pages : List (List HorizonPayment)) : Prop :=
  ∃ front last, pages = front ++ [last] ∧ (∀ page ∈ front, page.length = pageLimit) ∧
    (last.length < pageLimit ∨ pages.length = maxPagesPerCycle)

/-- The persisted cursor covers only records that were handed over. -/
structure Covered (origin : String) (w : Poller) : Prop where
  handing : Handing position w
  cursor : ∃ c, w.cursor = some c ∧ position origin ≤ position c ∧
    (position c = position origin ∨ ∃ x ∈ w.history, place position x = position c) ∧
    ∀ hp ∈ w.history, position origin < place position hp → place position hp ≤ position c →
      w.Handed hp

variable {position} {origin : String} {w t : Poller} {e : PollEvent}

theorem Covered.start {history : List HorizonPayment} (h : Ascending position history) :
    Covered position origin (Poller.start history (some origin)) :=
  ⟨⟨h, trivial⟩, origin, rfl, le_rfl, .inl rfl, fun _ _ _ _ => by omega⟩

theorem Covered.pagesFrom {base : String} (h : Covered position origin w) (hb : w.PagesFrom base) :
    w.cursor = some base := by
  obtain ⟨c, hc, -⟩ := h.cursor
  rcases hb with hb | ⟨hb, -⟩
  · exact hb
  · exact absurd (hb.symm.trans hc) (by simp)

/-- A checkpoint moves the cursor forward to the last record of its page. -/
theorem Covered.checkpoint {page : List HorizonPayment} {cursor : String} {settled pages : ℕ}
    (h : Covered position origin w) (heq : w.pc = .checkpoint page cursor settled pages) :
    (∀ c ∈ w.cursor, position c ≤ position cursor) ∧ position origin ≤ position cursor ∧
    (position cursor = position origin ∨ ∃ x ∈ w.history, place position x = position cursor) ∧
    ∀ hp ∈ w.history, position origin < place position hp →
      place position hp ≤ position cursor → w.Handed hp := by
  obtain ⟨base, hb, hle, hall⟩ := h.handing.checkpoint heq
  have hbase := h.pagesFrom hb
  obtain ⟨c, hc, hoc, hat, hcov⟩ := h.cursor
  cases Option.some.inj (hc.symm.trans hbase)
  refine ⟨?_, by omega, ?_, ?_⟩
  · intro c' hc'
    cases Option.some.inj (hbase.symm.trans hc')
    exact hle
  · have hpc := h.handing.pc
    simp only [heq] at hpc
    obtain ⟨base', hb', hpage, hwalk, -⟩ := hpc
    cases Option.some.inj (hbase.symm.trans (h.pagesFrom hb'))
    rcases hwalk.end_cases hpage with ⟨-, rfl⟩ | ⟨x, hx, hplace, -⟩
    · exact hat
    · exact .inr ⟨x, (hpage.after x hx).1, hplace⟩
  · intro hp hin hlt hle'
    by_cases hbp : place position hp ≤ position base
    · exact hcov hp hin hlt hbp
    · exact hall hp hin (by omega) hle'

theorem Covered.step (hs : Poller.step position w e = some t) (h : Covered position origin w) :
    (∀ c ∈ w.cursor, ∃ c' ∈ t.cursor, position c ≤ position c') ∧ Covered position origin t := by
  have ht := h.handing.step hs
  have hpc := h.handing.pc
  obtain ⟨c, hc, hoc, hat, hcov⟩ := h.cursor
  have hkeep : ∀ c ∈ w.cursor, ∃ c' ∈ w.cursor, position c ≤ position c' :=
      fun c hc => ⟨c, hc, le_rfl⟩
  cases step_moves hs with
  | lands token positive last =>
    refine ⟨hkeep, ht, c, hc, hoc, ?_, ?_⟩
    · exact hat.imp_right fun ⟨x, hx, hplace⟩ => ⟨x, List.mem_append_left _ hx, hplace⟩
    · intro hp hin hlt hle
      rcases List.mem_append.mp hin with hin | hin
      · exact hcov hp hin hlt hle
      · rw [List.mem_singleton.mp hin] at hlt hle
        rcases hat with hat | ⟨x, hx, hplace⟩
        · omega
        · have := last x hx
          omega
  | poll | resume | unset | latest | fromZero | page | failed | crash =>
    exact ⟨hkeep, ht, c, hc, hoc, hat, hcov⟩
  | baselined heq =>
    simp only [heq] at hpc
    exact absurd (hpc.1.symm.trans hc) (by simp)
  | checkpoint heq =>
    obtain ⟨hmono, hrest⟩ := h.checkpoint heq
    exact ⟨fun c hc => ⟨_, rfl, hmono c hc⟩, ht, _, rfl, hrest⟩
  | record =>
    refine ⟨hkeep, ht, c, hc, hoc, hat, ?_⟩
    intro hp hin hlt hle
    exact handed_append.mpr (.inl (hcov hp hin hlt hle))

theorem Covered.forward {es : List PollEvent} (h : Covered position origin w)
    (hr : run (Poller.step position) w es = some t) :
    ∀ c ∈ w.cursor, ∃ c' ∈ t.cursor, position c ≤ position c' := by
  refine run_relation (R := fun s t => ∀ c ∈ s.cursor, ∃ c' ∈ t.cursor, position c ≤ position c')
    ?_ ?_ ?_ hr h
  · exact fun s c hc => ⟨c, hc, le_rfl⟩
  · intro s t u hst htu c hc
    obtain ⟨c', hc', hle⟩ := hst c hc
    obtain ⟨c'', hc'', hle'⟩ := htu c' hc'
    exact ⟨c'', hc'', hle.trans hle'⟩
  · exact fun s e t hs hi => hi.step hs

variable {before : List HorizonPayment}

/-- How far a sequence of cycles without failures has come, from the cursor `origin` and
after the calls `before`: the calls it made are the records up to the persisted cursor, and
those of the current page that it has seen. -/
structure InOrder (position : String → ℕ) (origin : String) (before : List HorizonPayment)
    (w : Poller) : Prop where
  ascending : Ascending position w.history
  made : ∃ c, w.cursor = some c ∧ position origin ≤ position c ∧
    (position c = position origin ∨ ∃ x ∈ w.history, place position x = position c) ∧
    let done := before ++ stretch (place position) (position origin) (position c) w.history
    match w.pc with
    | .baseline | .saveBaseline _ => False
    | .fetch cursor _ _ => cursor = c ∧ w.calls = done
    | .records page todo cursor _ _ => page <+: after (place position) (position c) w.history ∧
        Walked c page todo cursor ∧ ∀ seen, page = seen ++ todo → w.calls = done ++ seen
    | .checkpoint page cursor _ _ => page <+: after (place position) (position c) w.history ∧
        Walked c page [] cursor ∧ w.calls = done ++ page
    | .idle | .getState | .returned _ => w.calls = done

theorem InOrder.start {c : String} (ha : Ascending position w.history) (hc : w.cursor = some c)
    (he : w.Ended) : InOrder position c w.calls w := by
  refine ⟨ha, c, hc, le_rfl, .inl rfl, ?_⟩
  rw [stretch_self, List.append_nil]
  rcases he with he | ⟨result, he⟩ <;> simp only [he]

theorem InOrder.walk {c cursor : String} {page todo : List HorizonPayment} {settled pages : ℕ}
    (ha : Ascending position w.history) (hc : w.cursor = some c)
    (hle : position origin ≤ position c)
    (hat : position c = position origin ∨ ∃ x ∈ w.history, place position x = position c)
    (hpage : page <+: after (place position) (position c) w.history)
    (hwalk : Walked c page todo cursor)
    (hcalls : ∀ seen, page = seen ++ todo → w.calls =
      before ++ stretch (place position) (position origin) (position c) w.history ++ seen) :
    InOrder position origin before { w with pc := Poller.walk page todo cursor settled pages } := by
  refine ⟨ha, c, hc, hle, hat, ?_⟩
  unfold Poller.walk
  split_ifs with h
  · subst h
    exact ⟨hpage, hwalk, hcalls page (by simp)⟩
  · exact ⟨hpage, hwalk, hcalls⟩

theorem stretch_lands {c : String} {history : List HorizonPayment} {hp : HorizonPayment}
    (hat : position c = position origin ∨ ∃ x ∈ history, place position x = position c)
    (last : ∀ x ∈ history, place position x < place position hp) :
    stretch (place position) (position origin) (position c) (history ++ [hp]) =
      stretch (place position) (position origin) (position c) history := by
  have hout : ¬ (position origin < place position hp ∧ place position hp ≤ position c) := by
    rintro ⟨hlt, hle⟩
    rcases hat with hat | ⟨x, hx, hplace⟩
    · omega
    · have := last x hx
      omega
  simp [stretch, hout]

theorem InOrder.lands {hp : HorizonPayment} (h : InOrder position origin before w)
    (token : hp.pagingToken.isSome) (last : ∀ x ∈ w.history, place position x < place position hp) :
    InOrder position origin before { w with history := w.history ++ [hp] } := by
  obtain ⟨c, hc, hle, hat, hpc⟩ := h.made
  refine ⟨h.ascending.lands token last, c, hc, hle, ?_, ?_⟩
  · exact hat.imp_right fun ⟨x, hx, hplace⟩ => ⟨x, List.mem_append_left _ hx, hplace⟩
  · have hgrow : after (place position) (position c) w.history <+:
        after (place position) (position c) (w.history ++ [hp]) := by
      unfold after
      rw [List.filter_append]
      exact List.prefix_append _ _
    have hseg := stretch_lands hat last
    simp only at hpc ⊢
    rw [hseg]
    cases hw : w.pc <;> simp only [hw] at hpc ⊢
    case fetch => exact hpc
    case records => exact ⟨hpc.1.trans hgrow, hpc.2⟩
    case checkpoint => exact ⟨hpc.1.trans hgrow, hpc.2⟩
    all_goals exact hpc

/-- A checkpoint extends the stretch by its page. -/
theorem stretch_checkpoint {c cursor : String} {history page : List HorizonPayment}
    (ha : Ascending position history) (hle : position origin ≤ position c)
    (hpage : page <+: after (place position) (position c) history)
    (hwalk : Walked c page [] cursor) :
    position c ≤ position cursor ∧
    (cursor = c ∨ ∃ x ∈ history, place position x = position cursor) ∧
    stretch (place position) (position origin) (position cursor) history =
      stretch (place position) (position origin) (position c) history ++ page := by
  obtain ⟨seen, hseen, ⟨rfl, rfl⟩ | ⟨front, x, rfl, htoken⟩⟩ := hwalk
  · have : page = [] := by simpa using hseen
    simp [this]
  · have hplace : place position x = position cursor := by simp [place, htoken]
    rw [List.append_nil] at hseen
    have hx := mem_after.mp (hpage.subset (by simp [hseen] : x ∈ page))
    have hlt : position c ≤ position cursor := by omega
    refine ⟨hlt, .inr ⟨x, hx.1, hplace⟩, ?_⟩
    rw [stretch_append ha.sorted hle hlt, ← hplace, stretch_eq_of_prefix ha.sorted (hseen ▸ hpage),
      ← hseen]

theorem InOrder.step (hok : w.Faultless e) (hs : Poller.step position w e = some t)
    (h : InOrder position origin before w) : InOrder position origin before t := by
  obtain ⟨c, hc, hle, hat, hpc⟩ := id h.made
  simp only at hpc
  cases step_moves hs with
  | lands token positive last => exact h.lands token last
  | poll he =>
    refine ⟨h.ascending, c, hc, hle, hat, ?_⟩
    rcases he with he | ⟨result, he⟩ <;> simp only [he] at hpc <;> exact hpc
  | crash =>
    refine ⟨h.ascending, c, hc, hle, hat, ?_⟩
    rcases hok with he | ⟨result, he⟩ <;> simp only [he] at hpc <;> exact hpc
  | resume heq hc' =>
    simp only [heq] at hpc
    exact ⟨h.ascending, c, hc, hle, hat, Option.some.inj (hc'.symm.trans hc), hpc⟩
  | unset _ hc' => exact absurd (hc'.symm.trans hc) (by simp)
  | latest heq | fromZero heq | baselined heq => simp only [heq] at hpc
  | failed => cases hok
  | @page cursor _ _ _ heq hpage =>
    simp only [heq] at hpc
    obtain ⟨rfl, hcalls⟩ := hpc
    subst hpage
    have htake := List.take_prefix pageLimit (after (place position) (position cursor) w.history)
    apply InOrder.walk h.ascending hc hle hat htake ⟨[], rfl, .inl ⟨rfl, rfl⟩⟩
    intro seen hseen
    rw [List.self_eq_append_left.mp hseen, List.append_nil]
    exact hcalls
  | checkpoint heq =>
    simp only [heq] at hpc
    obtain ⟨hpage, hwalk, hcalls⟩ := hpc
    obtain ⟨hlt, hat', hseg⟩ := stretch_checkpoint h.ascending hle hpage hwalk
    refine ⟨h.ascending, _, rfl, by omega, ?_, ?_⟩
    · rcases hat' with rfl | hat'
      · exact hat
      · exact .inr hat'
    · have hdone := hcalls.trans (List.append_assoc _ _ _)
      rw [← hseg] at hdone
      unfold afterCheckpoint
      split_ifs
      · exact hdone
      · exact hdone
      · exact ⟨rfl, hdone⟩
  | @record page todo hp cursor settled pages result heq =>
    simp only [heq] at hpc
    obtain ⟨hpage, hwalk, hcalls⟩ := hpc
    obtain ⟨seen, hsplit, -⟩ := id hwalk
    have hin := hpage.subset (by simp [hsplit] : hp ∈ page)
    apply InOrder.walk (w := { w with reconciled := w.reconciled ++ [(hp, result)] })
      h.ascending hc hle hat hpage (hwalk.next (h.ascending.tokens hp (mem_after.mp hin).1))
    intro seen' hsplit'
    have hsame := next_seen hsplit hsplit'
    have hnew : calls { w with reconciled := w.reconciled ++ [(hp, result)] } =
        w.calls ++ [hp] := by
      simp [calls]
    rw [hnew, hcalls seen hsplit, hsame]
    simp

/-- The calls made are the first records after the cursor the sequence started from. -/
theorem InOrder.handed (h : InOrder position origin before w) :
    ∃ handed, w.calls = before ++ handed ∧
      handed <+: after (place position) (position origin) w.history := by
  obtain ⟨c, hc, hle, -, hpc⟩ := h.made
  have hsplit := after_eq_stretch_append h.ascending.sorted hle
  simp only at hpc
  have hdone {page : List HorizonPayment}
      (hpage : page <+: after (place position) (position c) w.history)
      (hcalls : w.calls = before ++
        stretch (place position) (position origin) (position c) w.history ++ page) :
      ∃ handed, w.calls = before ++ handed ∧
        handed <+: after (place position) (position origin) w.history := by
    refine ⟨_, hcalls.trans (List.append_assoc _ _ _), ?_⟩
    rw [hsplit]
    exact (List.prefix_append_right_inj _).mpr hpage
  have hnone : w.calls = before ++
      stretch (place position) (position origin) (position c) w.history →
      ∃ handed, w.calls = before ++ handed ∧
        handed <+: after (place position) (position origin) w.history := fun hcalls =>
    hdone List.nil_prefix (by rw [hcalls, List.append_nil])
  cases hw : w.pc <;> simp only [hw] at hpc
  case records =>
    obtain ⟨hpage, ⟨seen, hsplit, -⟩, hcalls⟩ := hpc
    have hseen : seen <+: after (place position) (position c) w.history :=
      List.IsPrefix.trans ⟨_, hsplit.symm⟩ hpage
    exact hdone hseen (hcalls seen hsplit)
  case checkpoint => exact hdone hpc.1 hpc.2.2
  case fetch => exact hnone hpc.2
  all_goals exact hnone hpc

/-- A cycle so far, after the calls `before`: its pages were full up to the current one. -/
structure InCycle (before : List HorizonPayment) (pages : List (List HorizonPayment))
    (w : Poller) : Prop where
  persisted : w.cursor.isSome
  sizes : ∀ page ∈ pages, page.length ≤ pageLimit
  pc : match w.pc with
    | .getState => pages = [] ∧ w.calls = before
    | .fetch _ _ n => pages.length = n ∧ n < maxPagesPerCycle ∧
        (∀ page ∈ pages, page.length = pageLimit) ∧ w.calls = before ++ pages.flatten
    | .records page todo _ _ n => ∃ front, pages = front ++ [page] ∧ pages.length = n ∧
        n ≤ maxPagesPerCycle ∧ (∀ page ∈ front, page.length = pageLimit) ∧
        ∃ seen, page = seen ++ todo ∧ w.calls = before ++ front.flatten ++ seen
    | .checkpoint page _ _ n => ∃ front, pages = front ++ [page] ∧ pages.length = n ∧
        n ≤ maxPagesPerCycle ∧ (∀ page ∈ front, page.length = pageLimit) ∧
        w.calls = before ++ pages.flatten
    | .returned _ => WholeCycle pages ∧ pages.length ≤ maxPagesPerCycle ∧
        w.calls = before ++ pages.flatten
    | .idle | .baseline | .saveBaseline _ => False

variable {pages : List (List HorizonPayment)}

theorem InCycle.walk {page todo seen : List HorizonPayment} {front : List (List HorizonPayment)}
    {cursor : String} {settled n : ℕ} (hc : w.cursor.isSome)
    (hsizes : ∀ p ∈ front ++ [page], p.length ≤ pageLimit)
    (hn : (front ++ [page]).length = n) (hmax : n ≤ maxPagesPerCycle)
    (hfull : ∀ p ∈ front, p.length = pageLimit) (hsplit : page = seen ++ todo)
    (hcalls : w.calls = before ++ front.flatten ++ seen) :
    InCycle before (front ++ [page])
      { w with pc := Poller.walk page todo cursor settled n } := by
  refine ⟨hc, hsizes, ?_⟩
  unfold Poller.walk
  split_ifs with h
  · subst h
    rw [List.append_nil] at hsplit
    subst hsplit
    refine ⟨front, rfl, hn, hmax, hfull, ?_⟩
    simpa [calls] using hcalls
  · exact ⟨front, rfl, hn, hmax, hfull, seen, hsplit, hcalls⟩

theorem InCycle.step (h : InCycle before pages w) (he : e ≠ .poll ∧ e ≠ .crash ∧ e ≠ .reply false)
    (hs : Poller.step position w e = some t) :
    InCycle before (pages ++ w.pageFetched position e) t := by
  have hpc := h.pc
  have hnone (hne : ∀ cursor settled n, w.pc = .fetch cursor settled n → e ≠ .reply true) :
      pages ++ w.pageFetched position e = pages := by
    unfold pageFetched
    split
    · next heq => exact absurd rfl (hne _ _ _ heq)
    · exact List.append_nil pages
  cases step_moves hs with
  | lands =>
    rw [hnone (by simp)]
    exact ⟨h.persisted, h.sizes, hpc⟩
  | poll => exact absurd rfl he.1
  | crash => exact absurd rfl he.2.1
  | failed => exact absurd rfl he.2.2
  | resume heq =>
    rw [hnone (by simp [heq])]
    simp only [heq] at hpc
    obtain ⟨rfl, hcalls⟩ := hpc
    exact ⟨h.persisted, h.sizes, rfl, by decide, by simp, by simpa [calls] using hcalls⟩
  | unset _ hc =>
    have := h.persisted
    simp [hc] at this
  | latest heq | fromZero heq | baselined heq => simp only [heq] at hpc
  | @page cursor settled n page heq hpage =>
    have hnew : w.pageFetched position (.reply true) = [page] := by
      simp only [pageFetched, heq, hpage]
    rw [hnew]
    simp only [heq] at hpc
    obtain ⟨hn, hlt, hfull, hcalls⟩ := hpc
    have hsize : ∀ p ∈ pages ++ [page], p.length ≤ pageLimit := by
      intro p hin
      rcases List.mem_append.mp hin with hin | hin
      · exact h.sizes p hin
      · rw [List.mem_singleton.mp hin, hpage]
        exact List.length_take_le _ _
    apply InCycle.walk h.persisted hsize (by simp [hn]) hlt hfull (List.nil_append _).symm
    rw [hcalls, List.append_nil]
  | checkpoint heq =>
    rw [hnone (by simp [heq])]
    simp only [heq] at hpc
    obtain ⟨front, rfl, hn, hmax, hfull, hcalls⟩ := hpc
    refine ⟨rfl, h.sizes, ?_⟩
    unfold afterCheckpoint
    split_ifs with hshort hcap
    · exact ⟨⟨front, _, rfl, hfull, .inl hshort⟩, by omega, hcalls⟩
    · exact ⟨⟨front, _, rfl, hfull, .inr (by omega)⟩, by omega, hcalls⟩
    · refine ⟨hn, by omega, ?_, hcalls⟩
      intro page hin
      rcases List.mem_append.mp hin with hin | hin
      · exact hfull page hin
      · have := h.sizes page (List.mem_append_right _ hin)
        rw [List.mem_singleton.mp hin] at this ⊢
        omega
  | @record page todo hp cursor settled pages result heq =>
    rw [hnone (by simp)]
    simp only [heq] at hpc
    obtain ⟨front, rfl, hn, hmax, hfull, seen, hsplit, hcalls⟩ := hpc
    have hsplit' : page = (seen ++ [hp]) ++ todo := by simp [hsplit]
    apply InCycle.walk (w := { w with reconciled := w.reconciled ++ [(hp, result)] })
      h.persisted h.sizes hn hmax hfull hsplit'
    simp only [calls, List.map_append, List.map_cons, List.map_nil] at hcalls ⊢
    rw [hcalls, List.append_assoc]

theorem InCycle.run {es : List PollEvent} (h : InCycle before pages w)
    (he : ∀ e ∈ es, e ≠ .poll ∧ e ≠ .crash ∧ e ≠ .reply false)
    (hr : run (Poller.step position) w es = some t) :
    InCycle before (pages ++ w.fetched position es) t := by
  induction es generalizing w pages with
  | nil =>
    cases hr
    simpa [fetched] using h
  | cons e es ih =>
    obtain ⟨v, hv, hr⟩ := run_cons.mp hr
    have hstep := h.step (he e (by simp)) hv
    have hrest := ih hstep (fun f hf => he f (by simp [hf])) hr
    simp only [fetched, hv]
    rwa [List.append_assoc] at hrest

/-- A cycle calls `reconcile_payment` on at most `PAGE_LIMIT` records a page. -/
theorem InCycle.length_calls_le (h : InCycle before pages w) :
    w.calls.length ≤ before.length + maxPagesPerCycle * pageLimit := by
  have hflat : ∀ l : List (List HorizonPayment), (∀ page ∈ l, page.length ≤ pageLimit) →
      l.flatten.length ≤ l.length * pageLimit := by
    intro l hl
    induction l with
    | nil => simp
    | cons page l ih =>
      have := ih fun p hp => hl p (by simp [hp])
      have := hl page (by simp)
      simp only [List.flatten_cons, List.length_append, List.length_cons, Nat.succ_mul]
      omega
  have hpages := hflat pages h.sizes
  have hcap (hn : pages.length ≤ maxPagesPerCycle) :
      pages.flatten.length ≤ maxPagesPerCycle * pageLimit :=
    hpages.trans (Nat.mul_le_mul_right _ hn)
  have hpc := h.pc
  cases hw : w.pc <;> simp only [hw] at hpc
  case getState => rw [hpc.2]; omega
  case fetch =>
    have := hcap (by omega)
    simp only [hpc.2.2.2, List.length_append]
    omega
  case records =>
    obtain ⟨front, rfl, hn, hmax, -, seen, rfl, hcalls⟩ := hpc
    have := hcap (by omega)
    simp only [List.flatten_append, List.flatten_cons, List.flatten_nil, List.length_append,
      List.append_nil] at this
    simp only [hcalls, List.length_append]
    omega
  case checkpoint =>
    obtain ⟨front, -, hn, hmax, -, hcalls⟩ := hpc
    have := hcap (by omega)
    simp only [hcalls, List.length_append]
    omega
  case returned =>
    have := hcap hpc.2.1
    simp only [hpc.2.2, List.length_append]
    omega

/-- What holds of a state `w` with the persisted cursor `c`, in a run from `origin`: the cursor
only moves forward from here, the records up to it were handed over, cycles without failures
hand over the following records in order and once, and one cycle takes whole pages. -/
structure PagesOn (position : String → ℕ) (origin c : String) (w : Poller) : Prop where
  forward : ∀ fs t, run (Poller.step position) w fs = some t →
    ∃ c' ∈ t.cursor, position c ≤ position c'
  handed : ∀ hp ∈ w.history, position origin < place position hp →
    place position hp ≤ position c → w.Handed hp
  inOrder : w.Ended → ∀ fs t, run (Poller.step position) w fs = some t →
    Along (Poller.step position) Faultless w fs → ∃ handed, t.calls = w.calls ++ handed ∧
      handed <+: after (place position) (position c) t.history ∧ handed.Nodup
  cycle : w.Ended → ∀ fs t, run (Poller.step position) w (.poll :: fs) = some t →
    (∀ e ∈ fs, e ≠ .poll ∧ e ≠ .crash ∧ e ≠ .reply false) →
    t.calls.length ≤ w.calls.length + 5000 ∧
    (t.Ended → WholeCycle (w.fetched position (.poll :: fs)) ∧
      t.calls = w.calls ++ (w.fetched position (.poll :: fs)).flatten)

theorem cycle_wholePages {fs : List PollEvent} (hc : w.cursor.isSome)
    (hr : run (Poller.step position) w (.poll :: fs) = some t)
    (he : ∀ e ∈ fs, e ≠ .poll ∧ e ≠ .crash ∧ e ≠ .reply false) :
    InCycle w.calls (w.fetched position (.poll :: fs)) t := by
  obtain ⟨v, hv, hr⟩ := run_cons.mp hr
  have hstart : InCycle w.calls [] v := by
    cases step_moves hv with
    | poll => exact ⟨hc, by simp, rfl, rfl⟩
  have hrun := hstart.run he hr
  have hno : w.pageFetched position .poll = [] := by
    simp [pageFetched]
  simpa only [fetched, hv, hno] using hrun

/-- From a persisted cursor every run of poll cycles, with any failures and restarts, covers
the history without a gap. -/
theorem pagesOn_of_run {history : List HorizonPayment} {es : List PollEvent}
    (hh : Ascending position history)
    (hr : run (Poller.step position) (start history (some origin)) es = some w) :
    ∃ c, w.cursor = some c ∧ PagesOn position origin c w := by
  have hcovered : Covered position origin w :=
    run_invariant (fun _ _ _ hs hi => (hi.step hs).2) hr (Covered.start hh)
  obtain ⟨c, hc, -, -, hhanded⟩ := hcovered.cursor
  refine ⟨c, hc, ?_, hhanded, ?_, ?_⟩
  · intro fs t ht
    exact hcovered.forward ht c hc
  · intro he fs t ht hok
    have hstart := InOrder.start hcovered.handing.ascending hc he
    have hend := hok.invariant (fun _ _ _ ho hs hi => InOrder.step ho hs hi) ht hstart
    obtain ⟨handed, hcalls, hpre⟩ := hend.handed
    refine ⟨handed, hcalls, hpre, ?_⟩
    have hsorted : SortedBy (place position) handed :=
      List.Pairwise.sublist hpre.sublist (SortedBy.after hend.ascending.sorted)
    exact hsorted.imp fun hlt heq => absurd hlt (by simp [heq])
  · intro he fs t ht hfs
    have hcycle := cycle_wholePages (by simp [hc]) ht hfs
    refine ⟨hcycle.length_calls_le, fun hend => ?_⟩
    have hpc := hcycle.pc
    rcases hend with hend | ⟨result, hend⟩
    · simp only [hend] at hpc
    · simp only [hend] at hpc
      exact ⟨hpc.1, hpc.2.2⟩

/-- The checkpoint of a first cycle fails, the process restarts, and a second cycle
reads the record again. -/
theorem pagesOn_of_run_restarted :
    ∃ w, run (step Sample.position) (start [Sample.landed "5"] (some "5"))
        ([.lands (Sample.landed "7"), .poll, .reply true, .reply true, .reconciled (.ok true),
          .reply false, .crash] ++ Sample.cycle (.ok false)) = some w ∧
      w.cursor = some "7" ∧ w.calls = [Sample.landed "7", Sample.landed "7"] ∧
      ∃ c, w.cursor = some c ∧ PagesOn Sample.position "5" c w := by
  obtain ⟨w, hw, hc⟩ := exists_of_run (step Sample.position) (start [Sample.landed "5"] (some "5"))
    ([.lands (Sample.landed "7"), .poll, .reply true, .reply true, .reconciled (.ok true),
      .reply false, .crash] ++ Sample.cycle (.ok false))
    (P := fun w => w.cursor = some "7" ∧ w.calls = [Sample.landed "7", Sample.landed "7"])
    (by decide)
  exact ⟨w, hw, hc.1, hc.2, pagesOn_of_run ⟨by decide, by decide⟩ hw⟩

end Coverage

end Poller
end StellarGate
