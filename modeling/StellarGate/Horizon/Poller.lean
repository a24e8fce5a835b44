import StellarGate.Base.Run
import StellarGate.Horizon.Reconcile

/-! The poller of `src/horizon.rs`: `poll_once` over a growing history of payments, one
statement, request or call of `reconcile_payment` a step. -/
namespace StellarGate
open Base

def pageLimit : ℕ := 200

def maxPagesPerCycle : ℕ := 25

/-- Where `poll_once` stands, with the locals it still uses. A result is the number of
settled intents, or `none` for an error. -/
inductive PollPc where
  | idle
  | getState
  | baseline
  | saveBaseline (token : String)
  | fetch (cursor : String) (settled pages : ℕ)
  | records (page todo : List HorizonPayment) (cursor : String) (settled pages : ℕ)
  | checkpoint (page : List HorizonPayment) (cursor : String) (settled pages : ℕ)
  | returned (result : Option ℕ)
  deriving DecidableEq, Repr

/-- The poller and what it talks to: the payments of the gateway account on Horizon in
their order, and the cursor in `kv_state`. `origin` is the cursor it started from,
`reconciled` lists the calls of `reconcile_payment` with their results. -/
structure Poller where
  history : List HorizonPayment
  cursor : Option String
  pc : PollPc
  origin : Option String
  reconciled : List (HorizonPayment × ReconcileResult)
  deriving DecidableEq, Repr

inductive PollEvent where
  | lands (hp : HorizonPayment)
  | poll
  | reply (ok : Bool)
  | reconciled (result : ReconcileResult)
  | crash
  deriving DecidableEq, Repr

namespace Poller
section
variable (position : String → ℕ)

def place (hp : HorizonPayment) : ℕ := (hp.pagingToken.map position).getD 0

/-- `payments?order=asc&cursor=…&limit=…`: the first records after the cursor. -/
def fetchRecentPayments (history : List HorizonPayment) (cursor : String) (limit : ℕ) :
    List HorizonPayment :=
  (history.filter fun hp => position cursor < place position hp).take limit

/-- The loop over the records of a page. -/
def walk (page todo : List HorizonPayment) (cursor : String) (settled pages : ℕ) : PollPc :=
  if todo = [] then .checkpoint page cursor settled pages
  else .records page todo cursor settled pages

def afterCheckpoint (page : List HorizonPayment) (cursor : String) (settled pages : ℕ) : PollPc :=
  if page.length < pageLimit then .returned (some settled)
  else if maxPagesPerCycle ≤ pages then .returned (some settled)
  else .fetch cursor settled pages

/-- A statement or a request of `poll_once` succeeds. -/
def exec (w : Poller) : Option Poller :=
  match w.pc with
  | .getState =>
    match w.cursor with
    | some cursor => some { w with pc := .fetch cursor 0 0 }
    | none => some { w with pc := .baseline }
  | .baseline =>
    match w.history.getLast?.bind (·.pagingToken) with
    | some token => some { w with pc := .saveBaseline token }
    | none => some { w with pc := .fetch "0" 0 0, origin := some "0" }
  | .saveBaseline token =>
    some { w with cursor := some token, origin := some token, pc := .fetch token 0 0 }
  | .fetch cursor settled pages =>
    let page := fetchRecentPayments position w.history cursor pageLimit
    some { w with pc := walk page page cursor settled (pages + 1) }
  | .checkpoint page cursor settled pages =>
    some { w with cursor := some cursor, pc := afterCheckpoint page cursor settled pages }
  | .idle | .records _ _ _ _ _ | .returned _ => none

/-- A statement or a request of `poll_once` fails: `?` ends the cycle. -/
def error (w : Poller) : Option Poller :=
  match w.pc with
  | .idle | .records _ _ _ _ _ | .returned _ => none
  | _ => some { w with pc := .returned none }

def step (w : Poller) : PollEvent → Option Poller
  -- Horizon gives every record a token, in the order in which the records appear
  | .lands hp =>
    if hp.pagingToken.isSome ∧ position "0" < place position hp ∧
        ∀ x ∈ w.history, place position x < place position hp then
      some { w with history := w.history ++ [hp] }
    else none
  | .poll =>
    match w.pc with
    | .idle | .returned _ => some { w with pc := .getState }
    | _ => none
  | .reply ok => if ok then w.exec position else w.error
  | .reconciled result =>
    match w.pc with
    | .records page (hp :: todo) cursor settled pages =>
      some { w with
        reconciled := w.reconciled ++ [(hp, result)]
        pc := walk page todo (hp.pagingToken.getD cursor)
          (if result = .ok true then settled + 1 else settled) pages }
    | _ => none
  | .crash => some { w with pc := .idle }

/-- A record was reconciled: a call on it returned `Ok`. -/
def Reconciled (w : Poller) (hp : HorizonPayment) : Prop :=
  ∃ x ∈ w.reconciled, x.1 = hp ∧ x.2 ≠ .err

/-- Every record after the origin up to the persisted cursor was reconciled. -/
def NoneSkipped (w : Poller) : Prop :=
  ∀ cursor ∈ w.cursor, ∃ origin ∈ w.origin, ∀ hp ∈ w.history,
    position origin < place position hp → place position hp ≤ position cursor → w.Reconciled hp

/-- A page is checkpointed only when each of its records was reconciled. -/
def ChecksPage (w : Poller) (e : PollEvent) : Prop :=
  match w.pc, e with
  | .checkpoint page _ _ _, .reply true => ∀ hp ∈ page, w.Reconciled hp
  | _, _ => True

end

instance (w : Poller) (hp : HorizonPayment) : Decidable (w.Reconciled hp) := by
  unfold Reconciled
  infer_instance

instance (position : String → ℕ) (w : Poller) : Decidable (w.NoneSkipped position) := by
  unfold NoneSkipped
  infer_instance

instance (w : Poller) (e : PollEvent) : Decidable (w.ChecksPage e) := by
  unfold ChecksPage
  split <;> infer_instance

def start (history : List HorizonPayment) (cursor : Option String) : Poller :=
  ⟨history, cursor, .idle, cursor, []⟩

/-- What each step does, with what it requires of the state. -/
inductive Moves (position : String → ℕ) (w : Poller) : PollEvent → Poller → Prop
  | lands {hp : HorizonPayment} (token : hp.pagingToken.isSome)
      (positive : position "0" < place position hp)
      (last : ∀ x ∈ w.history, place position x < place position hp) :
      Moves position w (.lands hp) { w with history := w.history ++ [hp] }
  | poll (ended : w.pc = .idle ∨ ∃ result, w.pc = .returned result) :
      Moves position w .poll { w with pc := .getState }
  | resume {cursor : String} (pc : w.pc = .getState) (stored : w.cursor = some cursor) :
      Moves position w (.reply true) { w with pc := .fetch cursor 0 0 }
  | unset (pc : w.pc = .getState) (stored : w.cursor = none) :
      Moves position w (.reply true) { w with pc := .baseline }
  | latest {token : String} (pc : w.pc = .baseline)
      (last : w.history.getLast?.bind (·.pagingToken) = some token) :
      Moves position w (.reply true) { w with pc := .saveBaseline token }
  | fromZero (pc : w.pc = .baseline) (last : w.history.getLast?.bind (·.pagingToken) = none) :
      Moves position w (.reply true) { w with pc := .fetch "0" 0 0, origin := some "0" }
  | baselined {token : String} (pc : w.pc = .saveBaseline token) :
      Moves position w (.reply true)
        { w with cursor := some token, origin := some token, pc := .fetch token 0 0 }
  | page {cursor : String} {settled pages : ℕ} {page : List HorizonPayment}
      (pc : w.pc = .fetch cursor settled pages)
      (fetched : page = fetchRecentPayments position w.history cursor pageLimit) :
      Moves position w (.reply true) { w with pc := walk page page cursor settled (pages + 1) }
  | checkpoint {page : List HorizonPayment} {cursor : String} {settled pages : ℕ}
      (pc : w.pc = .checkpoint page cursor settled pages) :
      Moves position w (.reply true)
        { w with cursor := some cursor, pc := afterCheckpoint page cursor settled pages }
  | failed : Moves position w (.reply false) { w with pc := .returned none }
  | record {page todo : List HorizonPayment} {hp : HorizonPayment} {cursor : String}
      {settled pages : ℕ} {result : ReconcileResult}
      (pc : w.pc = .records page (hp :: todo) cursor settled pages) :
      Moves position w (.reconciled result)
        { w with
          reconciled := w.reconciled ++ [(hp, result)]
          pc := walk page todo (hp.pagingToken.getD cursor)
            (if result = .ok true then settled + 1 else settled) pages }
  | crash : Moves position w .crash { w with pc := .idle }

theorem exec_moves {position : String → ℕ} {w t : Poller} (h : w.exec position = some t) :
    Moves position w (.reply true) t := by
  unfold exec at h
  split at h
  · next hpc =>
    split at h
    · next hc =>
      cases h
      exact .resume hpc hc
    · next hc =>
      cases h
      exact .unset hpc hc
  · next hpc =>
    split at h
    · next hlast =>
      cases h
      exact .latest hpc hlast
    · next hlast =>
      cases h
      exact .fromZero hpc hlast
  · next hpc =>
    cases h
    exact .baselined hpc
  · next hpc =>
    cases h
    exact .page hpc rfl
  · next hpc =>
    cases h
    exact .checkpoint hpc
  all_goals cases h

theorem step_moves {position : String → ℕ} {w t : Poller} {e : PollEvent}
    (h : step position w e = some t) : Moves position w e t := by
  cases e with
  | lands hp =>
    simp only [step] at h
    split_ifs at h with hg
    cases h
    exact .lands hg.1 hg.2.1 hg.2.2
  | poll =>
    simp only [step] at h
    split at h
    · next hpc =>
      cases h
      exact .poll (.inl hpc)
    · next hpc =>
      cases h
      exact .poll (.inr ⟨_, hpc⟩)
    · cases h
  | reply ok =>
    cases ok with
    | true => exact exec_moves h
    | false =>
      simp only [step, Bool.false_eq_true, if_false, error] at h
      split at h
      · cases h
      · cases h
      · cases h
      · cases h
        exact .failed
  | reconciled result =>
    simp only [step] at h
    split at h
    · next hpc =>
      cases h
      exact .record hpc
    · cases h
  | crash =>
    cases h
    exact .crash

section Paging
variable {position : String → ℕ} {history page : List HorizonPayment} {cursor : String}

structure Ascending (position : String → ℕ) (history : List HorizonPayment) : Prop where
  tokens : ∀ hp ∈ history, hp.pagingToken.isSome
  sorted : history.Pairwise fun x y => place position x < place position y

/-- What a page fetched after `cursor` holds: records after it, in order, and every
record of the history up to its own last one. -/
structure PageAfter (position : String → ℕ) (history : List HorizonPayment) (cursor : String)
    (page : List HorizonPayment) : Prop where
  after : ∀ x ∈ page, x ∈ history ∧ position cursor < place position x
  sorted : page.Pairwise fun x y => place position x < place position y
  closed : ∀ hp ∈ history, ∀ x ∈ page, position cursor < place position hp →
    place position hp ≤ place position x → hp ∈ page

theorem fetchRecentPayments_pageAfter (h : Ascending position history) (limit : ℕ) :
    PageAfter position history cursor (fetchRecentPayments position history cursor limit) := by
  have hsorted := h.sorted.filter fun hp => position cursor < place position hp
  have hsplit := List.take_append_drop limit
    (history.filter fun hp => position cursor < place position hp)
  refine ⟨fun x hx => ?_, hsorted.sublist (List.take_sublist _ _), fun hp hin x hx hlt hle => ?_⟩
  · have hm := List.mem_filter.mp (List.mem_of_mem_take hx)
    exact ⟨hm.1, by simpa using hm.2⟩
  · have hmem : hp ∈ history.filter fun hp => position cursor < place position hp :=
      List.mem_filter.mpr ⟨hin, by simpa using hlt⟩
    rw [← hsplit] at hmem hsorted
    rcases List.mem_append.mp hmem with hm | hm
    · exact hm
    · have := (List.pairwise_append.mp hsorted).2.2 x hx hp hm
      omega

theorem PageAfter.lands (h : PageAfter position history cursor page) {hp : HorizonPayment}
    (hnew : ∀ x ∈ history, place position x < place position hp) :
    PageAfter position (history ++ [hp]) cursor page := by
  refine ⟨fun x hx => ⟨List.mem_append_left _ (h.after x hx).1, (h.after x hx).2⟩, h.sorted,
    fun y hy x hx hlt hle => ?_⟩
  rcases List.mem_append.mp hy with hy | hy
  · exact h.closed y hy x hx hlt hle
  · rw [List.mem_singleton.mp hy] at hle
    have := hnew x (h.after x hx).1
    omega

/-- How far the loop over a page has come: `cursor` is the token of the last record it
has seen, or still the one the page was fetched with. -/
def Walked (base : String) (page todo : List HorizonPayment) (cursor : String) : Prop :=
  ∃ seen, page = seen ++ todo ∧
    (seen = [] ∧ cursor = base ∨ ∃ front x, seen = front ++ [x] ∧ x.pagingToken = some cursor)

theorem Walked.next {base : String} {todo : List HorizonPayment} {hp : HorizonPayment}
    (h : Walked base page (hp :: todo) cursor) (ht : hp.pagingToken.isSome) :
    Walked base page todo (hp.pagingToken.getD cursor) := by
  obtain ⟨seen, hpage, -⟩ := h
  obtain ⟨token, htoken⟩ := Option.isSome_iff_exists.mp ht
  exact ⟨seen ++ [hp], by simp [hpage], .inr ⟨seen, hp, rfl, by simp [htoken]⟩⟩

theorem Walked.end_cases {base : String} (h : Walked base page [] cursor)
    (hp : PageAfter position history base page) :
    page = [] ∧ cursor = base ∨
      ∃ x ∈ page, place position x = position cursor ∧
        ∀ y ∈ page, place position y ≤ position cursor := by
  obtain ⟨seen, hpage, ⟨rfl, rfl⟩ | ⟨front, x, rfl, htoken⟩⟩ := h
  · exact .inl ⟨by simpa using hpage, rfl⟩
  · rw [List.append_nil] at hpage
    have hplace : place position x = position cursor := by simp [place, htoken]
    refine .inr ⟨x, by simp [hpage], hplace, fun y hy => ?_⟩
    have hsorted := hp.sorted
    rw [hpage] at hy hsorted
    rcases List.mem_append.mp hy with hy | hy
    · have := (List.pairwise_append.mp hsorted).2.2 y hy x (by simp)
      omega
    · rw [List.mem_singleton.mp hy]
      exact hplace.le

end Paging

/-- A cursor a cycle may fetch with: the persisted one, or the origin before
the first checkpoint. -/
structure FetchFrom (position : String → ℕ) (w : Poller) (base : String) : Prop where
  known : w.cursor = some base ∨ w.origin = some base
  after : ∃ origin ∈ w.origin, position origin ≤ position base

/-- What holds of the poller whatever the calls of `reconcile_payment` return. -/
structure Paged (position : String → ℕ) (w : Poller) : Prop where
  ascending : Ascending position w.history
  cursor : ∀ c ∈ w.cursor, ∃ origin ∈ w.origin, position origin ≤ position c ∧
    (position c = position origin ∨ ∃ x ∈ w.history, place position x = position c)
  pc : match w.pc with
    | .baseline => w.cursor = none
    | .fetch c _ _ => FetchFrom position w c
    | .records page todo c _ _ => ∃ base, FetchFrom position w base ∧
        PageAfter position w.history base page ∧ Walked base page todo c
    | .checkpoint page c _ _ => ∃ base, FetchFrom position w base ∧
        PageAfter position w.history base page ∧ Walked base page [] c
    | _ => True

namespace Paged
variable {position : String → ℕ} {w t : Poller} {e : PollEvent}

theorem start {history : List HorizonPayment} {cursor : Option String}
    (h : Ascending position history) : Paged position (Poller.start history cursor) :=
  ⟨h, fun c hc => ⟨c, hc, le_rfl, .inl rfl⟩, trivial⟩

theorem lands (h : Paged position w) {hp : HorizonPayment} (ht : hp.pagingToken.isSome)
    (hnew : ∀ x ∈ w.history, place position x < place position hp) :
    Paged position { w with history := w.history ++ [hp] } := by
  refine ⟨⟨?_, ?_⟩, ?_, ?_⟩
  · intro x hx
    rcases List.mem_append.mp hx with hx | hx
    · exact h.ascending.tokens x hx
    · rw [List.mem_singleton.mp hx]
      exact ht
  · refine List.pairwise_append.mpr ⟨h.ascending.sorted, by simp, fun x hx y hy => ?_⟩
    rw [List.mem_singleton.mp hy]
    exact hnew x hx
  · intro c hc
    obtain ⟨o, ho, hle, hplace⟩ := h.cursor c hc
    exact ⟨o, ho, hle, hplace.imp_right fun ⟨x, hx, hp⟩ => ⟨x, List.mem_append_left _ hx, hp⟩⟩
  · have hpc := h.pc
    simp only
    split
    · next heq => simpa only [heq] using hpc
    · next heq =>
      simp only [heq] at hpc
      exact ⟨hpc.known, hpc.after⟩
    · next heq =>
      simp only [heq] at hpc
      obtain ⟨base, hb, hpage, hwalk⟩ := hpc
      exact ⟨base, ⟨hb.known, hb.after⟩, hpage.lands hnew, hwalk⟩
    · next heq =>
      simp only [heq] at hpc
      obtain ⟨base, hb, hpage, hwalk⟩ := hpc
      exact ⟨base, ⟨hb.known, hb.after⟩, hpage.lands hnew, hwalk⟩
    · trivial

theorem walk {page todo : List HorizonPayment} {base cursor : String} {settled pages : ℕ}
    (ha : Ascending position w.history)
    (hc : ∀ c ∈ w.cursor, ∃ origin ∈ w.origin, position origin ≤ position c ∧
      (position c = position origin ∨ ∃ x ∈ w.history, place position x = position c))
    (hb : FetchFrom position w base) (hpage : PageAfter position w.history base page)
    (hwalk : Walked base page todo cursor) :
    Paged position { w with pc := Poller.walk page todo cursor settled pages } := by
  refine ⟨ha, hc, ?_⟩
  unfold Poller.walk
  split_ifs with h
  · subst h
    exact ⟨base, ⟨hb.known, hb.after⟩, hpage, hwalk⟩
  · exact ⟨base, ⟨hb.known, hb.after⟩, hpage, hwalk⟩

/-- A checkpoint stores the place of a record, or the cursor the page was fetched with. -/
theorem checkpoint {page : List HorizonPayment} {cursor : String} {settled pages : ℕ}
    (h : Paged position w) (hpc : w.pc = .checkpoint page cursor settled pages) :
    Paged position { w with
      cursor := some cursor, pc := afterCheckpoint page cursor settled pages } := by
  have hx := h.pc
  simp only [hpc] at hx
  obtain ⟨base, hb, hpage, hwalk⟩ := hx
  obtain ⟨o, ho, hle⟩ := hb.after
  have hcur : position o ≤ position cursor ∧ (position cursor = position o ∨
      ∃ x ∈ w.history, place position x = position cursor) := by
    rcases hwalk.end_cases hpage with ⟨-, rfl⟩ | ⟨x, hx, hplace, -⟩
    · rcases hb.known with hk | hk
      · obtain ⟨o', ho', h1, h2⟩ := h.cursor cursor hk
        cases Option.some.inj (ho.symm.trans ho')
        exact ⟨h1, h2⟩
      · cases Option.some.inj (ho.symm.trans hk)
        exact ⟨le_rfl, .inl rfl⟩
    · have := (hpage.after x hx).2
      exact ⟨by omega, .inr ⟨x, (hpage.after x hx).1, hplace⟩⟩
  refine ⟨h.ascending, fun c hc => ?_, ?_⟩
  · cases Option.some.inj hc
    exact ⟨o, ho, hcur⟩
  · unfold afterCheckpoint
    split_ifs
    · trivial
    · trivial
    · exact ⟨.inl rfl, o, ho, hcur.1⟩

theorem step (hs : Poller.step position w e = some t) (h : Paged position w) :
    Paged position t := by
  have hpc := h.pc
  cases step_moves hs with
  | lands token _ last => exact h.lands token last
  | poll | unset _ hc | latest | failed | crash => exact ⟨h.ascending, h.cursor, by trivial⟩
  | resume _ hc =>
    obtain ⟨o, ho, hle, -⟩ := h.cursor _ hc
    exact ⟨h.ascending, h.cursor, .inl hc, o, ho, hle⟩
  | fromZero heq =>
    simp only [heq] at hpc
    refine ⟨h.ascending, fun c hc => ?_, .inr rfl, "0", rfl, le_rfl⟩
    rw [hpc] at hc
    cases hc
  | baselined =>
    exact ⟨h.ascending, fun c hc => ⟨c, hc, le_rfl, .inl rfl⟩, .inl rfl, _, rfl, le_rfl⟩
  | page heq hpage =>
    simp only [heq] at hpc
    subst hpage
    exact walk h.ascending h.cursor hpc (fetchRecentPayments_pageAfter h.ascending _)
      ⟨[], rfl, .inl ⟨rfl, rfl⟩⟩
  | checkpoint heq => exact h.checkpoint heq
  | @record page todo hp c settled pages result heq =>
    simp only [heq] at hpc
    obtain ⟨base, hb, hpage, hwalk⟩ := hpc
    have hin : hp ∈ page := by
      obtain ⟨seen, hpage', -⟩ := hwalk
      simp [hpage']
    exact walk (w := { w with reconciled := w.reconciled ++ [(hp, result)] }) h.ascending h.cursor
      ⟨hb.known, hb.after⟩ hpage (hwalk.next (h.ascending.tokens hp (hpage.after hp hin).1))

end Paged

section Skipped
variable {position : String → ℕ} {w t : Poller} {e : PollEvent}

theorem NoneSkipped.mono (h : w.NoneSkipped position) (hh : t.history = w.history)
    (hc : t.cursor = w.cursor) (ho : t.origin = w.origin)
    (hr : ∀ hp, w.Reconciled hp → t.Reconciled hp) : t.NoneSkipped position := by
  intro c hcur
  obtain ⟨o, horigin, hall⟩ := h c (hc ▸ hcur)
  exact ⟨o, ho ▸ horigin, fun hp hin hlt hle => hr hp (hall hp (hh ▸ hin) hlt hle)⟩

/-- A record that lands is not yet behind the persisted cursor. -/
theorem NoneSkipped.lands (hw : Paged position w) (h : w.NoneSkipped position)
    {hp : HorizonPayment} (hnew : ∀ x ∈ w.history, place position x < place position hp) :
    NoneSkipped position { w with history := w.history ++ [hp] } := by
  intro c hc
  obtain ⟨o, ho, hall⟩ := h c hc
  obtain ⟨o', ho', -, hplace⟩ := hw.cursor c hc
  cases Option.some.inj (ho.symm.trans ho')
  refine ⟨o, ho, fun y hy hlt hle => ?_⟩
  rcases List.mem_append.mp hy with hy | hy
  · exact hall y hy hlt hle
  · rw [List.mem_singleton.mp hy] at hlt hle
    rcases hplace with heq | ⟨x, hx, heq⟩
    · omega
    · have := hnew x hx
      omega

/-- A checkpoint skips no record exactly when every record of its page was reconciled. -/
theorem noneSkipped_checkpoint_iff (hw : Paged position w) (h : w.NoneSkipped position)
    {page : List HorizonPayment} {cursor : String} {settled pages : ℕ}
    (hpc : w.pc = .checkpoint page cursor settled pages) :
    NoneSkipped position { w with
        cursor := some cursor, pc := afterCheckpoint page cursor settled pages } ↔
      ∀ hp ∈ page, w.Reconciled hp := by
  have hx := hw.pc
  simp only [hpc] at hx
  obtain ⟨base, hb, hpage, hwalk⟩ := hx
  obtain ⟨o, ho, hle⟩ := hb.after
  constructor
  · intro hnone hp hin
    obtain ⟨o', ho', hall⟩ := hnone cursor rfl
    cases Option.some.inj (ho.symm.trans ho')
    obtain ⟨hmem, hlt⟩ := hpage.after hp hin
    rcases hwalk.end_cases hpage with ⟨rfl, -⟩ | ⟨x, hx, hplace, hmax⟩
    · exact absurd hin List.not_mem_nil
    · exact hall hp hmem (by omega) (hmax hp hin)
  · intro hall c hc
    cases Option.some.inj hc
    refine ⟨o, ho, fun hp hmem hlt hle' => ?_⟩
    by_cases hbase : place position hp ≤ position base
    · rcases hb.known with hk | hk
      · obtain ⟨o', ho', hold⟩ := h base hk
        cases Option.some.inj (ho.symm.trans ho')
        exact hold hp hmem hlt hbase
      · cases Option.some.inj (ho.symm.trans hk)
        omega
    · rcases hwalk.end_cases hpage with ⟨-, rfl⟩ | ⟨x, hx, hplace, -⟩
      · exact absurd hle' hbase
      · exact hall hp (hpage.closed hp hmem x hx (by omega) (by omega))

theorem noneSkipped_step_iff (hs : step position w e = some t) (hw : Paged position w)
    (h : w.NoneSkipped position) : t.NoneSkipped position ↔ w.ChecksPage e := by
  have hok : (∀ page c settled pages, w.pc = .checkpoint page c settled pages → e ≠ .reply true) →
      t.NoneSkipped position → (t.NoneSkipped position ↔ w.ChecksPage e) := by
    intro hne ht
    refine iff_of_true ht ?_
    unfold ChecksPage
    split
    · next page c settled pages heq => exact absurd rfl (hne page c settled pages heq)
    · trivial
  cases step_moves hs with
  | lands _ _ last => exact hok (by simp) (h.lands hw last)
  | poll | failed | crash => exact hok (by simp) (h.mono rfl rfl rfl fun _ h => h)
  | resume heq | unset heq | latest heq | page heq =>
    exact hok (by simp [heq]) (h.mono rfl rfl rfl fun _ h => h)
  | record =>
    apply hok (by simp)
    exact h.mono rfl rfl rfl fun hp ⟨x, hx, hr⟩ => ⟨x, List.mem_append_left _ hx, hr⟩
  | fromZero heq =>
    apply hok (by simp [heq])
    have hpc := hw.pc
    simp only [heq] at hpc
    intro c hc
    rw [hpc] at hc
    cases hc
  | baselined heq =>
    apply hok (by simp [heq])
    intro c hc
    refine ⟨c, hc, fun hp _ hlt hle => ?_⟩
    omega
  | checkpoint heq =>
    rw [noneSkipped_checkpoint_iff hw h heq]
    simp only [ChecksPage, heq]

/-- In a run of poll cycles no record is ever behind the persisted cursor without a
successful call of `reconcile_payment` exactly when no page is checkpointed with a record
whose calls all failed. -/
theorem noneSkipped_iff {history : List HorizonPayment} {cursor : Option String}
    {es : List PollEvent} (hh : Ascending position history)
    (hr : run (step position) (start history cursor) es = some w) :
    (∀ fs, fs <+: es → ∀ u, run (step position) (start history cursor) fs = some u →
      u.NoneSkipped position) ↔ Along (step position) ChecksPage (start history cursor) es := by
  refine always_iff_along (I := Paged position) (fun _ _ _ hs hi => hi.step hs)
    (fun _ _ _ hs hi hn => noneSkipped_step_iff hs hi hn) hr (Paged.start hh) ?_
  intro c hc
  refine ⟨c, hc, fun hp _ hlt hle => ?_⟩
  omega

end Skipped

end Poller

/-! Tokens that are decimal numbers, for the concrete runs below. -/
namespace Sample

def position (token : String) : ℕ := token.toList.foldl (fun n c => 10 * n + (c.toNat - 48)) 0

def landed (token : String) : HorizonPayment :=
  { (default : HorizonPayment) with pagingToken := some token }

/-- One poll cycle over a page with the record `"7"`, whose call returns `result`. -/
def cycle (result : ReconcileResult) : List PollEvent :=
  [.poll, .reply true, .reply true, .reconciled result, .reply true]

end Sample

namespace Poller

/-- A record lands, a first cycle fails on its checkpoint and a second one is
successful. -/
theorem noneSkipped_iff_sample :
    let es := [.lands (Sample.landed "7"), .poll, .reply true, .reply true, .reconciled .err,
      .reply false] ++ Sample.cycle (.ok true)
    ∃ w, run (step Sample.position) (start [Sample.landed "5"] (some "5")) es = some w ∧
      w.cursor = some "7" ∧
      ((∀ fs, fs <+: es → ∀ u, run (step Sample.position)
        (start [Sample.landed "5"] (some "5")) fs = some u → u.NoneSkipped Sample.position) ↔
        Along (step Sample.position) ChecksPage (start [Sample.landed "5"] (some "5")) es) := by
  intro es
  obtain ⟨w, hw, hc⟩ := exists_of_run (step Sample.position) (start [Sample.landed "5"] (some "5"))
    es (P := fun w => w.cursor = some "7")
    (by decide)
  exact ⟨w, hw, hc, noneSkipped_iff ⟨by decide, by decide⟩ hw⟩

/-- The only call on a record fails, and the cursor passes it all the same. -/
theorem poll_skips_failed_record :
    ∃ w, run (step Sample.position) (start [Sample.landed "5", Sample.landed "7"] (some "5"))
        (Sample.cycle .err) = some w ∧
      w.cursor = some "7" ∧ w.origin = some "5" ∧ w.reconciled = [(Sample.landed "7", .err)] ∧
      ¬ w.NoneSkipped Sample.position :=
  exists_of_run _ _ _ (by decide)

end Poller
end StellarGate
