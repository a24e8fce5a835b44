import Mathlib.Algebra.Order.BigOperators.Group.Multiset
import StellarGate.Base.Refine

/-! A till: invoices that are issued at a price, transfers that are handed over and credited to
them, and the stage each invoice has come to. -/
namespace Base
open Relation (ReflTransGen)

/-- Nothing settled yet, too little, enough, or too late. -/
inductive Stage where
  | awaiting | short | paid | lapsed
  deriving DecidableEq, Repr

/-- More may still come of the invoice. -/
def Stage.isOpen : Stage → Bool
  | awaiting | short => true
  | paid | lapsed => false

/-- An invoice with the transfers credited to it, each under its tag. -/
structure Invoice (θ κ : Type*) where
  terms : θ
  stage : Stage
  credits : Multiset (κ × ℤ)

/-- What the till goes by: the price in the terms, which transfers pay for them, and the tag and the
amount of a transfer. -/
structure Trade (θ κ τ : Type*) where
  price : θ → ℤ
  pays : τ → θ → Prop
  tag : τ → κ
  amount : τ → ℤ

@[ext] structure Till (ι θ κ τ : Type*) where
  invoices : ι → Option (Invoice θ κ)
  handed : Set τ

variable {ι θ κ τ : Type*}

def Invoice.total (v : Invoice θ κ) : ℤ := (v.credits.map Prod.snd).sum

namespace Till

def empty : Till ι θ κ τ := ⟨fun _ => none, ∅⟩

/-- The invoice `i` comes to stand at `v`. -/
def put [DecidableEq ι] (t : Till ι θ κ τ) (i : ι) (v : Invoice θ κ) : Till ι θ κ τ :=
  { t with invoices := Function.update t.invoices i (some v) }

/-- What may happen at the till. A total that is settled may lag behind the credits. -/
inductive Next [DecidableEq ι] (trade : Trade θ κ τ) : Till ι θ κ τ → Till ι θ κ τ → Prop
  | hand (t : Till ι θ κ τ) (x : τ) : Next trade t { t with handed := insert x t.handed }
  | issue {t : Till ι θ κ τ} {i : ι} (terms : θ) (fresh : t.invoices i = none) :
    Next trade t (t.put i ⟨terms, .awaiting, 0⟩)
  | credit {t : Till ι θ κ τ} {i : ι} {v : Invoice θ κ} {x : τ} (h : t.invoices i = some v)
    (handed : x ∈ t.handed) (pays : trade.pays x v.terms)
    (new : trade.tag x ∉ v.credits.map Prod.fst) (pos : 0 < trade.amount x) :
    Next trade t (t.put i { v with credits := (trade.tag x, trade.amount x) ::ₘ v.credits })
  | settle {t : Till ι θ κ τ} {i : ι} {v : Invoice θ κ} {n : ℤ} (h : t.invoices i = some v)
    (opened : v.stage.isOpen = true) (pos : 0 < n) (covered : n ≤ v.total) :
    Next trade t (t.put i { v with stage := if trade.price v.terms ≤ n then .paid else .short })
  | lapse {t : Till ι θ κ τ} {i : ι} {v : Invoice θ κ} (h : t.invoices i = some v)
    (opened : v.stage.isOpen = true) : Next trade t (t.put i { v with stage := .lapsed })

/-- What holds of an invoice: it is paid only where the credits cover its price, and they are
transfers that were handed over for it, no two under one tag. -/
structure Honest (trade : Trade θ κ τ) (handed : Set τ) (v : Invoice θ κ) : Prop where
  covered : v.stage = .paid → trade.price v.terms ≤ v.total
  backed : ∀ c ∈ v.credits, ∃ x ∈ handed, trade.pays x v.terms ∧ (trade.tag x, trade.amount x) = c
  once : (v.credits.map Prod.fst).Nodup
  positive : ∀ c ∈ v.credits, 0 < c.2

def Sound (trade : Trade θ κ τ) (t : Till ι θ κ τ) : Prop :=
  ∀ i v, t.invoices i = some v → Honest trade t.handed v

end Till

/-- How an invoice may stand later: credits are only added, and once it is
closed its stage is final. -/
structure Invoice.Later (v w : Invoice θ κ) : Prop where
  terms : w.terms = v.terms
  credits : v.credits ≤ w.credits
  final : v.stage.isOpen = false → w.stage = v.stage

theorem Invoice.Later.refl (v : Invoice θ κ) : v.Later v := ⟨rfl, le_rfl, fun _ => rfl⟩

theorem Invoice.Later.trans {u v w : Invoice θ κ} (h : u.Later v) (h' : v.Later w) : u.Later w := by
  constructor
  · exact h'.terms.trans h.terms
  · exact h.credits.trans h'.credits
  · intro hclosed
    have hsame := h.final hclosed
    rw [h'.final (hsame ▸ hclosed), hsame]

namespace Till
variable {trade : Trade θ κ τ} {handed handed' : Set τ} {v w : Invoice θ κ}

theorem Honest.mono (h : Honest trade handed v) (hsub : handed ⊆ handed') :
    Honest trade handed' v := by
  refine ⟨h.covered, fun c hc => ?_, h.once, h.positive⟩
  obtain ⟨x, hx, hrest⟩ := h.backed c hc
  exact ⟨x, hsub hx, hrest⟩

/-- The credits are transfers, one for each. -/
theorem Honest.transfers (h : Honest trade handed v) :
    ∃ xs : Multiset τ, xs.map (fun x => (trade.tag x, trade.amount x)) = v.credits ∧
      ∀ x ∈ xs, x ∈ handed ∧ trade.pays x v.terms := by
  have hall : ∀ cs : Multiset (κ × ℤ),
      (∀ c ∈ cs, ∃ x ∈ handed, trade.pays x v.terms ∧ (trade.tag x, trade.amount x) = c) →
      ∃ xs : Multiset τ, xs.map (fun x => (trade.tag x, trade.amount x)) = cs ∧
        ∀ x ∈ xs, x ∈ handed ∧ trade.pays x v.terms := by
    intro cs
    induction cs using Multiset.induction_on with
    | empty => exact fun _ => ⟨0, rfl, fun x hx => absurd hx (Multiset.notMem_zero x)⟩
    | cons c cs ih =>
      intro hcs
      obtain ⟨x, hx, hpays, rfl⟩ := hcs c (Multiset.mem_cons_self c cs)
      obtain ⟨xs, hxs, hrest⟩ := ih fun c' hc' => hcs c' (Multiset.mem_cons_of_mem hc')
      refine ⟨x ::ₘ xs, by rw [Multiset.map_cons, hxs], fun y hy => ?_⟩
      rcases Multiset.mem_cons.mp hy with rfl | hy
      · exact ⟨hx, hpays⟩
      · exact hrest y hy
  exact hall v.credits h.backed

/-- A paid invoice is covered by transfers with different tags that were handed over for it. -/
theorem Honest.payers (h : Honest trade handed v) (hpaid : v.stage = .paid) :
    ∃ xs : Multiset τ, (xs.map trade.tag).Nodup ∧ (∀ x ∈ xs, x ∈ handed ∧ trade.pays x v.terms) ∧
      trade.price v.terms ≤ (xs.map trade.amount).sum := by
  obtain ⟨xs, hxs, hfor⟩ := h.transfers
  refine ⟨xs, ?_, hfor, ?_⟩
  · have hnodup := h.once
    rw [← hxs, Multiset.map_map] at hnodup
    exact hnodup
  · have hcovered := h.covered hpaid
    rw [Invoice.total, ← hxs, Multiset.map_map] at hcovered
    exact hcovered

section
variable [DecidableEq ι] {t t' : Till ι θ κ τ} {i j : ι}

theorem put_self : (t.put i v).invoices i = some v := Function.update_self ..

theorem put_of_ne (h : j ≠ i) : (t.put i v).invoices j = t.invoices j := Function.update_of_ne h ..

theorem eq_put (hself : t'.invoices i = some v) (hother : ∀ j, j ≠ i → t'.invoices j = t.invoices j)
    (hhanded : t'.handed = t.handed) : t' = t.put i v := by
  ext1
  · funext j
    by_cases hji : j = i
    · subst hji
      rw [put_self, hself]
    · rw [put_of_ne hji, hother j hji]
  · exact hhanded

omit [DecidableEq ι] in
theorem sound_empty : Sound trade (empty : Till ι θ κ τ) := fun _ _ h => nomatch h

theorem Sound.put (h : Sound trade t) (hv : Honest trade t.handed v) : Sound trade (t.put i v) := by
  intro j w hw
  by_cases hji : j = i
  · subst hji
    rw [put_self] at hw
    cases hw
    exact hv
  · rw [put_of_ne hji] at hw
    exact h j w hw

/-- Whatever happens at the till, its invoices stay honest. -/
theorem Sound.next (hnext : Next trade t t') (h : Sound trade t) : Sound trade t' := by
  cases hnext with
  | hand x => exact fun i v hv => (h i v hv).mono (Set.subset_insert x t.handed)
  | issue terms fresh =>
    refine h.put ⟨(fun hpaid => nomatch hpaid), ?_, Multiset.nodup_zero, ?_⟩
    · exact fun c hc => absurd hc (Multiset.notMem_zero c)
    · exact fun c hc => absurd hc (Multiset.notMem_zero c)
  | @credit i v x hv handed pays new pos =>
    have hold := h i v hv
    refine h.put ⟨fun hpaid => ?_, fun c hc => ?_, ?_, fun c hc => ?_⟩
    · have hcovered := hold.covered hpaid
      simp only [Invoice.total, Multiset.map_cons, Multiset.sum_cons] at hcovered ⊢
      omega
    · rcases Multiset.mem_cons.mp hc with rfl | hc
      · exact ⟨x, handed, pays, rfl⟩
      · exact hold.backed c hc
    · rw [Multiset.map_cons]
      exact Multiset.nodup_cons.mpr ⟨new, hold.once⟩
    · rcases Multiset.mem_cons.mp hc with rfl | hc
      · exact pos
      · exact hold.positive c hc
  | @settle i v n hv opened pos covered =>
    have hold := h i v hv
    refine h.put ⟨fun hpaid => ?_, hold.backed, hold.once, hold.positive⟩
    simp only at hpaid
    split_ifs at hpaid with hprice
    exact hprice.trans covered
  | @lapse i v hv opened =>
    have hold := h i v hv
    exact h.put ⟨(fun hpaid => nomatch hpaid), hold.backed, hold.once, hold.positive⟩

theorem Sound.reaches (hreach : ReflTransGen (Next trade) t t') (h : Sound trade t) :
    Sound trade t' :=
  invariant_of_reaches (fun _ _ hnext h => h.next hnext) hreach h

/-- No step forgets an invoice, takes a credit back or opens it again. -/
theorem Next.later (hnext : Next trade t t') (hv : t.invoices i = some v) :
    ∃ w, t'.invoices i = some w ∧ v.Later w := by
  have hput : ∀ {j : ι} {u w : Invoice θ κ}, t.invoices j = some u → u.Later w →
      ∃ x, (t.put j w).invoices i = some x ∧ v.Later x := by
    intro j u w hu hlater
    by_cases hij : i = j
    · subst hij
      cases hu.symm.trans hv
      exact ⟨w, put_self, hlater⟩
    · exact ⟨v, (put_of_ne hij).trans hv, .refl v⟩
  cases hnext with
  | hand x => exact ⟨v, hv, .refl v⟩
  | @issue j terms fresh =>
    have hij : i ≠ j := by
      rintro rfl
      cases fresh.symm.trans hv
    exact ⟨v, (put_of_ne hij).trans hv, .refl v⟩
  | credit hu handed pays new pos => exact hput hu ⟨rfl, Multiset.le_cons_self _ _, fun _ => rfl⟩
  | settle hu opened pos covered =>
    exact hput hu ⟨rfl, le_rfl, fun hclosed => absurd (opened.symm.trans hclosed) (by decide)⟩
  | lapse hu opened =>
    exact hput hu ⟨rfl, le_rfl, fun hclosed => absurd (opened.symm.trans hclosed) (by decide)⟩

theorem later_of_reaches (hreach : ReflTransGen (Next trade) t t') (hv : t.invoices i = some v) :
    ∃ w, t'.invoices i = some w ∧ v.Later w := by
  induction hreach with
  | refl => exact ⟨v, hv, .refl v⟩
  | tail _ hlast ih =>
    obtain ⟨u, hu, hvu⟩ := ih
    obtain ⟨w, hw, huw⟩ := hlast.later hu
    exact ⟨w, hw, hvu.trans huw⟩

/-- The till after all of some open invoices have lapsed. -/
def lapsed (t : Till ι θ κ τ) (ids : List ι) : Till ι θ κ τ :=
  { t with invoices := fun i =>
      if i ∈ ids then (t.invoices i).map fun v => { v with stage := .lapsed } else t.invoices i }

theorem reaches_lapsed {ids : List ι}
    (hopen : ∀ i ∈ ids, ∃ v, t.invoices i = some v ∧ v.stage.isOpen = true) :
    ReflTransGen (Next trade) t (t.lapsed ids) := by
  induction ids with
  | nil => exact .refl
  | cons i ids ih =>
    have hrest := ih fun j hj => hopen j (List.mem_cons_of_mem i hj)
    by_cases hi : i ∈ ids
    · have hsame : t.lapsed (i :: ids) = t.lapsed ids := by
        simp only [lapsed, List.mem_cons, Till.mk.injEq, and_true]
        funext j
        by_cases hj : j = i
        · rw [if_pos (.inl hj), if_pos (hj ▸ hi)]
        · simp only [hj, false_or]
      rw [hsame]
      exact hrest
    · obtain ⟨v, hv, hvopen⟩ := hopen i List.mem_cons_self
      have hstill : (t.lapsed ids).invoices i = some v := by
        simp only [lapsed, if_neg hi, hv]
      refine hrest.tail ?_
      have hlast : (t.lapsed ids).put i { v with stage := .lapsed } = t.lapsed (i :: ids) := by
        simp only [put, lapsed, Till.mk.injEq, and_true]
        funext j
        by_cases hj : j = i
        · subst hj
          rw [Function.update_self, if_pos List.mem_cons_self, hv]
          rfl
        · rw [Function.update_of_ne hj]
          simp only [List.mem_cons, hj, false_or]
      rw [← hlast]
      exact .lapse hstill hvopen

end
end Till
end Base
