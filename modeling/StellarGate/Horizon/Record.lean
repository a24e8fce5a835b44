import StellarGate.Db.Schema

/-! Horizon payment records and their match against an intent (`verify` in
`src/horizon.rs`). -/
namespace StellarGate

structure TransactionRef where
  memo : Option String
  memoType : Option String
  successful : Option Bool
  deriving DecidableEq, Repr

structure HorizonPayment where
  kind : String
  amount : Option String
  assetType : Option String
  assetCode : Option String
  assetIssuer : Option String
  toAddress : Option String
  transactionHash : Option String
  transaction : Option TransactionRef
  pagingToken : Option String
  createdAt : Option String
  deriving DecidableEq, Repr, Inhabited

namespace HorizonPayment

def memo (hp : HorizonPayment) : Option String :=
  hp.transaction.bind fun t => if t.memoType = some "text" then t.memo else none

def isSuccessful (hp : HorizonPayment) : Bool :=
  hp.transaction.bind (·.successful) == some true

/-- `transaction_hash.unwrap_or_default()`. -/
def hash (hp : HorizonPayment) : String := hp.transactionHash.getD ""

def stroops (hp : HorizonPayment) : Option ℤ := hp.amount.bind parseStroops

end HorizonPayment

def eqIgnoreAsciiCase (a b : String) : Bool :=
  a.toList.map Char.toLower == b.toList.map Char.toLower

/-- The asset test of `verify`: the pinned issuer and code, or native for XLM. -/
def assetMatches (payment : Payment) (hp : HorizonPayment) : Bool :=
  match payment.assetIssuer.filter (· ≠ "") with
  | none => eqIgnoreAsciiCase payment.asset "XLM" && hp.assetType == some "native"
  | some issuer => hp.assetCode == some payment.asset && hp.assetIssuer == some issuer

inductive Verdict where
  | completed (txHash paidAmount : String)
  | overpaid (txHash paidAmount : String)
  | underpaid (txHash paidAmount : String)
  deriving DecidableEq, Repr

/-- The verdict on a total, from its comparison with the expected amount. -/
def verdictOf (total expected : ℤ) (txHash paidAmount : String) : Verdict :=
  if total = expected then .completed txHash paidAmount
  else if expected < total then .overpaid txHash paidAmount
  else .underpaid txHash paidAmount

/-- Decide whether a Horizon payment satisfies a pending intent. -/
def verify (payment : Payment) (hp : HorizonPayment) (alreadyPaidStroops : ℤ) : Option Verdict :=
  if hp.kind ≠ "payment" then none
  else if hp.toAddress ≠ some payment.destinationAddress then none
  else if hp.memo ≠ some payment.memo then none
  else if !hp.isSuccessful then none
  else if !assetMatches payment hp then none
  else
    hp.amount.bind fun rawAmount =>
      (parseStroops rawAmount).bind fun newPaid =>
        (parseStroops payment.amount).bind fun expected =>
          let totalPaid := i64Add alreadyPaidStroops newPaid
          some (verdictOf totalPaid expected hp.hash (stroopsToString totalPaid))

/-- The record is in exactly the intent's asset: native for an XLM intent without an
issuer, else the intent's code and issuer. -/
def InAsset (payment : Payment) (hp : HorizonPayment) : Prop :=
  ((payment.assetIssuer = none ∨ payment.assetIssuer = some "") ∧
    eqIgnoreAsciiCase payment.asset "XLM" = true ∧ hp.assetType = some "native") ∨
  ∃ issuer ∈ payment.assetIssuer,
    issuer ≠ "" ∧ hp.assetCode = some payment.asset ∧ hp.assetIssuer = some issuer

theorem assetMatches_iff {payment : Payment} {hp : HorizonPayment} :
    assetMatches payment hp = true ↔ InAsset payment hp := by
  unfold assetMatches InAsset
  cases hi : payment.assetIssuer with
  | none => simp
  | some issuer => by_cases he : issuer = "" <;> simp [he, Option.filter]

/-- A successful text-memo payment operation to the intent's destination in exactly its
asset. -/
structure Matches (payment : Payment) (hp : HorizonPayment) : Prop where
  kind : hp.kind = "payment"
  destination : hp.toAddress = some payment.destinationAddress
  memo : hp.memo = some payment.memo
  successful : hp.isSuccessful = true
  asset : InAsset payment hp

instance (payment : Payment) (hp : HorizonPayment) : Decidable (InAsset payment hp) :=
  decidable_of_iff _ assetMatches_iff

instance (payment : Payment) (hp : HorizonPayment) : Decidable (Matches payment hp) :=
  decidable_of_iff (hp.kind = "payment" ∧ hp.toAddress = some payment.destinationAddress ∧
      hp.memo = some payment.memo ∧ hp.isSuccessful = true ∧ InAsset payment hp)
    ⟨fun ⟨a, b, c, d, e⟩ => ⟨a, b, c, d, e⟩, fun ⟨a, b, c, d, e⟩ => ⟨a, b, c, d, e⟩⟩

/-- A matching record with an amount that parses. -/
def Pays (payment : Payment) (hp : HorizonPayment) : Prop :=
  Matches payment hp ∧ hp.stroops.isSome

instance (payment : Payment) (hp : HorizonPayment) : Decidable (Pays payment hp) := by
  unfold Pays
  infer_instance

/-- `verify` answers exactly on matching records when both amounts parse. -/
theorem verify_isSome_iff {payment : Payment} {hp : HorizonPayment} {already : ℤ} :
    (verify payment hp already).isSome ↔
      Matches payment hp ∧ hp.stroops.isSome ∧ (parseStroops payment.amount).isSome := by
  constructor
  · intro h
    obtain ⟨v, hv⟩ := Option.isSome_iff_exists.mp h
    unfold verify at hv
    split_ifs at hv with hk ht hm hs ha
    obtain ⟨raw, hraw, hv⟩ := Option.bind_eq_some_iff.mp hv
    obtain ⟨new, hnew, hv⟩ := Option.bind_eq_some_iff.mp hv
    obtain ⟨exp, hexp, -⟩ := Option.bind_eq_some_iff.mp hv
    refine ⟨⟨not_not.mp hk, not_not.mp ht, not_not.mp hm, by simpa using hs,
      assetMatches_iff.mp (by simpa using ha)⟩, ?_, by simp [hexp]⟩
    simp [HorizonPayment.stroops, hraw, hnew]
  · rintro ⟨hm, hn, he⟩
    obtain ⟨n, hn⟩ := Option.isSome_iff_exists.mp hn
    obtain ⟨raw, hraw, hnew⟩ := Option.bind_eq_some_iff.mp hn
    obtain ⟨e, he⟩ := Option.isSome_iff_exists.mp he
    have ha := assetMatches_iff.mpr hm.asset
    simp [verify, hm.kind, hm.destination, hm.memo, hm.successful, ha, hraw, hnew, he]

theorem InAsset.of_terms {p q : Payment} {hp : HorizonPayment} (h : p.terms = q.terms)
    (ha : InAsset p hp) : InAsset q hp := by
  have hc := Payment.asset_eq_of_terms h
  have hi := Payment.assetIssuer_eq_of_terms h
  simpa only [InAsset, hc, hi] using ha

theorem Matches.of_terms {p q : Payment} {hp : HorizonPayment} (h : p.terms = q.terms)
    (hm : Matches p hp) : Matches q hp := by
  have hd := Payment.destinationAddress_eq_of_terms h
  exact ⟨hm.kind, hd ▸ hm.destination, Payment.memo_eq_of_terms h ▸ hm.memo, hm.successful,
    hm.asset.of_terms h⟩

theorem verify_congr {p q : Payment} (ht : q.terms = p.terms) (hp : HorizonPayment) (already : ℤ) :
    verify q hp already = verify p hp already := by
  unfold verify assetMatches
  rw [Payment.destinationAddress_eq_of_terms ht, Payment.memo_eq_of_terms ht,
    Payment.amount_eq_of_terms ht, Payment.asset_eq_of_terms ht, Payment.assetIssuer_eq_of_terms ht]

theorem HorizonPayment.stroops_pos {hp : HorizonPayment} {n : ℤ} (h : hp.stroops = some n) :
    0 < n := by
  obtain ⟨raw, -, hn⟩ := Option.bind_eq_some_iff.mp h
  exact (parseStroops_bounds hn).1

theorem Pays.stroops_pos {p : Payment} {hp : HorizonPayment} (h : Pays p hp) :
    0 < hp.stroops.getD 0 := by
  obtain ⟨n, hn⟩ := Option.isSome_iff_exists.mp h.2
  rw [hn]
  exact HorizonPayment.stroops_pos hn

theorem Pays.of_terms {p q : Payment} {hp : HorizonPayment} (ht : p.terms = q.terms)
    (h : Pays p hp) : Pays q hp :=
  ⟨h.1.of_terms ht, h.2⟩

def totalOf (R : List HorizonPayment) : ℤ := (R.map (·.stroops.getD 0)).sum

theorem totalOf_cons (hp : HorizonPayment) (R : List HorizonPayment) :
    totalOf (hp :: R) = hp.stroops.getD 0 + totalOf R := by
  simp [totalOf]

end StellarGate
