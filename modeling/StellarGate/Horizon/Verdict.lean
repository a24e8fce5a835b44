import StellarGate.System

/-! The verdict of `verify` as a comparison of integers, and where the addition of
`i64` departs from it. -/
namespace StellarGate

section Addition
variable {a b : ℤ}

theorem i64Add_of_le (hpos : 0 ≤ a + b) (hmax : a + b ≤ i64Max) : i64Add a b = a + b := by
  unfold i64Add
  unfold i64Max at hmax
  exact Int.bmod_eq_of_le (by omega) (by omega)

/-- A sum of two amounts that does not fit comes out negative. -/
theorem i64Add_of_lt (ha : a ≤ i64Max) (hb : b ≤ i64Max) (h : i64Max < a + b) :
    i64Add a b = a + b - 18446744073709551616 := by
  unfold i64Max at ha hb h
  have hshift : Int.bmod (a + b) 18446744073709551616 =
      Int.bmod (a + b - 18446744073709551616) 18446744073709551616 :=
    (Int.sub_bmod_right (a + b) 18446744073709551616).symm
  unfold i64Add
  rw [hshift]
  exact Int.bmod_eq_of_le (by omega) (by omega)

end Addition

section Verdict
variable {payment : Payment} {hp : HorizonPayment} {already new expected : ℤ} {raw : String}

theorem verify_eq_of_matches (hm : Matches payment hp) (hraw : hp.amount = some raw)
    (hnew : parseStroops raw = some new) (hexpected : parseStroops payment.amount = some expected) :
    verify payment hp already = some (verdictOf (i64Add already new) expected hp.hash
      (stroopsToString (i64Add already new))) := by
  have ha := assetMatches_iff.mpr hm.asset
  simp [verify, hm.kind, hm.destination, hm.memo, hm.successful, ha, hraw, hnew, hexpected]

theorem verdictOf_eq_underpaid {total : ℤ} {txHash paidAmount : String} :
    verdictOf total expected txHash paidAmount = .underpaid txHash paidAmount ↔
      total < expected := by
  unfold verdictOf
  split_ifs with heq hlt
  · exact iff_of_false id (by omega)
  · exact iff_of_false id (by omega)
  · exact iff_of_true rfl (by omega)

theorem verdictOf_eq_completed {total : ℤ} {txHash paidAmount : String} :
    verdictOf total expected txHash paidAmount = .completed txHash paidAmount ↔
      total = expected := by
  unfold verdictOf
  split_ifs with heq hlt
  · exact iff_of_true rfl heq
  · exact iff_of_false id heq
  · exact iff_of_false id heq

theorem verdictOf_eq_overpaid {total : ℤ} {txHash paidAmount : String} :
    verdictOf total expected txHash paidAmount = .overpaid txHash paidAmount ↔
      expected < total := by
  unfold verdictOf
  split_ifs with heq hlt
  · exact iff_of_false id (by omega)
  · exact iff_of_true rfl hlt
  · exact iff_of_false id hlt

/-- The verdict is that of the sum as an integer, with the decimal text of the sum, and the
addition does not overflow. -/
structure ExactVerdict (payment : Payment) (hp : HorizonPayment) (already new expected : ℤ) :
    Prop where
  underpaid : verify payment hp already =
    some (.underpaid hp.hash (stroopsToString (already + new))) ↔
    already + new < expected
  completed : verify payment hp already =
    some (.completed hp.hash (stroopsToString (already + new))) ↔
    already + new = expected
  overpaid : verify payment hp already =
    some (.overpaid hp.hash (stroopsToString (already + new))) ↔
    expected < already + new
  fits : i64Add already new = already + new

/-- Beyond `i64` a record that overpays is taken for one that underpays. -/
theorem verify_of_overflow (hm : Matches payment hp) (hraw : hp.amount = some raw)
    (hnew : parseStroops raw = some new) (hexpected : parseStroops payment.amount = some expected)
    (hpaid : already < expected) (hover : i64Max < already + new) :
    verify payment hp already = some (.underpaid hp.hash
      (stroopsToString (already + new - 18446744073709551616))) := by
  obtain ⟨hnewPos, hnewMax⟩ := parseStroops_bounds hnew
  obtain ⟨hexpectedPos, hexpectedMax⟩ := parseStroops_bounds hexpected
  have hadd := i64Add_of_lt (by omega) hnewMax hover
  rw [verify_eq_of_matches hm hraw hnew hexpected, hadd]
  apply congrArg some
  apply verdictOf_eq_underpaid.mpr
  unfold i64Max at hnewMax hexpectedMax
  omega

/-- `verify` is exact at the limits of `i64` precisely when the running total stays within them. -/
theorem exactVerdict_iff (hm : Matches payment hp) (hraw : hp.amount = some raw)
    (hnew : parseStroops raw = some new) (hexpected : parseStroops payment.amount = some expected)
    (halready : 0 ≤ already) (hpaid : already < expected) :
    ExactVerdict payment hp already new expected ↔ already + new ≤ i64Max := by
  obtain ⟨hpos, -⟩ := parseStroops_bounds hnew
  constructor
  · intro hexact
    by_contra hover
    have hwrapped := verify_of_overflow hm hraw hnew hexpected hpaid (not_le.mp hover)
    obtain ⟨-, hexpectedMax⟩ := parseStroops_bounds hexpected
    have hover' := hexact.overpaid.mpr (by omega)
    rw [hwrapped] at hover'
    cases hover'
  · intro hmax
    have hadd := i64Add_of_le (by omega) hmax
    have hverdict : verify payment hp already =
        some (verdictOf (already + new) expected hp.hash (stroopsToString (already + new))) := by
      rw [verify_eq_of_matches hm hraw hnew hexpected, hadd]
    refine ⟨?_, ?_, ?_, hadd⟩ <;> rw [hverdict, Option.some_inj]
    · exact verdictOf_eq_underpaid
    · exact verdictOf_eq_completed
    · exact verdictOf_eq_overpaid

end Verdict

namespace Sample

/-- An intent for native XLM with the memo `"11"`. -/
def intent (amount : String) : Payment :=
  { id := "10", merchantId := "m", destinationAddress := "GATE", memo := "11", amount,
    asset := "XLM", assetIssuer := none, status := .underpaid, webhookUrl := none,
    txHash := none, paidAmount := none, createdAt := "", updatedAt := "", expiresAt := "" }

end Sample

theorem exactVerdict_iff_sample :
    ExactVerdict (Sample.intent "10") (Sample.record "11" "4.5000000" "TXA" "1") 60000000 45000000
        100000000 ↔
      (60000000 : ℤ) + 45000000 ≤ i64Max :=
  have hraw : (Sample.record "11" "4.5000000" "TXA" "1").amount = some "4.5000000" := rfl
  exactVerdict_iff (by decide) hraw (by decide) (by decide) (by decide) (by decide)

/-- Two stroops are paid to an intent of 2^63 - 1 that lacks one: the verdict is an underpayment
of less than nothing. -/
theorem overpaid_as_underpaid :
    Matches (Sample.intent "922337203685.4775807") (Sample.record "11" "0.0000002" "TXA" "1") ∧
      parseStroops "922337203685.4775807" = some i64Max ∧ parseStroops "0.0000002" = some 2 ∧
      verify (Sample.intent "922337203685.4775807") (Sample.record "11" "0.0000002" "TXA" "1")
        (i64Max - 1) = some (.underpaid "TXA" "-922337203685.-4775808") ∧
      i64Max < i64Max - 1 + 2 ∧
      ¬ ExactVerdict (Sample.intent "922337203685.4775807")
        (Sample.record "11" "0.0000002" "TXA" "1") (i64Max - 1) 2 i64Max := by
  have hverdict : verify (Sample.intent "922337203685.4775807")
      (Sample.record "11" "0.0000002" "TXA" "1")
      (i64Max - 1) = some (.underpaid "TXA" "-922337203685.-4775808") := by decide +kernel
  refine ⟨by decide, by decide, by decide, hverdict, by decide, fun hexact => ?_⟩
  have hover := hexact.overpaid.mpr (by decide)
  rw [hverdict] at hover
  cases hover

end StellarGate
