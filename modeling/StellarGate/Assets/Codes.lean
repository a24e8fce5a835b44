import StellarGate.Api.Invoice
import StellarGate.Assets.Confusion

/-! Codes in small letters: the parser and the request handler make capitals of them, `verify` and
`missing_trustlines` compare them as Horizon writes them. -/
namespace StellarGate
open Base

def IsAssetCode (code : String) : Prop :=
  1 ≤ code.length ∧ code.length ≤ 12 ∧ ∀ c ∈ code.toList, c.isAlphanum = true

instance (code : String) : Decidable (IsAssetCode code) :=
  decidable_of_iff (1 ≤ code.length ∧ code.length ≤ 12 ∧ code.toList.all Char.isAlphanum = true)
    (by rw [List.all_eq_true]; rfl)

/-- The record of a successful payment to the intent, of exactly the asset `code` of `issuer`. -/
structure PaidIn (p : Payment) (code issuer : String) (hp : HorizonPayment) : Prop where
  kind : hp.kind = "payment"
  destination : hp.toAddress = some p.destinationAddress
  memo : hp.memo = some p.memo
  successful : hp.isSuccessful = true
  assetCode : hp.assetCode = some code
  assetIssuer : hp.assetIssuer = some issuer
  amount : hp.stroops.isSome = true

section
variable {env : Env} {raw code issuer : String} {one : AcceptedAsset} {req : CreateRequest}
  {p q : Payment} {hp : HorizonPayment} {already : ℤ}

theorem Uppercases.of_isAssetCode (h : Uppercases env.toUppercase) (hcode : IsAssetCode code) :
    env.toUppercase code = asciiUpper code := by
  apply h.ascii
  intro c hc
  exact toNat_lt_of_isAlphanum (hcode.2.2 c hc)

theorem mem_acceptedAssets (hupper : Uppercases env.toUppercase)
    (hlist : env.config.acceptedAssets = AcceptedAsset.parseList env.toUppercase raw)
    (hentry : (code, some issuer) ∈ listEntries raw) (hcode : IsAssetCode code) :
    ⟨asciiUpper code, some issuer⟩ ∈ env.config.acceptedAssets := by
  rw [hlist, AcceptedAsset.mem_parseList]
  exact ⟨_, hentry, (hupper.of_isAssetCode hcode).symm, rfl⟩

theorem Asked.asset_of_entry (hasked : Asked env req p) (hconfig : Addressed env.config)
    (hupper : Uppercases env.toUppercase)
    (hin : ⟨asciiUpper code, some issuer⟩ ∈ env.config.acceptedAssets) (hcode : IsAssetCode code)
    (hreq : req.asset = some code) :
    p.asset = asciiUpper code ∧ p.assetIssuer = some issuer := by
  obtain ⟨one, hone, hasset, hissuer⟩ := hasked.asset
  obtain ⟨hmem, honeCode⟩ := Create.acceptedAsset_eq_ok hone
  have hsame : one.code = asciiUpper code := by
    rw [honeCode, Create.assetCode, hreq, Option.getD_some]
    exact hupper.of_isAssetCode hcode
  have heq := hconfig.eq_of_code hin hmem hsame
  rw [hasset, hissuer, heq]
  exact ⟨rfl, rfl⟩

theorem PaidIn.verify_isSome_iff (hpaid : PaidIn q code issuer hp)
    (hissuer : q.assetIssuer = some issuer) (hne : issuer ≠ "")
    (hamount : (parseStroops q.amount).isSome = true) :
    (verify q hp already).isSome = true ↔ q.asset = code := by
  rw [StellarGate.verify_isSome_iff]
  constructor
  · rintro ⟨hmatches, -⟩
    rcases hmatches.asset with ⟨hnone | hempty, -⟩ | ⟨i, -, -, hassetCode, -⟩
    · rw [hissuer] at hnone
      cases hnone
    · rw [hissuer] at hempty
      exact absurd (Option.some.inj hempty) hne
    · exact Option.some.inj (hassetCode.symm.trans hpaid.assetCode)
  · intro hasset
    refine ⟨⟨hpaid.kind, hpaid.destination, hpaid.memo, hpaid.successful,
      .inr ⟨issuer, hissuer, hne, ?_, hpaid.assetIssuer⟩⟩, hpaid.amount, hamount⟩
    rw [hasset]
    exact hpaid.assetCode

theorem mem_missingTrustlines {accepted : List AcceptedAsset} {balances : List AccountBalance}
    (hin : ⟨code, some issuer⟩ ∈ accepted) :
    ⟨code, some issuer⟩ ∈ missingTrustlines accepted balances ↔
      ⟨some code, some issuer⟩ ∉ balances := by
  unfold missingTrustlines
  rw [List.mem_filter, and_iff_right hin]
  simp only [lacksTrustline, Bool.not_eq_true', List.any_eq_false, Bool.and_eq_true,
    beq_iff_eq, not_and]
  constructor
  · intro h hmem
    exact h _ hmem rfl rfl
  · rintro h ⟨c, i⟩ hmem rfl rfl
    exact h hmem

/-- An accepted code is honoured exactly when it has no small letter: then a payment in exactly the
asset settles every intent in the code, else none does; and the trustline for exactly the asset is
found, else it may be reported missing. -/
theorem codes_honoured_iff (hupper : Uppercases env.toUppercase)
    (hlist : env.config.acceptedAssets = AcceptedAsset.parseList env.toUppercase raw)
    (hboot : validateAddresses env.config = .ok ()) (hentry : (code, some issuer) ∈ listEntries raw)
    (hcode : IsAssetCode code) :
    (∀ now es w req p, World.Reaches env (.init now) es w →
      .create req (.done (.shown 201 p)) ∈ w.calls →
      req.asset = some code → ∀ q ∈ w.db.payments.rows, q.id = p.id →
      ∀ hp, PaidIn q code issuer hp →
        ∀ already, ((verify q hp already).isSome = true ↔ ∀ c ∈ code.toList, c.isLower = false)) ∧
    ((∀ balances, ⟨some code, some issuer⟩ ∈ balances →
        ⟨env.toUppercase code, some issuer⟩ ∉
          missingTrustlines env.config.acceptedAssets balances) ↔
      ∀ c ∈ code.toList, c.isLower = false) := by
  have hconfig := validateAddresses_eq_ok.mp hboot
  have hin := mem_acceptedAssets hupper hlist hentry hcode
  rw [← asciiUpper_eq_self_iff, hupper.of_isAssetCode hcode]
  constructor
  · intro now es w req p hr hc hreq q hq hid hp hpaid already
    obtain ⟨hasked, q', hq', ht⟩ := World.told_of_run hr hc
    have hsame : q = q' := Db.eq_of_id hq hq' (hid.trans (Payment.id_eq_of_terms ht).symm)
    have hasked' : Asked env req q := hasked.of_terms (hsame ▸ ht)
    obtain ⟨hasset, hissuer⟩ := hasked'.asset_of_entry hconfig hupper hin hcode hreq
    obtain ⟨n, hpos, hmax, hamount, -⟩ := hasked'.expected
    have hprice : (parseStroops q.amount).isSome = true := by
      rw [hamount, parseStroops_stroopsToString hpos hmax]
      rfl
    rw [hpaid.verify_isSome_iff hissuer (hconfig.issuer_ne_empty hin rfl) hprice, hasset]
  · constructor
    · intro h
      have hfound := h [⟨some code, some issuer⟩] (List.mem_singleton_self _)
      rw [mem_missingTrustlines hin, not_not, List.mem_singleton] at hfound
      injection hfound with hsame
      exact Option.some.inj hsame
    · intro hupper balances hmem
      rw [mem_missingTrustlines hin, not_not, hupper]
      exact hmem

end

namespace Sample

def requestIn (code : String) : CreateRequest := { request with asset := some code }

/-- A payment of `code` issued by `issuer`, to the intent with memo `11`. -/
def issued (code issuer : String) : HorizonPayment :=
  { record "11" "10.0000000" "TXA" "1" with
    assetType := some "credit_alphanum12", assetCode := some code, assetIssuer := some issuer
    toAddress := some account }

end Sample

/-- A code in capitals and digits. -/
theorem codes_honoured_iff_sample :
    let env := Sample.accepting ("XLM,USD2:" ++ Sample.account)
    ∃ w p q, World.Reaches env (.init 0)
      (.create (Sample.requestIn "USD2") :: Sample.turns 10 [0, 0, 0, 0]) w ∧
      .create (Sample.requestIn "USD2") (.done (.shown 201 p)) ∈ w.calls ∧ q ∈ w.db.payments.rows ∧
      q.id = p.id ∧
      (verify q (Sample.issued "USD2" Sample.account) 0).isSome = true ∧
      ⟨"USD2", some Sample.account⟩ ∉ missingTrustlines env.config.acceptedAssets
        [⟨some "USD2", some Sample.account⟩] := by
  intro env
  obtain ⟨w, hw, q, hq, hc, hdestination, hmemo⟩ := exists_of_run (World.step env) (.init 0)
    (.create (Sample.requestIn "USD2") :: Sample.turns 10 [0, 0, 0, 0])
    (P := fun w => ∃ q ∈ w.db.payments.rows,
      .create (Sample.requestIn "USD2") (.done (.shown 201 (rowToPayment q))) ∈ w.calls ∧
      q.destinationAddress = Sample.account ∧ q.memo = "11") (by decide +kernel)
  have hboot : validateAddresses env.config = .ok () := by decide +kernel
  have hentry : ("USD2", some Sample.account) ∈ listEntries ("XLM,USD2:" ++ Sample.account) := by
    decide +kernel
  have hpaid : PaidIn q "USD2" Sample.account (Sample.issued "USD2" Sample.account) :=
    ⟨rfl, congrArg some hdestination.symm, congrArg some hmemo.symm, rfl, rfl, rfl, by decide⟩
  have hcapital : ∀ c ∈ "USD2".toList, c.isLower = false := asciiUpper_eq_self_iff.mp (by decide)
  obtain ⟨hsettled, hheld⟩ :=
      codes_honoured_iff uppercases_asciiUpper rfl hboot hentry (by decide +kernel)
  refine ⟨w, rowToPayment q, q, hw, hc, hq, rfl, ?_, ?_⟩
  · exact (hsettled 0 _ w _ _ hw hc rfl q hq rfl _ hpaid 0).mpr hcapital
  · exact hheld.mpr hcapital _ (List.mem_singleton_self _)

/-- The code `yUSDC`: the payment in exactly the listed asset does not settle the intent, and the
trustline the account holds is reported missing. -/
theorem codes_not_honoured :
    let raw := "XLM,yUSDC:" ++ Sample.account
    let env := Sample.accepting raw
    validateAddresses env.config = .ok () ∧ ("yUSDC", some Sample.account) ∈ listEntries raw ∧
    IsAssetCode "yUSDC" ∧
    ⟨"YUSDC", some Sample.account⟩ ∈ missingTrustlines env.config.acceptedAssets
      [⟨some "yUSDC", some Sample.account⟩] ∧
    ∃ w, World.Reaches env (.init 0)
      (.create (Sample.requestIn "yUSDC") :: Sample.turns 10 [0, 0, 0, 0]) w ∧
      ∃ q ∈ w.db.payments.rows,
        .create (Sample.requestIn "yUSDC") (.done (.shown 201 (rowToPayment q))) ∈ w.calls ∧
        PaidIn q "yUSDC" Sample.account (Sample.issued "yUSDC" Sample.account) ∧
        verify q (Sample.issued "yUSDC" Sample.account) 0 = none := by
  intro raw env
  obtain ⟨w, hw, q, hq, hc, hdestination, hmemo, hnone⟩ := exists_of_run (World.step env) (.init 0)
    (.create (Sample.requestIn "yUSDC") :: Sample.turns 10 [0, 0, 0, 0])
    (P := fun w => ∃ q ∈ w.db.payments.rows,
      .create (Sample.requestIn "yUSDC") (.done (.shown 201 (rowToPayment q))) ∈ w.calls ∧
      q.destinationAddress = Sample.account ∧ q.memo = "11" ∧
      verify q (Sample.issued "yUSDC" Sample.account) 0 = none) (by decide +kernel)
  refine ⟨by decide +kernel, by decide +kernel, by decide +kernel, by decide +kernel, w, hw, q, hq,
    hc, ?_, hnone⟩
  exact ⟨rfl, congrArg some hdestination.symm, congrArg some hmemo.symm, rfl, rfl, rfl, by decide⟩

end StellarGate
