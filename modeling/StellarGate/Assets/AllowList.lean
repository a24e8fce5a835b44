import StellarGate.Addresses
import StellarGate.Base.Ascii
import StellarGate.System

/-! The allow-list of assets: `AcceptedAsset::parse_list` of `src/config.rs`, and the trustlines
that `src/horizon.rs` asks for. -/
namespace StellarGate
open Base

/-- The code and the issuer of an entry, as they are written. -/
def splitEntry (entry : List Char) : String × Option String :=
  match splitOnce ':' entry with
  | some (code, issuer) => (String.ofList (trim code), some (String.ofList (trim issuer)))
  | none => (String.ofList (trim entry), none)

/-- The entries of `ACCEPTED_ASSETS`. -/
def listEntries (raw : String) : List (String × Option String) :=
  (((raw.toList.splitOn ',').map trim).filter (· ≠ [])).map splitEntry

def AcceptedAsset.parseList (toUppercase : String → String) (raw : String) : List AcceptedAsset :=
  (listEntries raw).map fun entry => ⟨toUppercase entry.1, entry.2⟩

example : AcceptedAsset.parseList asciiUpper " xlm, usdc : GISSUER ,," =
    [⟨"XLM", none⟩, ⟨"USDC", some "GISSUER"⟩] := by decide

/-- What the documentation of `str::to_uppercase` says of ASCII letters: small ones become
capitals, and none is left. -/
structure Uppercases (toUppercase : String → String) : Prop where
  ascii : ∀ s, (∀ c ∈ s.toList, c.toNat < 128) → toUppercase s = asciiUpper s
  capital : ∀ s, ∀ c ∈ (toUppercase s).toList, c.isLower = false

/-- A balance line of an account. -/
structure AccountBalance where
  assetCode : Option String
  assetIssuer : Option String
  deriving DecidableEq, Repr

/-- The entry needs a trustline that the account does not hold. -/
def lacksTrustline (balances : List AccountBalance) (asset : AcceptedAsset) : Bool :=
  match asset.issuer with
  | none => false
  | some issuer => !balances.any fun b =>
    b.assetCode == some asset.code && b.assetIssuer == some issuer

def missingTrustlines (acceptedAssets : List AcceptedAsset) (balances : List AccountBalance) :
    List AcceptedAsset :=
  acceptedAssets.filter (lacksTrustline balances)

section
variable {toUppercase : String → String} {raw a b : String} {asset : AcceptedAsset}

theorem toList_asciiUpper (s : String) : (asciiUpper s).toList = s.toList.map Char.toUpper :=
  String.toList_ofList

theorem uppercases_asciiUpper : Uppercases asciiUpper where
  ascii _ _ := rfl
  capital s c hc := by
    rw [toList_asciiUpper] at hc
    obtain ⟨d, -, rfl⟩ := List.mem_map.mp hc
    exact isLower_toUpper d

/-- The two tests for native XLM agree. -/
theorem asciiUpper_eq_iff : asciiUpper a = asciiUpper b ↔ eqIgnoreAsciiCase a b = true := by
  unfold eqIgnoreAsciiCase
  rw [beq_iff_eq, ← String.toList_inj, toList_asciiUpper, toList_asciiUpper]
  exact map_eq_map_iff_of_iff fun _ _ => toUpper_eq_iff

theorem asciiUpper_eq_self_iff : asciiUpper a = a ↔ ∀ c ∈ a.toList, c.isLower = false := by
  rw [← String.toList_inj, toList_asciiUpper]
  constructor
  · intro h c hc
    have hmap : a.toList.map Char.toUpper = a.toList.map id := h.trans (List.map_id _).symm
    exact toUpper_eq_self_iff.mp (List.map_inj_left.mp hmap c hc)
  · intro h
    calc
      a.toList.map Char.toUpper = a.toList.map id :=
        List.map_congr_left fun c hc => toUpper_eq_self_iff.mpr (h c hc)
      _ = a.toList := List.map_id _

theorem AcceptedAsset.mem_parseList : asset ∈ parseList toUppercase raw ↔
    ∃ entry ∈ listEntries raw, asset.code = toUppercase entry.1 ∧ asset.issuer = entry.2 := by
  unfold parseList
  rw [List.mem_map]
  constructor
  · rintro ⟨entry, hin, rfl⟩
    exact ⟨entry, hin, rfl, rfl⟩
  · rintro ⟨entry, hin, hcode, hissuer⟩
    obtain ⟨code, issuer⟩ := asset
    exact ⟨entry, hin, by rw [← show code = _ from hcode, ← show issuer = _ from hissuer]⟩

theorem Uppercases.asciiUpper_code (h : Uppercases toUppercase)
    (hin : asset ∈ AcceptedAsset.parseList toUppercase raw) :
    asciiUpper asset.code = asset.code := by
  obtain ⟨entry, -, hcode, -⟩ := AcceptedAsset.mem_parseList.mp hin
  rw [hcode]
  exact asciiUpper_eq_self_iff.mpr (h.capital _)

end

namespace Sample

def account : String := "GBBD47IF6LWK7P7MDEVSCWR7DPUWV3NY3DTQEVFL4NAT4AQH3ZLLFLA5"

/-- A deployment with a gateway account and this `ACCEPTED_ASSETS`. -/
def accepting (raw : String) : Env where
  config := { env.config with
    gatewayPublic := account, acceptedAssets := AcceptedAsset.parseList asciiUpper raw }
  toUppercase := asciiUpper
  urlScheme _ := some "https"

end Sample

end StellarGate
