import StellarGate.Config
import StellarGate.Strkey

/-! The boot check of the configured addresses: `validate_addresses` of `src/config.rs`. -/
namespace StellarGate

/-- `str::to_ascii_uppercase`, and SQLite's `upper`, which knows ASCII only. -/
def asciiUpper (s : String) : String := String.ofList (s.toList.map Char.toUpper)

def Config.gatewayConfigured (config : Config) : Bool :=
  config.gatewayPublic ≠ "" && config.gatewayPublic ≠ "UNCONFIGURED"

def checkGateway (config : Config) : Except String Unit :=
  if config.gatewayConfigured then
    (Strkey.validateAccountId config.gatewayPublic).mapError fun e => "STELLAR_GATEWAY_PUBLIC (" ++
      config.gatewayPublic ++ ") is not a valid Stellar account address: " ++ e.message
  else .ok ()

def checkAsset (asset : AcceptedAsset) : Except String Unit :=
  match asset.issuer with
  | some issuer =>
    (Strkey.validateAccountId issuer).mapError fun e => "issuer for asset " ++ asset.code ++
    " (" ++ issuer ++
      ") is not a valid Stellar account address: " ++ e.message
  | none =>
    if asciiUpper asset.code = asciiUpper "XLM" then .ok ()
    else .error ("ACCEPTED_ASSETS entry \"" ++ asset.code ++
      "\" has no issuer. Only the native asset (XLM) " ++
      "may be written without one; every other asset must be given as CODE:ISSUER.")

/-- The search for a code that occurs twice; `seen` is `seen_codes`. -/
def checkCodes : List String → List AcceptedAsset → Except String Unit
  | _, [] => .ok ()
  | seen, asset :: rest =>
    let code := asciiUpper asset.code
    if seen.contains code then
      .error ("ACCEPTED_ASSETS has duplicate code " ++ code ++
        ". Stellar asset codes are not unique across " ++
        "issuers; pin each code to a single issuer.")
    else checkCodes (code :: seen) rest

/-- `validate_addresses`, with the texts of its errors. -/
def validateAddresses (config : Config) : Except String Unit := do
  checkGateway config
  config.acceptedAssets.forM checkAsset
  checkCodes [] config.acceptedAssets

/-- What the boot check makes sure of. -/
structure Addressed (config : Config) : Prop where
  gateway : config.gatewayConfigured = true → Strkey.validateAccountId config.gatewayPublic = .ok ()
  issuers : ∀ asset ∈ config.acceptedAssets, ∀ issuer ∈ asset.issuer,
    Strkey.validateAccountId issuer = .ok ()
  native : ∀ asset ∈ config.acceptedAssets, asset.issuer = none →
    asciiUpper asset.code = asciiUpper "XLM"
  codes : (config.acceptedAssets.map fun asset => asciiUpper asset.code).Nodup

theorem Addressed.issuer_ne_empty {config : Config} (h : Addressed config) {asset : AcceptedAsset}
    {issuer : String} (hin : asset ∈ config.acceptedAssets) (hissuer : asset.issuer = some issuer) :
    issuer ≠ "" :=
  Strkey.ne_empty_of_valid (h.issuers asset hin issuer hissuer)

theorem mapError_eq_ok {ε ε' : Type} {f : ε → ε'} {x : Except ε Unit} :
    x.mapError f = .ok () ↔ x = .ok () := by
  cases x with
  | error e => exact iff_of_false (fun h => nomatch h) fun h => nomatch h
  | ok u => exact iff_of_true rfl rfl

theorem bind_eq_ok {x : Except String Unit} {rest : Unit → Except String Unit} :
    x >>= rest = .ok () ↔ x = .ok () ∧ rest () = .ok () := by
  cases x with
  | error e => exact iff_of_false (fun h => nomatch h) fun h => nomatch h.1
  | ok u => exact (and_iff_right rfl).symm

theorem forM_eq_ok {α : Type} {f : α → Except String Unit} {xs : List α} :
    xs.forM f = .ok () ↔ ∀ x ∈ xs, f x = .ok () := by
  induction xs with
  | nil => exact iff_of_true rfl fun _ h => nomatch h
  | cons x xs ih =>
    have hcons : (x :: xs).forM f = f x >>= fun _ => xs.forM f := rfl
    rw [hcons, bind_eq_ok, ih, List.forall_mem_cons]

theorem checkGateway_eq_ok {config : Config} : checkGateway config = .ok () ↔
    (config.gatewayConfigured = true → Strkey.validateAccountId config.gatewayPublic = .ok ()) := by
  unfold checkGateway
  split_ifs with hconfigured
  · simp [mapError_eq_ok, hconfigured]
  · exact iff_of_true rfl fun h => absurd h hconfigured

theorem checkAsset_eq_ok {asset : AcceptedAsset} :
    checkAsset asset = .ok () ↔
      (∀ issuer ∈ asset.issuer, Strkey.validateAccountId issuer = .ok ()) ∧
      (asset.issuer = none → asciiUpper asset.code = asciiUpper "XLM") := by
  unfold checkAsset
  cases asset.issuer with
  | some issuer => simp [mapError_eq_ok]
  | none => simp

theorem checkCodes_eq_ok {seen : List String} {assets : List AcceptedAsset} :
    checkCodes seen assets = .ok () ↔
      (assets.map fun asset => asciiUpper asset.code).Nodup ∧
        ∀ asset ∈ assets, asciiUpper asset.code ∉ seen := by
  induction assets generalizing seen with
  | nil => simp [checkCodes]
  | cons asset rest ih =>
    simp only [checkCodes, List.map_cons, List.nodup_cons, List.forall_mem_cons,
      List.contains_iff_mem]
    split_ifs with hseen
    · exact iff_of_false (fun h => nomatch h) fun h => h.2.1 hseen
    · rw [ih]
      simp only [List.mem_cons, not_or, List.mem_map, not_exists, not_and]
      constructor
      · rintro ⟨hnodup, hrest⟩
        exact ⟨⟨fun x hx => (hrest x hx).1, hnodup⟩, hseen, fun x hx => (hrest x hx).2⟩
      · rintro ⟨⟨hne, hnodup⟩, -, hrest⟩
        exact ⟨hnodup, fun x hx => ⟨hne x hx, hrest x hx⟩⟩

theorem validateAddresses_eq_ok {config : Config} :
    validateAddresses config = .ok () ↔ Addressed config := by
  simp only [validateAddresses, bind_eq_ok, forM_eq_ok, checkGateway_eq_ok, checkAsset_eq_ok,
    checkCodes_eq_ok]
  constructor
  · rintro ⟨hgateway, hassets, hcodes, -⟩
    exact ⟨hgateway, fun asset ha => (hassets asset ha).1, fun asset ha => (hassets asset ha).2,
      hcodes⟩
  · rintro ⟨hgateway, hissuers, hnative, hcodes⟩
    exact ⟨hgateway, fun asset ha => ⟨hissuers asset ha, hnative asset ha⟩, hcodes,
      fun _ _ h => nomatch h⟩

end StellarGate
