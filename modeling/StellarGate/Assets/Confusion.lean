import StellarGate.Assets.AllowList
import StellarGate.Current

/-! The allow-list that passes the boot check names every asset once: no request is ambiguous, and
an intent takes no payment in another asset. -/
namespace StellarGate
open Base

/-- The asset of the record differs from the entry: the entry is native and the record is not, or
the codes or the issuers differ. -/
inductive HorizonPayment.Differs (hp : HorizonPayment) (one : AcceptedAsset) : Prop
  | issued (entry : one.issuer = none) (record : hp.assetType ≠ some "native")
  | code (entry : one.issuer ≠ none) (record : hp.assetCode ≠ some one.code)
  | issuer (entry : one.issuer ≠ none) (record : hp.assetIssuer ≠ one.issuer)

/-- Horizon writes no code into a native record. -/
def HorizonPayment.WellFormed (hp : HorizonPayment) : Prop :=
  hp.assetType = some "native" → hp.assetCode = none

/-- A native record differs from every issued asset. -/
theorem HorizonPayment.WellFormed.differs {hp : HorizonPayment} {one : AcceptedAsset}
    (h : hp.WellFormed) (hentry : one.issuer ≠ none) (hnative : hp.assetType = some "native") :
    hp.Differs one := by
  refine .code hentry ?_
  rw [h hnative]
  exact Option.some_ne_none _ |>.symm

section Lookup
variable {env : Env} {config : Config} {one other : AcceptedAsset} {req : CreateRequest}

theorem Addressed.eq_of_code (h : Addressed config) (hone : one ∈ config.acceptedAssets)
    (hother : other ∈ config.acceptedAssets) (hcode : other.code = one.code) : other = one :=
  List.inj_on_of_nodup_map h.codes hother hone (congrArg asciiUpper hcode)

theorem Addressed.filter_code (h : Addressed config) (hone : one ∈ config.acceptedAssets) :
    config.acceptedAssets.filter (·.code = one.code) = [one] := by
  have hnodup : (config.acceptedAssets.filter (·.code = one.code)).Nodup :=
      (h.codes.of_map _).filter _
  have hmem : ∀ other, other ∈ config.acceptedAssets.filter (·.code = one.code) ↔ other = one := by
    intro other
    rw [List.mem_filter, decide_eq_true_iff]
    constructor
    · rintro ⟨hin, hcode⟩
      exact h.eq_of_code hone hin hcode
    · rintro rfl
      exact ⟨hone, rfl⟩
  exact List.perm_singleton.mp
    ((List.perm_ext_iff_of_nodup hnodup (List.nodup_singleton one)).mpr fun other => by
    rw [hmem, List.mem_singleton])

theorem Addressed.acceptedAsset_cases (h : Addressed env.config) (req : CreateRequest) :
    (∃ one ∈ env.config.acceptedAssets, Create.acceptedAsset env req = .ok one) ∨
      ∃ message, Create.acceptedAsset env req =
      .error (.badRequest "unsupported_asset" message) := by
  cases hfilter : env.config.acceptedAssets.filter (·.code = Create.assetCode env req) with
  | nil =>
    right
    unfold Create.acceptedAsset
    simp only [hfilter]
    exact ⟨_, rfl⟩
  | cons one rest =>
    left
    have hmem : one ∈ env.config.acceptedAssets.filter (·.code = Create.assetCode env req) := by
      rw [hfilter]
      exact List.mem_cons_self
    obtain ⟨hin, hcode⟩ := List.mem_filter.mp hmem
    have hcode' : one.code = Create.assetCode env req := by simpa using hcode
    have hsingle := h.filter_code hin
    rw [hcode', hfilter] at hsingle
    refine ⟨one, hin, ?_⟩
    unfold Create.acceptedAsset
    simp only [hfilter, hsingle]

end Lookup

def Call.Unambiguous : Call → Prop
  | .create _ (.done (.failed e)) => e.code ≠ "ambiguous_asset"
  | _ => True

section Answers
variable {env : Env} {now : ℤ} {r : Reply} {db : Db} {req : CreateRequest} {c : Call}

theorem checkWebhookUrl_code {url : String} {e : AppError}
    (h : Create.checkWebhookUrl env req url = .error e) :
    e.code = "invalid_webhook_url" := by
  unfold Create.checkWebhookUrl at h
  split at h
  · cases h
    rfl
  split at h
  · cases h
    rfl
  · split_ifs at h
    all_goals
      cases h
      rfl

theorem Addressed.start_unambiguous (h : Addressed env.config) (req : CreateRequest) :
    (Call.create req (Create.start env req)).Unambiguous := by
  have hvalidate : ∀ e, Create.validate env req = .error e → e.code ≠ "ambiguous_asset" := by
    intro e he
    unfold Create.validate at he
    rcases h.acceptedAsset_cases req with ⟨one, -, hone⟩ | ⟨message, herror⟩
    · simp only [hone] at he
      split_ifs at he
      · cases he
        decide
      · split at he
        · cases he
        · split at he
          · next hurl =>
            cases he
            rw [checkWebhookUrl_code hurl]
            decide
          · cases he
    · simp only [herror] at he
      cases he
      show "unsupported_asset" ≠ _
      decide
  unfold Create.start
  split
  · next e he => exact hvalidate e he
  · split <;> trivial

theorem Call.Unambiguous.step (h : c.Unambiguous) : (c.step env now r db).next.Unambiguous := by
  cases c with
  | create req pc =>
    cases pc with
    | lookup key =>
      simp only [Call.step, Create.step]
      split <;> trivial
    | getExisting key id =>
      simp only [Call.step, Create.step]
      split <;> trivial
    | deleteStale key => trivial
    | mint key => cases key <;> trivial
    | saveKey key id => trivial
    | rereadKey key id =>
      simp only [Call.step, Create.step]
      split_ifs <;> trivial
    | waitWinner id tries =>
      simp only [Call.step, Create.step]
      split
      · trivial
      · split_ifs
        · show AppError.idempotencyConflict.code ≠ _
          decide
        · trivial
    | memo id tries =>
      simp only [Call.step, Create.step]
      split_ifs
      · trivial
      · show AppError.memoGeneration.code ≠ _
        decide
      · trivial
    | insert id memo =>
      simp only [Call.step, Create.step]
      split
      · show AppError.internal.code ≠ _
        decide
      · trivial
    | reread id =>
      simp only [Call.step, Create.step]
      split
      · trivial
      · show AppError.internal.code ≠ _
        decide
    | done response => exact h
  | reconcile hp pc | sweep pc | lost => trivial

theorem Call.Unambiguous.fail (h : c.Unambiguous) : (c.fail r).1.Unambiguous := by
  have hinternal : AppError.internal.code ≠ "ambiguous_asset" := by decide
  cases c with
  | create req pc =>
    cases pc with
    | done response => exact h
    | mint key => trivial
    | _ => exact hinternal
  | reconcile hp pc | sweep pc | lost => trivial

theorem Call.Unambiguous.cut (h : c.Unambiguous) : c.cut.Unambiguous := by
  unfold Call.cut
  split_ifs
  · exact h
  · trivial

end Answers

section Records
variable {p : Payment} {hp : HorizonPayment} {one : AcceptedAsset}

/-- `verify` answers nothing to a record in another asset than the entry of the intent. -/
theorem verify_of_differs (hissuer : p.assetIssuer = one.issuer) (hcode : p.asset = one.code)
    (hne : ∀ issuer ∈ one.issuer, issuer ≠ "") (hdiffers : hp.Differs one) (already : ℤ) :
    verify p hp already = none := by
  rw [← Option.not_isSome_iff_eq_none]
  intro hsome
  obtain ⟨hmatches, -⟩ := verify_isSome_iff.mp hsome
  have hasset := hmatches.asset
  unfold InAsset at hasset
  rw [hissuer, hcode] at hasset
  rcases hasset with ⟨hnone, -, hnative⟩ | ⟨issuer, hin, -, hassetCode, hassetIssuer⟩
  · have hnone' : one.issuer = none := hnone.resolve_right fun h => hne "" h rfl
    cases hdiffers with
    | issued _ hrecord => exact hrecord hnative
    | code hentry | issuer hentry => exact hentry hnone'
  · cases hdiffers with
    | issued hentry =>
      rw [hentry] at hin
      cases hin
    | code _ hrecord => exact hrecord hassetCode
    | issuer _ hrecord => exact hrecord (hassetIssuer.trans hin.symm)

end Records

section
variable {env : Env} {raw : String} {es : List Event} {w : World} {now : ℤ}

/-- With an allow-list that the boot accepts, no request is refused as ambiguous, an intent has the
code and the issuer of one entry and of no other, only XLM is without an issuer, and a record in
another asset does not settle it, nor a well-formed native record an intent in an issued asset. -/
theorem allowList_unambiguous (hupper : Uppercases env.toUppercase)
    (hlist : env.config.acceptedAssets = AcceptedAsset.parseList env.toUppercase raw)
    (hboot : validateAddresses env.config = .ok ()) (hr : World.Reaches env (.init now) es w) :
    (∀ req e, .create req (.done (.failed e)) ∈ w.calls → e.code ≠ "ambiguous_asset") ∧
    ∀ p ∈ w.db.payments.rows, ∃ one ∈ AcceptedAsset.parseList env.toUppercase raw,
      p.asset = one.code ∧ p.assetIssuer = one.issuer ∧
      (AcceptedAsset.parseList env.toUppercase raw).filter (·.code = p.asset) = [one] ∧
      (p.assetIssuer = none → p.asset = "XLM") ∧
      (∀ hp : HorizonPayment, hp.Differs one → ∀ already, verify p hp already = none) ∧
      ∀ hp : HorizonPayment, hp.WellFormed → hp.assetType = some "native" → p.assetIssuer ≠ none →
        ∀ already, verify p hp already = none := by
  have hconfig := validateAddresses_eq_ok.mp hboot
  constructor
  · have hcalls : ∀ c ∈ w.calls, c.Unambiguous := by
      refine run_invariant (I := fun w : World => ∀ c ∈ w.calls, c.Unambiguous)
        (fun _ _ _ hs h => ?_) hr fun _ h => nomatch h
      exact World.forall_calls_step (fun _ => trivial) trivial hconfig.start_unambiguous
        (fun _ _ _ _ => Call.Unambiguous.step) (fun _ _ => Call.Unambiguous.fail)
        (fun _ => Call.Unambiguous.cut) hs h
    exact fun req e hc => hcalls _ hc
  intro p hp
  have hcurrent : w.Current env := run_invariant (fun _ _ _ hs h => h.step hs) hr .init
  obtain ⟨one, hin, hcode, hissuer⟩ := (hcurrent.rows p hp).pinned
  have hfilter := hconfig.filter_code hin
  have hne : ∀ issuer ∈ one.issuer, issuer ≠ "" := fun issuer h => hconfig.issuer_ne_empty hin h
  rw [← hcode, hlist] at hfilter
  refine ⟨one, hlist ▸ hin, hcode, hissuer, hfilter, fun hnone => ?_, fun hp hdiffers =>
    verify_of_differs hissuer hcode hne hdiffers, fun hp hwell hnative hissued =>
    verify_of_differs hissuer hcode hne (hwell.differs (hissuer ▸ hissued) hnative)⟩
  -- a code without an issuer is XLM in some case, and the parser left no small letter in it
  have hxlm := hconfig.native one hin (hissuer.symm.trans hnone)
  rw [hcode, ← hupper.asciiUpper_code (hlist ▸ hin), hxlm]
  decide

/-- An intent in a coin that is listed in small letters and with blanks. -/
theorem allowList_unambiguous_sample :
    let env := Sample.accepting (" xlm ,, usdc : " ++ Sample.account)
    let req := { Sample.request with asset := some "Usdc" }
    ∃ w p, World.Reaches env (.init 0) (.create req :: Sample.turns 10 [0, 0, 0, 0]) w ∧
      p ∈ w.db.payments.rows ∧ p.asset = "USDC" ∧ p.assetIssuer = some Sample.account ∧
      ∃ one ∈ env.config.acceptedAssets, p.asset = one.code ∧ p.assetIssuer = one.issuer ∧
        env.config.acceptedAssets.filter (·.code = p.asset) = [one] ∧
        (p.assetIssuer = none → p.asset = "XLM") ∧
        (∀ hp : HorizonPayment, hp.Differs one → ∀ already, verify p hp already = none) ∧
        ∀ hp : HorizonPayment, hp.WellFormed → hp.assetType = some "native" → p.assetIssuer ≠ none →
          ∀ already, verify p hp already = none := by
  intro env req
  obtain ⟨w, hw, p, hp, hasset, hissuer⟩ := exists_of_run (World.step env) (.init 0)
    (.create req :: Sample.turns 10 [0, 0, 0, 0])
    (P := fun w => ∃ p ∈ w.db.payments.rows, p.asset = "USDC" ∧ p.assetIssuer = some Sample.account)
    (by decide +kernel)
  have hboot : validateAddresses env.config = .ok () := by decide +kernel
  exact ⟨w, p, hw, hp, hasset, hissuer,
    (allowList_unambiguous uppercases_asciiUpper rfl hboot hw).2 p hp⟩

end
end StellarGate
