import StellarGate.Api.Listing
import StellarGate.Assets.AllowList
import StellarGate.Current
import StellarGate.Horizon.Verdict

/-! What `POST /payments` tells the payer, and the payment that this asks for. -/
namespace StellarGate
open Base Money

/-- The intent is the one that the request asked for. -/
structure Asked (env : Env) (req : CreateRequest) (p : Payment) : Prop where
  destination : p.destinationAddress = env.config.gatewayPublic
  asset : ∃ one, Create.acceptedAsset env req = .ok one ∧ p.asset = one.code ∧
    p.assetIssuer = one.issuer
  amount : ∃ n, parseStroops req.amount = some n ∧ p.amount = stroopsToString n

/-- A request that stands before its answer, or was answered with 201, has
stored what it asked for. -/
def CreatePc.Told (env : Env) (req : CreateRequest) (db : Db) : CreatePc → Prop
  | .reread id => ∃ q ∈ db.payments.rows, q.id = id ∧ Asked env req q
  | .done (.shown status p) =>
    status = 201 → Asked env req p ∧ ∃ q ∈ db.payments.rows, q.terms = p.terms
  | _ => True

def Call.Told (env : Env) (db : Db) : Call → Prop
  | .create req pc => pc.Told env req db
  | _ => True

/-- An amount written with exactly seven decimals, as Horizon writes it. -/
def sevenDecimals (amount : String) : String :=
  match splitOnce '.' amount.toList with
  | none => String.ofList (amount.toList ++ '.' :: List.replicate maxDecimals '0')
  | some (whole, frac) =>
    String.ofList (whole ++ '.' :: (frac ++ List.replicate (maxDecimals - frac.length) '0'))

example : sevenDecimals "12.5" = "12.5000000" := by decide

/-- The record of a successful payment of the amount, to the address, with the text memo and in the
asset that a response shows. -/
structure PaidAsTold (view : PaymentView) (hp : HorizonPayment) : Prop where
  kind : hp.kind = "payment"
  successful : hp.isSuccessful = true
  destination : hp.toAddress = some view.destinationAddress
  memo : hp.memo = some view.memo
  native : view.assetIssuer = none → hp.assetType = some "native"
  issued : ∀ issuer ∈ view.assetIssuer, hp.assetCode = some view.asset ∧
    hp.assetIssuer = some issuer
  amount : hp.amount = some (sevenDecimals view.amount)

section Steps
variable {env : Env} {now : ℤ} {r : Reply} {db db' : Db} {req : CreateRequest}
  {pc : CreatePc} {c : Call} {p q : Payment}

theorem Asked.of_terms (h : Asked env req p) (ht : q.terms = p.terms) : Asked env req q := by
  obtain ⟨hdest, ⟨one, hone, hcode, hissuer⟩, ⟨n, hn, hamount⟩⟩ := h
  refine ⟨?_, ⟨one, hone, ?_, ?_⟩, ⟨n, hn, ?_⟩⟩
  · exact (Payment.destinationAddress_eq_of_terms ht).trans hdest
  · exact (Payment.asset_eq_of_terms ht).trans hcode
  · exact (Payment.assetIssuer_eq_of_terms ht).trans hissuer
  · exact (Payment.amount_eq_of_terms ht).trans hamount

theorem Asked.inserted {one : AcceptedAsset} {id memo expiresAt : String} {n : ℤ}
    (hasset : Create.acceptedAsset env req = .ok one) (hn : parseStroops req.amount = some n) :
    Asked env req ((Create.newPayment env req id memo).row now expiresAt (stroopsToString n)) := by
  obtain ⟨-, hcode⟩ := Create.acceptedAsset_eq_ok hasset
  have hissuer : (Create.acceptedAsset env req).toOption.bind (·.issuer) = one.issuer := by
    rw [hasset]
    rfl
  exact ⟨rfl, ⟨one, hasset, hcode.symm, hissuer⟩, n, hn, rfl⟩

/-- Nothing that is told is taken back. -/
theorem CreatePc.Told.mono (h : pc.Told env req db)
    (hrows : ∀ p ∈ db.payments.rows, ∃ q ∈ db'.payments.rows, q.terms = p.terms) :
    pc.Told env req db' := by
  cases pc with
  | reread id =>
    obtain ⟨p, hp, hid, hasked⟩ := h
    obtain ⟨q, hq, ht⟩ := hrows p hp
    exact ⟨q, hq, (Payment.id_eq_of_terms ht).trans hid, hasked.of_terms ht⟩
  | done response =>
    cases response with
    | shown status p =>
      intro hstatus
      obtain ⟨hasked, q, hq, ht⟩ := h hstatus
      obtain ⟨q', hq', ht'⟩ := hrows q hq
      exact ⟨hasked, q', hq', ht'.trans ht⟩
    | failed e => trivial
  | _ => trivial

theorem Create.start_told : (Create.start env req).Told env req db := by
  unfold Create.start
  split
  · trivial
  · split <;> trivial

theorem Create.step_told (hasset : ∃ one, Create.acceptedAsset env req = .ok one)
    (h : pc.Told env req db) :
    (Create.step env now r req pc db).1.Told env req (Create.step env now r req pc db).2 := by
  cases pc with
  | lookup key =>
    simp only [Create.step]
    split <;> trivial
  | getExisting key id =>
    simp only [Create.step]
    split
    · intro hstatus
      cases hstatus
    · trivial
  | deleteStale key => trivial
  | mint key => cases key <;> trivial
  | saveKey key id => trivial
  | rereadKey key id =>
    simp only [Create.step]
    split_ifs <;> trivial
  | waitWinner id tries =>
    simp only [Create.step]
    split
    · intro hstatus
      cases hstatus
    · split_ifs <;> trivial
  | memo id tries =>
    simp only [Create.step]
    split_ifs <;> trivial
  | insert id memo =>
    simp only [Create.step]
    split
    · trivial
    · next hinsert =>
      obtain ⟨one, hone⟩ := hasset
      obtain ⟨n, expiresAt, t, hn, rfl, hrows, -⟩ := Db.insertPayment_eq_some hinsert
      exact ⟨_, by rw [hrows]; exact List.mem_append_right _ (List.mem_singleton_self _), rfl,
        Asked.inserted hone hn⟩
  | reread id =>
    obtain ⟨q, hq, rfl, hasked⟩ := h
    simp only [Create.step, Db.getPayment_of_mem hq]
    exact fun _ => ⟨hasked.of_terms rfl, q, hq, rfl⟩
  | done response => exact h

theorem Call.step_told (haccepted : c.Accepted env) (h : c.Told env db) :
    (c.step env now r db).next.Told env (c.step env now r db).db := by
  cases c with
  | create req pc =>
    rcases haccepted with hreturned | hasset
    · rw [Call.step_returned hreturned]
      exact h
    · exact Create.step_told hasset h
  | _ => trivial

end Steps

namespace World
variable {env : Env} {w t : World} {e : Event} {es : List Event} {now : ℤ}

/-- What every run keeps: requests in flight are priced in an accepted asset, and the payer has
been told what is stored. -/
structure Told (env : Env) (w : World) : Prop where
  accepted : ∀ c ∈ w.calls, c.Accepted env
  calls : ∀ c ∈ w.calls, c.Told env w.db

theorem Told.init : (init now).Told env := ⟨(fun _ h => nomatch h), fun _ h => nomatch h⟩

theorem Told.start {c : Call} (h : ∀ d ∈ w.calls, d.Told env w.db) (hc : c.Told env w.db) :
    ∀ d ∈ (w.start c).calls, d.Told env w.db := by
  intro d hd
  rcases List.mem_append.mp hd with hd | hd
  · exact h d hd
  · rw [List.mem_singleton.mp hd]
    exact hc

theorem Told.exec {i : ℕ} {r : Reply} {c : Call} (h : w.Told env) (hc : w.calls[i]? = some c) :
    ∀ d ∈ (w.exec env i r c).calls, d.Told env (w.exec env i r c).db := by
  have hmem := List.mem_of_getElem? hc
  have hwrites : Writes env w.now r w.db c (c.step env w.now r w.db).db := c.step_writes
  have hrows : ∀ p ∈ w.db.payments.rows, ∃ q ∈ (c.step env w.now r w.db).db.payments.rows,
      q.terms = p.terms := by
    intro p hp
    obtain ⟨q, hq, hstep⟩ := hwrites.row hp
    exact ⟨q, hq, hstep.terms⟩
  intro d hd
  rcases List.mem_or_eq_of_mem_set hd with hd | rfl
  · cases d with
    | create req pc => exact CreatePc.Told.mono (h.calls _ hd) hrows
    | _ => trivial
  · exact Call.step_told (h.accepted c hmem) (h.calls c hmem)

theorem Told.step (hs : step env w e = some t) (h : w.Told env) : t.Told env := by
  refine ⟨accepted_step hs h.accepted, ?_⟩
  cases e with
  | advance secs =>
    cases hs
    exact h.calls
  | reconcile hp | sweep =>
    cases hs
    exact Told.start h.calls trivial
  | create req =>
    cases hs
    exact Told.start h.calls Create.start_told
  | exec i r =>
    obtain ⟨c, hc, -, rfl⟩ := step_exec hs
    exact h.exec hc
  | fail i r =>
    obtain ⟨c, hc, -, rfl⟩ := step_fail hs
    apply Machine.forall_mem_set h.calls
    cases c with
    | create req pc =>
      cases pc with
      | done response => exact h.calls _ (List.mem_of_getElem? hc)
      | _ => trivial
    | _ => trivial
  | kill i =>
    obtain ⟨c, hc, rfl⟩ := step_kill hs
    apply Machine.forall_mem_set h.calls
    unfold Call.cut
    split_ifs
    · exact h.calls _ (List.mem_of_getElem? hc)
    · trivial
  | crash =>
    cases hs
    intro d hd
    obtain ⟨c, hc, rfl⟩ := List.mem_map.mp hd
    unfold Call.cut
    split_ifs
    · exact h.calls _ hc
    · trivial

/-- An answer of 201 shows an intent that is stored and is the one that the request asked for. -/
theorem told_of_run {req : CreateRequest} {p : Payment} (hr : Reaches env (init now) es w)
    (hc : .create req (.done (.shown 201 p)) ∈ w.calls) :
    Asked env req p ∧ ∃ q ∈ w.db.payments.rows, q.terms = p.terms := by
  have hw : w.Told env := run_invariant (fun _ _ _ hs h => h.step hs) hr .init
  exact hw.calls _ hc rfl

end World

section Amount
variable {m : ℕ} {n : ℤ}

theorem toList_sevenDecimals (m : ℕ) : (sevenDecimals (stroopsToString m)).toList =
    Nat.toDigits 10 (m / 10000000) ++ '.' :: (Nat.toDigits 10 (m % 10000000)).leftpad 7 '0' := by
  have hdot : '.' ∉ Nat.toDigits 10 (m / 10000000) :=
      fun h => absurd (isDigit_of_mem_toDigits h) (by decide)
  have hlen : ((Nat.toDigits 10 (m % 10000000)).leftpad 7 '0').length = 7 :=
    length_leftpad_toDigits (by omega) (by omega)
  have htext := toList_stroopsToString m
  unfold sevenDecimals
  by_cases hz : m % 10000000 = 0
  · rw [if_pos hz, List.append_nil] at htext
    rw [htext, splitOnce_eq_none hdot, String.toList_ofList, hz]
    rfl
  · have happ := trimEndZeros_append ((Nat.toDigits 10 (m % 10000000)).leftpad 7 '0')
    rw [hlen] at happ
    rw [if_neg hz] at htext
    rw [htext, splitOnce_append hdot, String.toList_ofList]
    exact congrArg (fun frac => Nat.toDigits 10 (m / 10000000) ++ '.' :: frac) happ

/-- The seven decimals of a canonical amount are read back as that amount. -/
theorem parseStroops_sevenDecimals (hpos : 0 < n) (hmax : n ≤ i64Max) :
    parseStroops (sevenDecimals (stroopsToString n)) = some n := by
  obtain ⟨m, rfl⟩ := Int.eq_ofNat_of_zero_le hpos.le
  have hsum : ((m / 10000000 : ℕ) : ℤ) * stroopsPerUnit + ((m % 10000000 : ℕ) : ℤ) = m := by
    unfold stroopsPerUnit
    omega
  have hdigits : ∀ c ∈ (Nat.toDigits 10 (m % 10000000)).leftpad 7 '0', c.isDigit := fun c hc =>
    isDigit_of_mem_leftpad hc
  have hlen : ((Nat.toDigits 10 (m % 10000000)).leftpad 7 '0').length = maxDecimals :=
    length_leftpad_toDigits (by omega) (by omega)
  have hvalue := ofDigitChars_leftpad (m % 10000000) 7
  have htext := toList_sevenDecimals m
  generalize (Nat.toDigits 10 (m % 10000000)).leftpad 7 '0' = frac at hdigits hlen hvalue htext
  have hne : frac ≠ [] := by
    rintro rfl
    cases hlen
  rw [parseStroops_of_toList frac (by rw [if_neg hne]; exact htext) hdigits,
    parseSegments_eq_some (f := m % 10000000) hdigits hlen.le ?_ (by omega) (by omega), hsum]
  rw [hlen, Nat.sub_self, List.replicate_zero, List.append_nil]
  exact hvalue

end Amount

section Paid
variable {env : Env} {req : CreateRequest} {p q : Payment} {hp : HorizonPayment}

theorem Asked.expected (h : Asked env req p) :
    ∃ n, 0 < n ∧ n ≤ i64Max ∧ p.amount = stroopsToString n ∧
    (toJson p).amount = stroopsToString n := by
  obtain ⟨n, hn, hamount⟩ := h.amount
  obtain ⟨hpos, hmax⟩ := parseStroops_bounds hn
  refine ⟨n, hpos, hmax, hamount, ?_⟩
  simp only [toJson, canonicalAmount?, hamount, parseStroops_stroopsToString hpos hmax,
    Option.map_some, Option.getD_some]

/-- The payment that the response asks for matches the stored intent. -/
theorem PaidAsTold.matches (hpaid : PaidAsTold (toJson p) hp) (hconfig : Addressed env.config)
    (hasked : Asked env req p) (ht : q.terms = p.terms) : Matches q hp := by
  obtain ⟨one, hone, hcode, hissuer⟩ := hasked.asset
  obtain ⟨hin, -⟩ := Create.acceptedAsset_eq_ok hone
  refine Matches.of_terms ht.symm ⟨hpaid.kind, hpaid.destination, hpaid.memo, hpaid.successful, ?_⟩
  cases hnative : p.assetIssuer with
  | none =>
    have hxlm := hconfig.native one hin (hissuer.symm.trans hnative)
    refine .inl ⟨.inl hnative, ?_, hpaid.native hnative⟩
    rw [hcode]
    exact asciiUpper_eq_iff.mp hxlm
  | some issuer =>
    obtain ⟨hassetCode, hassetIssuer⟩ := hpaid.issued issuer hnative
    have hne : issuer ≠ "" := hconfig.issuer_ne_empty hin (hissuer.symm.trans hnative)
    exact .inr ⟨issuer, hnative, hne, hassetCode, hassetIssuer⟩

/-- Every intent that is handed out can be paid as told: a payment with the destination,
memo, asset and amount of a 201 response completes the stored intent, and what is
received is the amount shown. -/
theorem completed_as_told {w : World} {es : List Event} {now : ℤ}
    (hconfig : validateAddresses env.config = .ok ()) (hr : World.Reaches env (.init now) es w)
    (hc : .create req (.done (.shown 201 p)) ∈ w.calls) :
    ∃ q ∈ w.db.payments.rows, q.id = p.id ∧ ∀ hp, PaidAsTold (toJson p) hp →
      verify q hp 0 = some (.completed hp.hash (toJson p).amount) := by
  obtain ⟨hasked, q, hq, ht⟩ := World.told_of_run hr hc
  refine ⟨q, hq, Payment.id_eq_of_terms ht, fun hp hpaid => ?_⟩
  have hmatches := hpaid.matches (validateAddresses_eq_ok.mp hconfig) hasked ht
  obtain ⟨n, hpos, hmax, hamount, hshown⟩ := hasked.expected
  have hexpected : parseStroops q.amount = some n := by
    rw [Payment.amount_eq_of_terms ht, hamount]
    exact parseStroops_stroopsToString hpos hmax
  have hreceived : parseStroops (sevenDecimals (toJson p).amount) = some n := by
    rw [hshown]
    exact parseStroops_sevenDecimals hpos hmax
  have htotal : i64Add 0 n = n := (i64Add_of_le (by omega) (by omega)).trans (zero_add n)
  rw [verify_eq_of_matches hmatches hpaid.amount hreceived hexpected, htotal, hshown]
  exact congrArg some (verdictOf_eq_completed.mpr rfl)

end Paid

/-- The record of a payment in XLM as a response asks for it. -/
def Sample.paymentOf (view : PaymentView) (hash : String) : HorizonPayment :=
  { record view.memo (sevenDecimals view.amount) hash "1" with
    toAddress := some view.destinationAddress }

theorem Sample.paidAsTold {view : PaymentView} (hnative : view.assetIssuer = none) (hash : String) :
    PaidAsTold view (paymentOf view hash) where
  kind := rfl
  successful := rfl
  destination := rfl
  memo := rfl
  native := fun _ => rfl
  issued := fun issuer h => by
    rw [hnative] at h
    cases h
  amount := rfl

/-- An intent of 10 XLM, paid as its response says. -/
theorem completed_as_told_sample :
    ∃ w p, World.Reaches (Sample.accepting "XLM") (.init 0) Sample.create w ∧
      .create Sample.request (.done (.shown 201 p)) ∈ w.calls ∧
      ∃ q ∈ w.db.payments.rows, q.id = p.id ∧
        verify q (Sample.paymentOf (toJson p) "TXA") 0 = some (.completed "TXA" "10") := by
  have hconfig : validateAddresses (Sample.accepting "XLM").config = .ok () := by decide +kernel
  obtain ⟨w, hw, p, -, hc, hnative, hshown⟩ :=
    exists_of_run (World.step (Sample.accepting "XLM")) (.init 0) Sample.create
    (P := fun w => ∃ p ∈ w.db.payments.rows.map rowToPayment,
      .create Sample.request (.done (.shown 201 p)) ∈ w.calls ∧ (toJson p).assetIssuer = none ∧
        (toJson p).amount = "10") (by decide +kernel)
  obtain ⟨q, hq, hid, hpaid⟩ := completed_as_told hconfig hw hc
  refine ⟨w, p, hw, hc, q, hq, hid, ?_⟩
  rw [hpaid _ (Sample.paidAsTold hnative "TXA"), hshown]
  rfl

end StellarGate
