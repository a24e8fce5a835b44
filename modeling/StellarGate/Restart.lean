import StellarGate.Api.Revocation
import StellarGate.Current

/-! The service over one database file, with restarts: what `migrate` and `backfill_asset_issuers`
do to a file that the current code has written. -/
namespace StellarGate
open Base

def Payment.stored (p : Payment) : StoredPayment :=
  { id := p.id, merchantId := p.merchantId, destinationAddress := p.destinationAddress,
    memo := p.memo, amount := p.amount, asset := p.asset, assetIssuer := p.assetIssuer,
    status := p.status, webhookUrl := p.webhookUrl, txHash := p.txHash,
    paidAmount := p.paidAmount, createdAt := p.createdAt, updatedAt := p.updatedAt,
    expiresAt := some p.expiresAt }

/-- The row of a new table, where `expires_at` is `NOT NULL`. -/
def StoredPayment.load (p : StoredPayment) : Payment :=
  { id := p.id, merchantId := p.merchantId, destinationAddress := p.destinationAddress,
    memo := p.memo, amount := p.amount, asset := p.asset, assetIssuer := p.assetIssuer,
    status := p.status, webhookUrl := p.webhookUrl, txHash := p.txHash,
    paidAmount := p.paidAmount, createdAt := p.createdAt, updatedAt := p.updatedAt,
    expiresAt := p.expiresAt.getD "" }

/-- A row in an asset of the allow-list lacks no issuer. -/
theorem Addressed.lacksIssuer_eq_false {config : Config} (h : Addressed config)
    {one : AcceptedAsset} {p : Payment} (hone : one ∈ config.acceptedAssets)
    (hcode : p.asset = one.code) (hpinned : p.assetIssuer = one.issuer) :
    ∀ asset ∈ config.acceptedAssets, asset.issuer.isSome →
      lacksIssuer asset.code p.stored = false := by
  intro asset hin hissuer
  by_contra hlacks
  simp only [lacksIssuer, Bool.not_eq_false, Bool.and_eq_true, decide_eq_true_eq,
    Payment.stored, hcode, hpinned] at hlacks
  obtain ⟨hsame, hnone⟩ := hlacks
  obtain rfl : one = asset := List.inj_on_of_nodup_map h.codes hone hin hsame
  obtain ⟨issuer, hissuer⟩ := Option.isSome_iff_exists.mp hissuer
  rw [hissuer] at hnone
  exact h.issuer_ne_empty hone hissuer hnone

theorem stored_keys : ∀ k ∈ [StoredPayment.id, StoredPayment.memo],
    k ∘ Payment.stored ∈ [Payment.id, Payment.memo] := by
  simp only [List.forall_mem_cons]
  exact ⟨.head _, .tail _ (.head _), fun _ h => nomatch h⟩

theorem load_keys : ∀ k ∈ [Payment.id, Payment.memo],
    k ∘ StoredPayment.load ∈ [StoredPayment.id, StoredPayment.memo] := by
  simp only [List.forall_mem_cons]
  exact ⟨.head _, .tail _ (.head _), fun _ h => nomatch h⟩

/-- The columns that `set_state` updates. -/
def stateRow (now : ℤ) (value : String) (r : KvState) : KvState :=
  { r with value, updatedAt := strftime now }

theorem stateRow_keys (now : ℤ) (value : String) :
    ∀ k ∈ [KvState.key], ∀ r, k (stateRow now value r) = k r := by
  simp [stateRow]

def setState (now : ℤ) (key value : String) (t : Table KvState String [KvState.key]) :
    Table KvState String [KvState.key] :=
  match t.insert ⟨key, value, strftime now⟩ with
  | some t' => t'
  | none => t.update (·.key = key) (stateRow now value) (stateRow_keys now value)

/-- The service: the calls of the API, the poller and the sweep, the webhook and retention jobs, the
calls that deal with API keys, and the state of the poller. -/
structure Service where
  world : World
  jobs : List Job
  created : List Created
  sent : List Sent
  keys : Pool VaultPc Vault
  kvState : Table KvState String [KvState.key]

inductive ServiceEvent where
  | world (e : Event)
  | job (a : Act Jobs.Request JobReply)
  | key (a : Act VaultRequest VaultReply)
  | setState (key value : String)
  | restart (draw : String → String) (stages : ℕ)

namespace Service

/-- A job that stands for a statement of another part of the service: that part is here itself. -/
def foreign : Act Jobs.Request JobReply → Bool
  | .spawn (.elsewhere _) => true
  | _ => false

def init (now : ℤ) : Service := ⟨.init now, [], [], [], ⟨.empty, []⟩, .empty⟩

def pool (s : Service) : Pool Job Ledger := ⟨⟨s.world.db, s.created, s.sent⟩, s.jobs⟩

def file (s : Service) : DbFile :=
  { payments := s.world.db.payments.image Payment.stored stored_keys
    processedTransactions := s.world.db.processedTransactions
    webhookDeliveries := s.world.db.webhookDeliveries
    idempotencyKeys := s.world.db.idempotencyKeys
    kvState := s.kvState
    keys := s.keys.store.db }

/-- The service over the file `f`. -/
def load (f : DbFile) (s : Service) : Service :=
  let db := ⟨f.payments.image StoredPayment.load load_keys, f.processedTransactions,
    f.webhookDeliveries, f.idempotencyKeys⟩
  { s with
    world := { s.world with db }
    keys := ⟨{ s.keys.store with db := f.keys }, s.keys.procs⟩
    kvState := f.kvState }

/-- What every start runs. -/
def boot (accepted : List AcceptedAsset) (now : ℤ) (draw : String → String) (f : DbFile) : DbFile :=
  backfillAssetIssuers accepted (migrate now draw f)

/-- The stages of a start, in order. -/
def stages (accepted : List AcceptedAsset) (now : ℤ) (draw : String → String) :
    List (DbFile → DbFile) :=
  [DbFile.backfillExpiry, DbFile.carryOver draw, DbFile.backfillCredits now, DbFile.normalise] ++
    accepted.map fun asset => backfillAssetIssuers [asset]

/-- The file after the first `n` stages. -/
def begun (accepted : List AcceptedAsset) (now : ℤ) (draw : String → String) (n : ℕ) (f : DbFile) :
    DbFile :=
  ((stages accepted now draw).take n).foldl (fun f stage => stage f) f

theorem begun_all (accepted : List AcceptedAsset) (now : ℤ) (draw : String → String) (f : DbFile) :
    begun accepted now draw (accepted.length + 4) f = boot accepted now draw f := by
  have hall : (stages accepted now draw).take (accepted.length + 4) = stages accepted now draw :=
    List.take_of_length_le (by simp [stages])
  rw [begun, hall, stages, List.foldl_append, List.foldl_map]
  rfl

def crash (site : Jobs.Site) (hash : String → String) (s : Service) : Service :=
  { s with
    world := { s.world with calls := s.world.calls.map Call.cut }
    jobs := s.jobs.map (Jobs.machine site).cut
    keys := ⟨s.keys.store, s.keys.procs.map (Vault.machine hash).cut⟩ }

def step (site : Jobs.Site) (hash : String → String) (s : Service) : ServiceEvent → Option Service
  | .world e => (World.step site.env s.world e).map fun world => { s with world }
  | .job a =>
    if foreign a then none
    else ((Jobs.machine site).step s.pool a).map fun w =>
      { s with
        world := { s.world with db := w.store.db }
        created := w.store.created
        sent := w.store.sent
        jobs := w.procs }
  | .key a => ((Vault.machine hash).step s.keys a).map fun keys => { s with keys }
  | .setState key value =>
    some { s with kvState := StellarGate.setState s.world.now key value s.kvState }
  | .restart draw stages =>
    some ((s.crash site hash).load
      (begun site.env.config.acceptedAssets s.world.now draw stages s.file))

structure Current (env : Env) (hash : String → String) (s : Service) : Prop where
  world : s.world.Current env
  jobs : ∀ j ∈ s.jobs, Jobs.Job.own j = true
  keys : Vault.Intact hash s.keys.store

section
variable {site : Jobs.Site} {env : Env} {hash : String → String} {s t : Service} {e : ServiceEvent}

theorem load_file : s.load s.file = s := by
  have himage : (s.world.db.payments.image Payment.stored stored_keys).image StoredPayment.load
      load_keys = s.world.db.payments := Table.image_image fun _ => rfl
  simp only [load, file, himage]

theorem Current.migrated (h : s.Current env hash) : s.file.Current where
  expiry p hp hnone := by
    obtain ⟨p, -, rfl⟩ := List.mem_map.mp hp
    cases hnone
  carried m hm _ := h.keys.merchants m hm
  credited p hp txHash hhash _ _ := by
    obtain ⟨p, hrow, rfl⟩ := List.mem_map.mp hp
    obtain ⟨r, hr, rfl⟩ := (h.world.rows p hrow).credited txHash hhash
    obtain ⟨hr, hid⟩ := Db.mem_credits.mp hr
    exact ⟨r, hr, Prod.ext hid rfl⟩
  payments p hp := by
    obtain ⟨p, hrow, rfl⟩ := List.mem_map.mp hp
    exact (h.world.rows p hrow).times
  deliveries := h.world.dated

/-- No row lacks its issuer: an asset without one is native, and no other entry has its code. -/
theorem Current.issued (h : s.Current env hash) (hconfig : Addressed env.config) :
    ∀ p ∈ s.file.payments.rows, ∀ asset ∈ env.config.acceptedAssets, asset.issuer.isSome →
      lacksIssuer asset.code p = false := by
  intro p hp
  obtain ⟨p, hrow, rfl⟩ := List.mem_map.mp hp
  obtain ⟨one, hone, hcode, hpinned⟩ := (h.world.rows p hrow).pinned
  exact hconfig.lacksIssuer_eq_false hone hcode hpinned

theorem Current.stage_eq_self (h : s.Current env hash) (hconfig : Addressed env.config) {now : ℤ}
    {draw : String → String} {stage : DbFile → DbFile}
    (hstage : stage ∈ stages env.config.acceptedAssets now draw) : stage s.file = s.file := by
  have hcurrent := h.migrated
  rcases List.mem_append.mp hstage with hstage | hstage
  · simp only [List.mem_cons, List.not_mem_nil, or_false] at hstage
    obtain rfl | rfl | rfl | rfl := hstage
    · exact hcurrent.backfillExpiry_eq_self
    · rw [DbFile.carryOver, KeyDb.carryOver_eq_self hcurrent.carried]
    · exact hcurrent.backfillCredits_eq_self
    · exact hcurrent.normalise_eq_self
  · obtain ⟨asset, hin, rfl⟩ := List.mem_map.mp hstage
    apply backfillAssetIssuers_eq_self
    intro p hp one hone hissuer
    rw [List.mem_singleton.mp hone] at hissuer ⊢
    exact h.issued hconfig p hp asset hin hissuer

theorem foldl_eq_self {f : DbFile} {todo : List (DbFile → DbFile)}
    (h : ∀ stage ∈ todo, stage f = f) :
    todo.foldl (fun f stage => stage f) f = f := by
  induction todo with
  | nil => rfl
  | cons stage todo ih =>
    rw [List.foldl_cons, h stage List.mem_cons_self]
    exact ih fun x hx => h x (List.mem_cons_of_mem _ hx)

theorem Current.begun_eq_self (h : s.Current env hash) (hconfig : Addressed env.config) (now : ℤ)
    (draw : String → String) (n : ℕ) :
    begun env.config.acceptedAssets now draw n s.file = s.file := by
  apply foldl_eq_self
  exact fun stage hin => h.stage_eq_self hconfig (List.mem_of_mem_take hin)

theorem Current.crash (h : s.Current site.env hash) :
    (s.crash site hash).Current site.env hash := by
  refine ⟨h.world.step (e := .crash) rfl, fun j hj => ?_, h.keys⟩
  obtain ⟨j, -, rfl⟩ := List.mem_map.mp hj
  rfl

theorem step_job {a : Act Jobs.Request JobReply} (hjobs : ∀ j ∈ s.jobs, Jobs.Job.own j = true)
    (hstep : step site hash s (.job a) = some t) :
    (∀ j ∈ t.jobs, Jobs.Job.own j = true) ∧ Jobs.Aside s.world.db t.world.db ∧
      t.world = { s.world with db := t.world.db } ∧ t.keys = s.keys := by
  simp only [step] at hstep
  split_ifs at hstep with hforeign
  obtain ⟨w, hw, rfl⟩ := Option.map_eq_some_iff.mp hstep
  cases a with
  | spawn q =>
    cases hw
    refine ⟨fun j hj => ?_, .refl _, rfl, rfl⟩
    rcases List.mem_append.mp hj with hj | hj
    · exact hjobs j hj
    · rw [List.mem_singleton.mp hj]
      refine Jobs.own_start fun other hq => hforeign ?_
      rw [hq]
      rfl
  | exec i r =>
    obtain ⟨j, hj, rfl⟩ := Machine.step_exec hw
    have hown := hjobs j (List.mem_of_getElem? hj)
    have haside : Jobs.Aside s.pool.store.db (Jobs.step site r j s.pool.store).2.db :=
        Jobs.step_aside hown
    refine ⟨?_, ?_, rfl, rfl⟩ <;> simp only [Jobs.machine] <;> split_ifs
    · exact Machine.forall_mem_set hjobs (Jobs.own_step hown)
    · exact Machine.forall_mem_set hjobs (Jobs.own_fail hown)
    · exact haside
    · exact .refl _
  | fail i =>
    obtain ⟨j, hj, rfl⟩ := Machine.step_fail hw
    exact ⟨Machine.forall_mem_set hjobs (hjobs j (List.mem_of_getElem? hj)), .refl _, rfl, rfl⟩
  | cut i =>
    obtain ⟨j, hj, rfl⟩ := Machine.step_cut hw
    exact ⟨Machine.forall_mem_set hjobs rfl, .refl _, rfl, rfl⟩

theorem Current.job {a : Act Jobs.Request JobReply} (h : s.Current site.env hash)
    (hstep : step site hash s (.job a) = some t) : t.Current site.env hash := by
  obtain ⟨hjobs, haside, hworld, hkeys⟩ := step_job h.jobs hstep
  exact ⟨hworld ▸ h.world.aside haside, hjobs, hkeys ▸ h.keys⟩

theorem Current.step (hconfig : Addressed site.env.config) (hstep : step site hash s e = some t)
    (h : s.Current site.env hash) : t.Current site.env hash := by
  cases e with
  | world e =>
    obtain ⟨world, hw, rfl⟩ := Option.map_eq_some_iff.mp hstep
    exact ⟨h.world.step hw, h.jobs, h.keys⟩
  | job a => exact h.job hstep
  | key a =>
    obtain ⟨keys, hkeys, rfl⟩ := Option.map_eq_some_iff.mp hstep
    exact ⟨h.world, h.jobs, h.keys.step hkeys⟩
  | setState key value =>
    cases hstep
    exact ⟨h.world, h.jobs, h.keys⟩
  | restart draw n =>
    cases hstep
    have hfile : (s.crash site hash).file = s.file := rfl
    rw [h.begun_eq_self hconfig, ← hfile, load_file]
    exact h.crash

theorem Current.init (now : ℤ) : (init now).Current env hash :=
  ⟨World.Current.init, (fun _ hj => nomatch hj), Vault.intact_empty⟩

end

/-- A restart changes nothing: whatever the service has done since an empty file, a start under the
same accepted configuration leaves every row of every table as it is and adds none. -/
theorem restart_changes_nothing {site : Jobs.Site} {hash : String → String} {start : ℤ}
    {es : List ServiceEvent} {s : Service} (hconfig : validateAddresses site.env.config = .ok ())
    (hr : run (step site hash) (init start) es = some s) (now : ℤ) (draw : String → String) :
    boot site.env.config.acceptedAssets now draw s.file = s.file := by
  have haddressed := validateAddresses_eq_ok.mp hconfig
  have hcurrent : s.Current site.env hash :=
    run_invariant (fun _ _ _ hstep h => h.step haddressed hstep) hr (.init start)
  rw [← begun_all]
  exact hcurrent.begun_eq_self haddressed now draw _

namespace Sample

def address : String := "GBBD47IF6LWK7P7MDEVSCWR7DPUWV3NY3DTQEVFL4NAT4AQH3ZLLFLA5"

def site : Jobs.Site where
  env :=
    { StellarGate.Sample.env with
      config :=
        { StellarGate.Sample.env.config with
          gatewayPublic := address, acceptedAssets := [⟨"XLM", none⟩, ⟨"USDC", some address⟩] } }
  config := ⟨8, 60, 30, 900, 30, 4, 30, 7⟩
  sign _ body := body
  jsonEvent _ := none

/-- A payment is credited to its intent, and the process dies before it updates the intent. -/
def halfSettled : List ServiceEvent :=
  [.key (.spawn (.createMerchant "m" "a" "")), .key (.exec 0 ⟨0, "1", id⟩)] ++
    StellarGate.Sample.create.map .world ++
    [.world (.reconcile
      { StellarGate.Sample.record "11" "10.0000000" "TXA" "1" with toAddress := some address })] ++
    (StellarGate.Sample.turns 20 [1, 1, 1]).map .world ++
    [.setState "payment_cursor" "1", .restart id 6]

end Sample

theorem restart_changes_nothing_halfSettled :
    ∃ s, run (step Sample.site id) (init 0) Sample.halfSettled = some s ∧
      s.world.db.payments.rows.map Payment.status = [.pending] ∧
      s.world.db.processedTransactions.rows.map ProcessedTx.txHash = ["TXA"] ∧
      ∀ now draw, boot Sample.site.env.config.acceptedAssets now draw s.file = s.file := by
  obtain ⟨s, hs, hstatus, hcredit⟩ :=
    exists_of_run (step Sample.site id) (init 0) Sample.halfSettled
      (P := fun s => s.world.db.payments.rows.map Payment.status = [.pending] ∧
      s.world.db.processedTransactions.rows.map ProcessedTx.txHash = ["TXA"]) (by decide +kernel)
  have hconfig : validateAddresses Sample.site.env.config = .ok () := by decide +kernel
  exact ⟨s, hs, hstatus, hcredit, restart_changes_nothing hconfig hs⟩

end Service
end StellarGate
