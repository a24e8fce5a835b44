import StellarGate.Assets.AllowList
import StellarGate.Restart

/-! One database file under changing settings: each start of the service may come with another
allow-list, which `backfill_asset_issuers` then reads. -/
namespace StellarGate
open Base

/-- What one entry of the allow-list makes of a row. -/
def Payment.fill (p : Payment) (asset : AcceptedAsset) : Payment :=
  match asset.issuer with
  | none => p
  | some issuer =>
    if lacksIssuer asset.code p.stored then { p with assetIssuer := some issuer } else p

/-- What `backfill_asset_issuers` makes of a row. -/
def Payment.backfilled (accepted : List AcceptedAsset) (p : Payment) : Payment :=
  accepted.foldl Payment.fill p

def DbFile.terms (f : DbFile) : List Payment := f.payments.rows.map fun p => p.load.terms

section Rows
variable {f : DbFile} {now : ℤ} {draw : String → String} {accepted : List AcceptedAsset}
  {asset : AcceptedAsset} {p q : Payment}

theorem terms_update {t : Table StoredPayment String [StoredPayment.id, StoredPayment.memo]}
    {hit : StoredPayment → Bool} {g : StoredPayment → StoredPayment} (hg : KeepsKeys g)
    (hterms : ∀ p, (g p).load.terms = p.load.terms) :
    (t.update hit g hg).rows.map (fun p => p.load.terms) = t.rows.map fun p => p.load.terms := by
  rw [Table.update_rows, List.map_map]
  apply List.map_congr_left
  intro p _
  simp only [Function.comp_apply]
  split_ifs
  · exact hterms p
  · rfl

theorem DbFile.normalise_terms : f.normalise.terms = f.terms := by
  unfold DbFile.terms DbFile.normalise
  rw [terms_update repairExpires_keys fun _ => rfl, terms_update repairUpdated_keys fun _ => rfl,
    terms_update repairCreated_keys fun _ => rfl]

/-- A migration repairs timestamps only. -/
theorem DbFile.migrate_terms : (migrate now draw f).terms = f.terms := by
  have hexpiry : f.backfillExpiry.terms = f.terms := terms_update addExpiry_keys fun _ => rfl
  rw [migrate, normalise_terms]
  exact hexpiry

theorem DbFile.fill_terms :
    (backfillAssetIssuers [asset] f).terms = f.terms.map (Payment.fill · asset) := by
  obtain ⟨code, issuer⟩ := asset
  cases issuer with
  | none => exact (List.map_id _).symm
  | some issuer =>
    have hrows : (backfillAssetIssuers [⟨code, some issuer⟩] f).payments.rows =
        f.payments.rows.map fun p => if lacksIssuer code p then setIssuer issuer p else p := rfl
    unfold DbFile.terms
    rw [hrows, List.map_map, List.map_map]
    apply List.map_congr_left
    intro p _
    have hlacks : lacksIssuer code p.load.terms.stored = lacksIssuer code p := rfl
    simp only [Function.comp_apply, Payment.fill, hlacks]
    split_ifs <;> rfl

theorem DbFile.backfill_terms :
    (backfillAssetIssuers accepted f).terms = f.terms.map (Payment.backfilled accepted) := by
  induction accepted generalizing f with
  | nil => exact (List.map_id _).symm
  | cons asset accepted ih =>
    have hcons : backfillAssetIssuers (asset :: accepted) f =
        backfillAssetIssuers accepted (backfillAssetIssuers [asset] f) := rfl
    rw [hcons, ih, fill_terms, List.map_map]
    rfl

theorem Service.boot_terms :
    (boot accepted now draw f).terms = f.terms.map (Payment.backfilled accepted) := by
  rw [boot, DbFile.backfill_terms, DbFile.migrate_terms]

/-- A row whose asset stands: it has an issuer, or is native XLM and no entry of the
list would give it one. -/
structure Payment.Pinned (accepted : List AcceptedAsset) (p : Payment) : Prop where
  priced : (parseStroops p.amount).isSome
  named : p.assetIssuer ≠ some ""
  native : p.assetIssuer = none → asciiUpper p.asset = asciiUpper "XLM"
  filled : ∀ asset ∈ accepted, asset.issuer.isSome → lacksIssuer asset.code p.stored = false

theorem Payment.Pinned.of_terms (h : p.Pinned accepted) (ht : q.terms = p.terms) :
    q.Pinned accepted := by
  have hasset := Payment.asset_eq_of_terms ht
  have hissuer := Payment.assetIssuer_eq_of_terms ht
  refine ⟨Payment.amount_eq_of_terms ht ▸ h.priced, hissuer ▸ h.named, ?_,
    fun asset hin hsome => ?_⟩
  · rw [hasset, hissuer]
    exact h.native
  · have hcode : q.stored.asset = p.stored.asset := hasset
    have hpinned : q.stored.assetIssuer = p.stored.assetIssuer := hissuer
    unfold lacksIssuer
    rw [hcode, hpinned]
    exact h.filled asset hin hsome

theorem Payment.fill_eq_self (h : asset.issuer.isSome → lacksIssuer asset.code p.stored = false) :
    p.fill asset = p := by
  unfold fill
  cases hissuer : asset.issuer with
  | none => rfl
  | some issuer =>
    rw [hissuer] at h
    simp only [h rfl, Bool.false_eq_true, if_false]

theorem Payment.backfilled_eq_self
    (h : ∀ asset ∈ accepted, asset.issuer.isSome → lacksIssuer asset.code p.stored = false) :
    p.backfilled accepted = p := by
  induction accepted with
  | nil => rfl
  | cons asset accepted ih =>
    unfold backfilled at ih ⊢
    rw [List.foldl_cons, fill_eq_self (h asset List.mem_cons_self)]
    exact ih fun x hx => h x (List.mem_cons_of_mem _ hx)

theorem Payment.not_lacksIssuer {issuer : String} (hissuer : p.assetIssuer = some issuer)
    (hne : issuer ≠ "") :
    ∀ asset ∈ accepted, asset.issuer.isSome → lacksIssuer asset.code p.stored = false := by
  intro asset _ _
  simp [lacksIssuer, stored, hissuer, hne]

theorem Payment.backfilled_issuer
    (hvalid : ∀ asset ∈ accepted, ∀ issuer ∈ asset.issuer, issuer ≠ "")
    (h : ∃ asset ∈ accepted, asset.issuer.isSome ∧ lacksIssuer asset.code p.stored = true) :
    ∃ issuer ≠ "", p.backfilled accepted = { p with assetIssuer := some issuer } := by
  induction accepted with
  | nil =>
    obtain ⟨asset, hin, -⟩ := h
    cases hin
  | cons first accepted ih =>
    have hrest : ∀ asset ∈ accepted, ∀ issuer ∈ asset.issuer, issuer ≠ "" :=
      fun x hx => hvalid x (List.mem_cons_of_mem _ hx)
    have hcons : p.backfilled (first :: accepted) = (p.fill first).backfilled accepted := rfl
    by_cases hfirst : first.issuer.isSome ∧ lacksIssuer first.code p.stored = true
    · obtain ⟨hsome, hlacks⟩ := hfirst
      obtain ⟨issuer, hissuer⟩ := Option.isSome_iff_exists.mp hsome
      have hne : issuer ≠ "" := hvalid first List.mem_cons_self issuer hissuer
      have hfill : p.fill first = { p with assetIssuer := some issuer } := by
        simp only [fill, hissuer, hlacks, if_true]
      refine ⟨issuer, hne, ?_⟩
      rw [hcons, hfill]
      exact backfilled_eq_self (not_lacksIssuer rfl hne)
    · have hfill : p.fill first = p := fill_eq_self fun hsome => by simpa [hsome] using hfirst
      rw [hcons, hfill]
      apply ih hrest
      obtain ⟨asset, hin, hasset⟩ := h
      rcases List.mem_cons.mp hin with rfl | hin
      · exact absurd hasset hfirst
      · exact ⟨asset, hin, hasset⟩

end Rows

/-- The running service and the settings it was started with. -/
structure Deployment where
  site : Jobs.Site
  service : Service

/-- What can happen next: a step of the service, or a restart with other settings, which
runs the whole start. -/
inductive DeploymentEvent where
  | runs (e : ServiceEvent)
  | restarts (site : Jobs.Site) (draw : String → String)

namespace Deployment

def init (site : Jobs.Site) (now : ℤ) : Deployment := ⟨site, .init now⟩

/-- A start under settings that `validate_addresses` refuses is given up. -/
def step (hash : String → String) (d : Deployment) : DeploymentEvent → Option Deployment
  | .runs e => (Service.step d.site hash d.service e).map fun service => { d with service }
  | .restarts site draw =>
    if validateAddresses site.env.config = .ok () then
      let file := Service.boot site.env.config.acceptedAssets d.service.world.now draw
        d.service.file
      some ⟨site, (d.service.crash d.site hash).load file⟩
    else none

/-- The rows of `payments`. -/
def payments (d : Deployment) : List Payment := d.service.world.db.payments.rows

structure Current (d : Deployment) : Prop where
  addressed : Addressed d.site.env.config
  rows : ∀ p ∈ d.payments, p.Pinned d.site.env.config.acceptedAssets
  accepted : ∀ c ∈ d.service.world.calls, c.Accepted d.site.env
  jobs : ∀ j ∈ d.service.jobs, Jobs.Job.own j = true

/-- The intent keeps its asset: `verify` accepts the records that it accepted, and a native intent
is settled by native XLM only. -/
def KeepsAsset (p : Payment) (d : Deployment) : Prop :=
  ∃ q ∈ d.payments, q.id = p.id ∧ q.assetIssuer = p.assetIssuer ∧
    (∀ hp already, (verify q hp already).isSome = (verify p hp already).isSome) ∧
    (p.assetIssuer = none → ∀ hp already, (verify q hp already).isSome →
      hp.assetType = some "native")

def IssuesXlm (accepted : List AcceptedAsset) : Prop :=
  ∃ asset ∈ accepted, asset.issuer.isSome ∧ asciiUpper asset.code = asciiUpper "XLM"

instance (accepted : List AcceptedAsset) : Decidable (IssuesXlm accepted) := by
  unfold IssuesXlm
  infer_instance

/-- A restart does not give a native intent an issuer. -/
def SparesNative (p : Payment) (_ : Deployment) : DeploymentEvent → Prop
  | .runs _ => True
  | .restarts site _ => p.assetIssuer = none → ¬ IssuesXlm site.env.config.acceptedAssets

section
variable {hash : String → String} {d t : Deployment} {e : DeploymentEvent} {site : Jobs.Site}
  {start : ℤ} {p q : Payment} {draw : String → String}

theorem Current.init (h : Addressed site.env.config) : (init site start).Current :=
  ⟨h, (fun _ hp => nomatch hp), (fun _ hc => nomatch hc), fun _ hj => nomatch hj⟩

theorem pinned_of_accepted {config : Config} {one : AcceptedAsset} (h : Addressed config)
    (hpriced : (parseStroops p.amount).isSome) (hone : one ∈ config.acceptedAssets)
    (hcode : p.asset = one.code) (hissuer : p.assetIssuer = one.issuer) :
    p.Pinned config.acceptedAssets := by
  refine ⟨hpriced, fun hempty => ?_, fun hnone => ?_, h.lacksIssuer_eq_false hone hcode hissuer⟩
  · exact h.issuer_ne_empty hone (hissuer.symm.trans hempty) rfl
  · rw [hcode]
    exact h.native one hone (hissuer.symm.trans hnone)

/-- The rows that a step of the service leaves: none loses its terms, and each
old or new one stands. -/
structure Carries (accepted : List AcceptedAsset) (rows rows' : List Payment) : Prop where
  kept : ∀ p ∈ rows, ∃ q ∈ rows', q.terms = p.terms
  pinned : ∀ q ∈ rows', (∃ p ∈ rows, q.terms = p.terms) ∨ q.Pinned accepted

theorem Carries.of_terms {accepted : List AcceptedAsset} {rows rows' : List Payment}
    (h : rows'.map Payment.terms = rows.map Payment.terms) : Carries accepted rows rows' := by
  have hmem (a b : List Payment) (hab : b.map Payment.terms = a.map Payment.terms) :
      ∀ p ∈ a, ∃ q ∈ b, q.terms = p.terms := by
    intro p hp
    have hin : p.terms ∈ b.map Payment.terms := hab ▸ List.mem_map_of_mem hp
    exact List.mem_map.mp hin
  refine ⟨hmem rows rows' h, fun q hq => .inl ?_⟩
  obtain ⟨p, hp, hterms⟩ := hmem rows' rows h.symm q hq
  exact ⟨p, hp, hterms.symm⟩

theorem carries_exec {env : Env} {now : ℤ} {r : Reply} {db db' : Db} {c : Call}
    (h : Addressed env.config) (hw : Writes env now r db c db') (hc : c.Accepted env) :
    Carries env.config.acceptedAssets db.payments.rows db'.payments.rows := by
  constructor
  · intro p hp
    obtain ⟨q, hq, hstep⟩ := hw.row hp
    exact ⟨q, hq, hstep.terms⟩
  · intro q hq
    rcases hw.row_inv hq with ⟨p, hp, hstep⟩ | hnew
    · exact .inl ⟨p, hp, hstep.terms⟩
    · right
      obtain ⟨n, hpos, hmax, hamount⟩ := hnew.priced
      obtain ⟨req, memo, expires, amount, rfl, hrow⟩ := hw.new hq hnew
      rcases hc with hreturned | ⟨one, hasset⟩
      · cases hreturned
      · have hpriced : (parseStroops q.amount).isSome := by
          rw [hamount, parseStroops_stroopsToString hpos hmax]
          rfl
        have hcurrent : q.Current env.config db := hrow ▸ Payment.Current.inserted hasset
        obtain ⟨one, hone, hcode, hissuer⟩ := hcurrent.pinned
        exact pinned_of_accepted h hpriced hone hcode hissuer

theorem payments_load {f : DbFile} {s : Service} :
    (s.load f).world.db.payments.rows.map Payment.terms = f.terms := by
  have hrows : (s.load f).world.db.payments.rows = f.payments.rows.map StoredPayment.load := rfl
  rw [hrows, List.map_map]
  rfl

theorem terms_file (s : Service) : s.file.terms = s.world.db.payments.rows.map Payment.terms := by
  have hrows : s.file.payments.rows = s.world.db.payments.rows.map Payment.stored := rfl
  rw [DbFile.terms, hrows, List.map_map]
  rfl

theorem begun_terms {accepted : List AcceptedAsset} {f : DbFile} (now : ℤ) (n : ℕ)
    (h : ∀ p ∈ f.terms, p.Pinned accepted) :
    (Service.begun accepted now draw n f).terms = f.terms := by
  have hstage : ∀ stage ∈ Service.stages accepted now draw, ∀ g : DbFile, g.terms = f.terms →
      (stage g).terms = f.terms := by
    intro stage hstage g hg
    rcases List.mem_append.mp hstage with hstage | hstage
    · simp only [List.mem_cons, List.not_mem_nil, or_false] at hstage
      obtain rfl | rfl | rfl | rfl := hstage
      · exact (terms_update addExpiry_keys fun _ => rfl).trans hg
      · exact hg
      · exact hg
      · exact DbFile.normalise_terms.trans hg
    · obtain ⟨asset, hin, rfl⟩ := List.mem_map.mp hstage
      rw [DbFile.fill_terms, hg]
      calc
        f.terms.map (Payment.fill · asset) = f.terms.map id :=
          List.map_congr_left fun p hp => Payment.fill_eq_self ((h p hp).filled asset hin)
        _ = f.terms := List.map_id _
  have hall (todo : List (DbFile → DbFile))
      (htodo : ∀ stage ∈ todo, stage ∈ Service.stages accepted now draw) (g : DbFile)
      (hg : g.terms = f.terms) : (todo.foldl (fun f stage => stage f) g).terms = f.terms := by
    induction todo generalizing g with
    | nil => exact hg
    | cons stage todo ih =>
      rw [List.foldl_cons]
      exact ih (fun x hx => htodo x (List.mem_cons_of_mem _ hx)) _
        (hstage stage (htodo stage List.mem_cons_self) g hg)
  exact hall _ (fun stage hin => List.mem_of_mem_take hin) f rfl

variable (site hash) in
theorem crash_accepted {env : Env} {s : Service} :
    ∀ c ∈ (s.crash site hash).world.calls, c.Accepted env := by
  intro c hc
  obtain ⟨c, -, rfl⟩ := List.mem_map.mp hc
  unfold Call.cut
  split_ifs with hreturned
  · cases c with
    | create req pc => exact .inl hreturned
    | reconcile hp pc | sweep pc | lost => trivial
  · trivial

variable (site hash) in
theorem crash_jobs {s : Service} : ∀ j ∈ (s.crash site hash).jobs, Jobs.Job.own j = true := by
  intro j hj
  obtain ⟨j, -, rfl⟩ := List.mem_map.mp hj
  rfl

theorem Current.carries {s : Service} {e : ServiceEvent} (h : d.Current)
    (hs : Service.step d.site hash d.service e = some s) :
    Carries d.site.env.config.acceptedAssets d.payments s.world.db.payments.rows ∧
      (∀ c ∈ s.world.calls, c.Accepted d.site.env) ∧ ∀ j ∈ s.jobs, Jobs.Job.own j = true := by
  cases e with
  | world e =>
    obtain ⟨world, hw, rfl⟩ := Option.map_eq_some_iff.mp hs
    refine ⟨?_, World.accepted_step hw h.accepted, h.jobs⟩
    rcases World.step_db hw with hdb | ⟨i, r, c, -, hc, rfl⟩
    · have hrows : world.db.payments.rows = d.payments := by
        rw [hdb]
        rfl
      exact .of_terms (congrArg _ hrows)
    · exact carries_exec h.addressed c.step_writes (h.accepted c (List.mem_of_getElem? hc))
  | job a =>
    obtain ⟨hjobs, haside, hworld, -⟩ := Service.step_job h.jobs hs
    refine ⟨.of_terms (congrArg _ (congrArg Table.rows haside.payments)), fun c hc => ?_, hjobs⟩
    rw [hworld] at hc
    exact h.accepted c hc
  | key a =>
    obtain ⟨keys, -, rfl⟩ := Option.map_eq_some_iff.mp hs
    exact ⟨.of_terms rfl, h.accepted, h.jobs⟩
  | setState key value =>
    cases hs
    exact ⟨.of_terms rfl, h.accepted, h.jobs⟩
  | restart draw n =>
    cases hs
    refine ⟨.of_terms ?_, crash_accepted hash d.site, crash_jobs hash d.site⟩
    rw [payments_load, begun_terms _ _ fun p hp => ?_, terms_file]
    · rfl
    · rw [terms_file] at hp
      obtain ⟨q, hq, rfl⟩ := List.mem_map.mp hp
      exact (h.rows q hq).of_terms rfl

theorem Current.runs {s : Service} {e : ServiceEvent} (h : d.Current)
    (hs : Service.step d.site hash d.service e = some s) : Current ⟨d.site, s⟩ := by
  obtain ⟨hcarries, haccepted, hjobs⟩ := h.carries hs
  refine ⟨h.addressed, fun q hq => ?_, haccepted, hjobs⟩
  rcases hcarries.pinned q hq with ⟨p, hp, hterms⟩ | hpinned
  · exact (h.rows p hp).of_terms hterms
  · exact hpinned

theorem restarts_terms {s : Service} (now : ℤ) (accepted : List AcceptedAsset) :
    ((s.crash d.site hash).load
        (Service.boot accepted now draw s.file)).world.db.payments.rows.map Payment.terms =
      s.world.db.payments.rows.map fun p => p.terms.backfilled accepted := by
  rw [payments_load, Service.boot_terms, terms_file, List.map_map]
  rfl

theorem backfilled_terms {accepted : List AcceptedAsset} :
    p.terms.backfilled accepted = (p.backfilled accepted).terms := by
  induction accepted generalizing p with
  | nil => rfl
  | cons asset accepted ih =>
    have hfill : p.terms.fill asset = (p.fill asset).terms := by
      have hlacks : lacksIssuer asset.code p.terms.stored = lacksIssuer asset.code p.stored := rfl
      unfold Payment.fill
      rw [hlacks]
      cases asset.issuer with
      | none => rfl
      | some issuer =>
        simp only
        split_ifs <;> rfl
    have hcons : p.terms.backfilled (asset :: accepted) =
      (p.terms.fill asset).backfilled accepted := rfl
    rw [hcons, hfill, ih]
    rfl

theorem restarts_addressed (ht : step hash d (.restarts site draw) = some t) :
    Addressed site.env.config := by
  simp only [step] at ht
  split_ifs at ht with hvalid
  exact validateAddresses_eq_ok.mp hvalid

/-- What a start makes of the rows. -/
theorem restarts_payments (ht : step hash d (.restarts site draw) = some t) :
    t.payments.map Payment.terms =
      d.payments.map fun p => (p.backfilled site.env.config.acceptedAssets).terms := by
  simp only [step] at ht
  split_ifs at ht
  cases ht
  refine (restarts_terms _ _).trans ?_
  exact List.map_congr_left fun p _ => backfilled_terms

theorem restarts_row (ht : step hash d (.restarts site draw) = some t) (hp : p ∈ d.payments) :
    ∃ q ∈ t.payments, q.terms = (p.backfilled site.env.config.acceptedAssets).terms := by
  apply List.mem_map.mp
  rw [restarts_payments ht]
  exact List.mem_map.mpr ⟨p, hp, rfl⟩

theorem pinned_backfilled {config : Config} {accepted : List AcceptedAsset} (h : Addressed config)
    (hp : p.Pinned accepted) :
    (p.backfilled config.acceptedAssets).Pinned config.acceptedAssets := by
  have hvalid : ∀ asset ∈ config.acceptedAssets, ∀ issuer ∈ asset.issuer, issuer ≠ "" :=
    fun asset hin issuer hissuer => h.issuer_ne_empty hin hissuer
  by_cases hlacks : ∃ asset ∈ config.acceptedAssets, asset.issuer.isSome ∧
    lacksIssuer asset.code p.stored = true
  · obtain ⟨issuer, hne, hfilled⟩ := Payment.backfilled_issuer hvalid hlacks
    rw [hfilled]
    refine ⟨hp.priced, fun hempty => hne (Option.some.inj hempty), fun hnone => ?_, ?_⟩
    · cases hnone
    · exact Payment.not_lacksIssuer rfl hne
  · have hfilled : ∀ asset ∈ config.acceptedAssets, asset.issuer.isSome →
        lacksIssuer asset.code p.stored = false := by
      intro asset hin hsome
      by_contra hlack
      exact hlacks ⟨asset, hin, hsome, by simpa using hlack⟩
    rw [Payment.backfilled_eq_self hfilled]
    exact ⟨hp.priced, hp.named, hp.native, hfilled⟩

theorem Current.step (ht : step hash d e = some t) (h : d.Current) : t.Current := by
  cases e with
  | runs e =>
    obtain ⟨s, hs, rfl⟩ := Option.map_eq_some_iff.mp ht
    exact h.runs hs
  | restarts site draw =>
    have hrows := restarts_payments ht
    simp only [Deployment.step] at ht
    split_ifs at ht with hvalid
    cases ht
    have haddressed := validateAddresses_eq_ok.mp hvalid
    refine ⟨haddressed, fun q hq => ?_, crash_accepted hash d.site, crash_jobs hash d.site⟩
    have hin : q.terms ∈ d.payments.map fun p =>
      (p.backfilled site.env.config.acceptedAssets).terms :=
      hrows ▸ List.mem_map_of_mem hq
    obtain ⟨p, hp, hterms⟩ := List.mem_map.mp hin
    exact (pinned_backfilled haddressed (h.rows p hp)).of_terms hterms.symm

theorem KeepsAsset.of_row (h : d.KeepsAsset p)
    (hrow : ∀ q ∈ d.payments, q.id = p.id → q.assetIssuer = p.assetIssuer → ∃ r ∈ t.payments,
      r.terms = q.terms) :
    t.KeepsAsset p := by
  obtain ⟨q, hq, hid, hissuer, hsame, hnative⟩ := h
  obtain ⟨r, hr, hterms⟩ := hrow q hq hid hissuer
  refine ⟨r, hr, (Payment.id_eq_of_terms hterms).trans hid, ?_, fun hp already => ?_,
    fun hnone hp already => ?_⟩
  · exact (Payment.assetIssuer_eq_of_terms hterms).trans hissuer
  · rw [verify_congr hterms]
    exact hsame hp already
  · rw [verify_congr hterms]
    exact hnative hnone hp already

/-- A row that stands lacks an issuer for an entry only if it is native and the
entry has the code of XLM. -/
theorem lacksIssuer_iff {accepted : List AcceptedAsset} {asset : AcceptedAsset}
    (h : p.Pinned accepted) :
    lacksIssuer asset.code p.stored = true ↔ p.assetIssuer = none ∧
      asciiUpper asset.code = asciiUpper "XLM" := by
  have hempty : p.assetIssuer.getD "" = "" ↔ p.assetIssuer = none := by
    cases hissuer : p.assetIssuer with
    | none => simp
    | some issuer =>
      have hne : issuer ≠ "" := fun he => h.named (he ▸ hissuer)
      simp [hne]
  have hstored : lacksIssuer asset.code p.stored = true ↔
      asciiUpper p.asset = asciiUpper asset.code ∧ p.assetIssuer = none := by
    unfold lacksIssuer
    rw [Bool.and_eq_true, decide_eq_true_eq, decide_eq_true_eq]
    exact and_congr_right fun _ => hempty
  rw [hstored]
  constructor
  · rintro ⟨hsame, hnone⟩
    exact ⟨hnone, hsame.symm.trans (h.native hnone)⟩
  · rintro ⟨hnone, hxlm⟩
    exact ⟨(h.native hnone).trans hxlm.symm, hnone⟩

/-- A step keeps the asset of an intent exactly when it gives a native one no issuer. -/
theorem keepsAsset_step_iff (ht : step hash d e = some t) (h : d.Current) (hk : d.KeepsAsset p) :
    t.KeepsAsset p ↔ SparesNative p d e := by
  cases e with
  | runs e =>
    obtain ⟨s, hs, rfl⟩ := Option.map_eq_some_iff.mp ht
    exact iff_of_true (hk.of_row fun q hq _ _ => (h.carries hs).1.kept q hq) trivial
  | restarts site draw =>
    constructor
    · rintro ⟨r, hr, hid, hissuer, -⟩ hnone ⟨asset, hin, hsome, hxlm⟩
      obtain ⟨q, hq, hqid, hqissuer, -⟩ := hk
      have hlacks : lacksIssuer asset.code q.stored = true :=
        (lacksIssuer_iff (h.rows q hq)).mpr ⟨hqissuer.trans hnone, hxlm⟩
      have haddressed := restarts_addressed ht
      obtain ⟨issuer, -, hfilled⟩ := Payment.backfilled_issuer
        (fun asset hin issuer hissuer => haddressed.issuer_ne_empty hin hissuer)
          ⟨asset, hin, hsome, hlacks⟩
      obtain ⟨r', hr', hterms⟩ := restarts_row ht hq
      rw [hfilled] at hterms
      -- the row has the issuer of the entry now
      have hsame : r = r' :=
          Db.eq_of_id hr hr' (hid.trans (hqid.symm.trans (Payment.id_eq_of_terms hterms).symm))
      have hpinned : r'.assetIssuer = some issuer := Payment.assetIssuer_eq_of_terms hterms
      rw [← hsame, hissuer, hnone] at hpinned
      cases hpinned
    · intro hspares
      refine hk.of_row fun q hq hid hissuer => ?_
      have hself : q.backfilled site.env.config.acceptedAssets = q := by
        apply Payment.backfilled_eq_self
        intro asset hin hsome
        by_contra hlacks
        obtain ⟨hnone, hxlm⟩ := (lacksIssuer_iff (h.rows q hq)).mp (by simpa using hlacks)
        exact hspares (hissuer.symm.trans hnone) ⟨asset, hin, hsome, hxlm⟩
      obtain ⟨r, hr, hterms⟩ := restarts_row ht hq
      exact ⟨r, hr, hself ▸ hterms⟩

theorem keepsAsset_self (hp : p ∈ d.payments) : d.KeepsAsset p := by
  refine ⟨p, hp, rfl, rfl, fun _ _ => rfl, fun hnone hp' already hsome => ?_⟩
  rcases (verify_isSome_iff.mp hsome).1.asset with ⟨-, -, htype⟩ | ⟨issuer, hissuer, -⟩
  · exact htype
  · rw [hnone] at hissuer
    cases hissuer

end

/-- Which restarts pin the asset of an intent: whatever the service has done before and does later,
under any accepted allow-lists, the records that settle the intent stay the same exactly when no
restart comes with an issuer for the code XLM, or the intent has an issuer of its own. -/
theorem keepsAsset_iff {hash : String → String} {site : Jobs.Site} {start : ℤ}
    {es fs : List DeploymentEvent} {d t : Deployment} {p : Payment}
    (hconfig : validateAddresses site.env.config = .ok ())
    (hr : run (step hash) (init site start) es = some d) (hp : p ∈ d.payments)
    (hf : run (step hash) d fs = some t) :
    (∀ gs, gs <+: fs → ∀ u, run (step hash) d gs = some u → u.KeepsAsset p) ↔
      Along (step hash) (SparesNative p) d fs := by
  have hcurrent : d.Current :=
    run_invariant (fun _ _ _ hstep h => h.step hstep) hr
      (.init (validateAddresses_eq_ok.mp hconfig))
  apply always_iff_along (I := Current) _ _ hf hcurrent (keepsAsset_self hp)
  · exact fun _ _ _ hstep hcurrent => hcurrent.step hstep
  · exact fun _ _ _ hstep hcurrent hk => keepsAsset_step_iff hstep hcurrent hk

namespace Sample

/-- The deployment of the restart example with another `ACCEPTED_ASSETS`. -/
def site (raw : String) : Jobs.Site :=
  let env := Service.Sample.site.env
  let acceptedAssets := AcceptedAsset.parseList asciiUpper raw
  { Service.Sample.site with env := { env with config := { env.config with acceptedAssets } } }

/-- A native payment of 10 XLM to the intent with memo `"11"`. -/
def native : HorizonPayment :=
  { StellarGate.Sample.record "11" "10.0000000" "TXA" "1" with
    toAddress := some Service.Sample.address }

def issued : HorizonPayment :=
  { native with assetType := some "credit_alphanum4", assetCode := some "XLM",
                assetIssuer := some Service.Sample.address }

def created : List DeploymentEvent := StellarGate.Sample.create.map fun e => .runs (.world e)

/-- A restart that accepts native XLM and USDC. -/
def plain : List DeploymentEvent := [.restarts (site ("XLM,USDC:" ++ Service.Sample.address)) id]

/-- A restart that accepts an issued asset under the code of the native one. -/
def misnamed : List DeploymentEvent := [.restarts (site ("XLM:" ++ Service.Sample.address)) id]

end Sample

theorem keepsAsset_iff_plain :
    ∃ d t p, run (step id) (init (Sample.site "XLM") 0) Sample.created = some d ∧ p ∈ d.payments ∧
      run (step id) d Sample.plain = some t ∧
      ((∀ gs, gs <+: Sample.plain → ∀ u, run (step id) d gs = some u → u.KeepsAsset p) ↔
        Along (step id) (SparesNative p) d Sample.plain) := by
  have hconfig : validateAddresses (Sample.site "XLM").env.config = .ok () := by decide +kernel
  obtain ⟨d, hd, p, hp, hrun⟩ := exists_of_run (step id) (init (Sample.site "XLM") 0) Sample.created
    (P := fun d => ∃ p ∈ d.payments, (run (step id) d Sample.plain).isSome) (by decide +kernel)
  obtain ⟨t, ht⟩ := Option.isSome_iff_exists.mp hrun
  exact ⟨d, t, p, hd, hp, ht, keepsAsset_iff hconfig hd hp ht⟩

/-- An accepted `XLM:ISSUER` entry gives a native intent that issuer at the next start: the native
payment does not settle it any more, the issued one does. -/
theorem misnamed_changes_asset :
    ∃ d t p, run (step id) (init (Sample.site "XLM") 0) Sample.created = some d ∧ p ∈ d.payments ∧
      p.asset = "XLM" ∧ p.assetIssuer = none ∧ run (step id) d Sample.misnamed = some t ∧
      (verify p Sample.native 0).isSome ∧ verify p Sample.issued 0 = none ∧
      (∀ q ∈ t.payments, q.assetIssuer = some Service.Sample.address ∧
        verify q Sample.native 0 = none ∧ (verify q Sample.issued 0).isSome) ∧
      ¬ t.KeepsAsset p := by
  obtain ⟨d, hd, p, hp, hasset, hnone, hrun, hnative, hissued, hafter⟩ := exists_of_run (step id)
    (init (Sample.site "XLM") 0) Sample.created
    (P := fun d => ∃ p ∈ d.payments, p.asset = "XLM" ∧ p.assetIssuer = none ∧
      (run (step id) d Sample.misnamed).isSome ∧ (verify p Sample.native 0).isSome ∧
      verify p Sample.issued 0 = none ∧ ∀ t ∈ run (step id) d Sample.misnamed, ∀ q ∈ t.payments,
        q.assetIssuer = some Service.Sample.address ∧ verify q Sample.native 0 = none ∧
          (verify q Sample.issued 0).isSome) (by decide +kernel)
  obtain ⟨t, ht⟩ := Option.isSome_iff_exists.mp hrun
  refine ⟨d, t, p, hd, hp, hasset, hnone, ht, hnative, hissued, hafter t ht, ?_⟩
  rintro ⟨q, hq, -, hissuer, -⟩
  rw [(hafter t ht q hq).1, hnone] at hissuer
  cases hissuer

end Deployment
end StellarGate
