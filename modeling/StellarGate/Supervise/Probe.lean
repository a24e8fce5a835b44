import Mathlib.Data.List.Sort
import Mathlib.Data.String.Basic
import StellarGate.Supervise.Statements

/-! The liveness probe: `TaskHealth::snapshot` of `src/lib.rs` and `health` of `src/api/mod.rs`, on
a fleet that goes on between its reads. -/
namespace StellarGate

structure TaskSnapshot where
  name : String
  running : Bool
  restarts : UInt64
  consecutiveFailures : UInt32
  disabledReason : Option String
  deriving DecidableEq, Repr

namespace TaskHealth

/-- `keys` lists the keys of the four maps, one after the other, in the orders of the maps. -/
def Keys (h : TaskHealth) (keys : List String) : Prop :=
  ∀ name, name ∈ keys ↔
    ((h.running name).isSome ∨ (h.restarts name).isSome) ∨
      (h.consecutiveFailures name).isSome ∨ (h.disabled name).isSome

/-- The names that `snapshot` gathers, before they are sorted. -/
def snapshotNames (h : TaskHealth) (keys : List String) : List String :=
  keys.foldl (fun names name => if names.contains name then names else names ++ [name]) h.required

def taskSnapshot (h : TaskHealth) (name : String) : TaskSnapshot :=
  ⟨name, (h.running name).getD false, h.restartsOf name, h.consecutiveFailuresOf name,
    h.disabled name⟩

def snapshot (h : TaskHealth) (keys : List String) : List TaskSnapshot :=
  ((h.snapshotNames keys).mergeSort (· ≤ ·)).map h.taskSnapshot

section
variable {h : TaskHealth} {keys : List String}

theorem mem_foldl_contains {names : List String} {name : String} :
    name ∈ keys.foldl (fun names name => if names.contains name then names else names ++ [name])
      names ↔
      name ∈ names ∨ name ∈ keys := by
  induction keys generalizing names with
  | nil => simp
  | cons key keys ih =>
    rw [List.foldl_cons, ih, List.mem_cons]
    split_ifs with hold
    · have hkey : key ∈ names := List.contains_iff_mem.mp hold
      constructor
      · rintro (hn | hk)
        · exact .inl hn
        · exact .inr (.inr hk)
      · rintro (hn | rfl | hk)
        · exact .inl hn
        · exact .inl hkey
        · exact .inr hk
    · rw [List.mem_append, List.mem_singleton, or_assoc]

theorem nodup_foldl_contains {names : List String} (hn : names.Nodup) :
    (keys.foldl (fun names name => if names.contains name then names else names ++ [name])
      names).Nodup := by
  induction keys generalizing names with
  | nil => exact hn
  | cons key keys ih =>
    rw [List.foldl_cons]
    split_ifs with hold
    · exact ih hn
    · have hnew : key ∉ names := fun hmem => hold (List.contains_iff_mem.mpr hmem)
      apply ih
      apply List.nodup_append.mpr
      refine ⟨hn, List.nodup_singleton key, fun a ha b hb => ?_⟩
      rw [List.mem_singleton.mp hb]
      exact ne_of_mem_of_not_mem ha hnew

theorem snapshot_sorted (hn : h.required.Nodup) (keys : List String) :
    ((h.snapshot keys).map TaskSnapshot.name).Pairwise (· < ·) := by
  have hsame : (h.snapshot keys).map TaskSnapshot.name = (h.snapshotNames keys).mergeSort
      (· ≤ ·) := by
    unfold snapshot
    rw [List.map_map]
    exact List.map_id _
  have hsorted := List.pairwise_mergeSort' (r := (· ≤ ·)) (h.snapshotNames keys)
  have hnodup : ((h.snapshotNames keys).mergeSort (· ≤ ·)).Nodup :=
    (List.mergeSort_perm _ _).nodup_iff.mpr (nodup_foldl_contains hn)
  rw [hsame]
  exact (hsorted.and hnodup).imp fun hle => lt_of_le_of_ne hle.1 hle.2

theorem mem_snapshot {t : TaskSnapshot} : t ∈ h.snapshot keys ↔
    ∃ name, (name ∈ h.required ∨ name ∈ keys) ∧ h.taskSnapshot name = t := by
  unfold snapshot snapshotNames
  simp only [List.mem_map, List.mem_mergeSort, mem_foldl_contains]

end
end TaskHealth

/-- The answer of `/health`. -/
structure HealthAnswer where
  code : ℕ
  status : String
  reason : Option String
  expected : ℕ
  live : ℕ
  disabled : List (String × String)
  deriving DecidableEq, Repr

/-- What each of the five reads of `health` sees, and the keys in the orders of
the maps at the last. -/
structure HealthReads where
  dead : TaskHealth
  looping : TaskHealth
  expected : TaskHealth
  live : TaskHealth
  snapshot : TaskHealth
  keys : List String

/-- What is wrong, where something is. -/
def healthReason (dead looping : List String) : String :=
  "; ".intercalate <|
    (if dead.isEmpty then [] else ["background task(s) not running: " ++ ", ".intercalate dead]) ++
      if looping.isEmpty then []
      else ["background task(s) crash-looping: " ++ ", ".intercalate looping]

def health (r : HealthReads) : HealthAnswer :=
  let dead := r.dead.deadRequiredTasks
  let looping := r.looping.crashLoopingRequiredTasks
  let expected := r.expected.expectedTasks
  let live := r.live.liveTasks
  let disabled := (r.snapshot.snapshot r.keys).filterMap fun s => s.disabledReason.map (s.name, ·)
  if dead.isEmpty && looping.isEmpty then ⟨200, "ok", none, expected, live, disabled⟩
  else ⟨503, "unavailable", some (healthReason dead looping), expected, live, disabled⟩

theorem health_code (r : HealthReads) :
    (health r).code = 200 ↔
      r.dead.deadRequiredTasks = [] ∧ r.looping.crashLoopingRequiredTasks = [] := by
  unfold health
  simp only [Bool.and_eq_true, List.isEmpty_iff]
  by_cases hok : r.dead.deadRequiredTasks = [] ∧ r.looping.crashLoopingRequiredTasks = []
  · rw [if_pos hok]
    exact iff_of_true rfl hok
  · rw [if_neg hok]
    exact iff_of_false (fun hcode => absurd hcode (by simp)) hok

theorem health_counts (r : HealthReads) :
    (health r).expected = r.expected.expectedTasks ∧ (health r).live = r.live.liveTasks ∧
      (health r).disabled = (r.snapshot.snapshot r.keys).filterMap fun s => s.disabledReason.map
      (s.name, ·) := by
  unfold health
  simp only
  split_ifs <;> exact ⟨rfl, rfl, rfl⟩

namespace TaskHealth
variable {h : TaskHealth} {keys : List String}

theorem mem_disabled (hk : h.Keys keys) (name reason : String) :
    (name, reason) ∈ ((h.snapshot keys).filterMap fun s => s.disabledReason.map (s.name, ·)) ↔
      h.disabled name = some reason := by
  simp only [List.mem_filterMap, Option.map_eq_some_iff, Prod.mk.injEq]
  constructor
  · rintro ⟨t, ht, r, hr, rfl, rfl⟩
    obtain ⟨name, -, rfl⟩ := mem_snapshot.mp ht
    exact hr
  · intro hd
    have hkey : name ∈ keys := (hk name).mpr (.inr (.inr (by rw [hd]; rfl)))
    exact ⟨h.taskSnapshot name, mem_snapshot.mpr ⟨name, .inr hkey, rfl⟩, reason, hd, rfl, rfl⟩

theorem sorted_disabled (hn : h.required.Nodup) (keys : List String) :
    (((h.snapshot keys).filterMap fun s => s.disabledReason.map (s.name, ·)).map Prod.fst).Pairwise
    (· < ·) := by
  have hsorted := snapshot_sorted hn keys
  rw [List.pairwise_map] at hsorted
  rw [List.pairwise_map, List.pairwise_filterMap]
  refine hsorted.imp fun {s t} hlt => ?_
  simp only [Option.map_eq_some_iff, forall_exists_index, and_imp]
  rintro _ r - rfl _ r' - rfl
  exact hlt

end TaskHealth

namespace Supervise
namespace Process
open Base
open Fleet (required spawned nodup_required mem_spawned_of_required)

section
variable {config : Config} {delivery : DeliveryConfig} {mode : ListenerMode} {p q : Process}
  {m : Member}

theorem Booted.disabled_isNone (hp : Booted config delivery mode p) (hm : m ∈ p.fleet.members) :
    (p.fleet.health.disabled m.name).isNone = !p.off m := by
  have htells : ∀ reason, _ ↔ _ := hp.tells hm .disabled
  cases hoff : p.off m with
  | true =>
    obtain ⟨reason, hmem⟩ := switchedOff_iff.mp hoff
    rw [(htells reason).mpr hmem]
    rfl
  | false =>
    cases hd : p.fleet.health.disabled m.name with
    | none => rfl
    | some reason =>
      have hon : p.off m = true := switchedOff_iff.mpr ⟨reason, (htells reason).mp hd⟩
      exact absurd hon (by rw [hoff]; exact Bool.false_ne_true)

theorem Booted.forall_required (hp : Booted config delivery mode p) {P : String → Prop} :
    (∀ name ∈ required config mode, P name) ↔
      ∀ m ∈ p.fleet.members, m.name ∈ required config mode → P m.name := by
  constructor
  · intro h m _ hm
    exact h m.name hm
  · intro h name hname
    have hmem := mem_spawned_of_required delivery hname
    rw [← hp.declared.names] at hmem
    obtain ⟨m, hm, rfl⟩ := List.mem_map.mp hmem
    exact h m hm hname

theorem Booted.length_filter_required (hp : Booted config delivery mode p) (P : String → Bool) :
    ((required config mode).filter P).length =
      p.fleet.members.countP fun m => decide (m.name ∈ required config mode) && P m.name := by
  have hperm : ((required config mode).filter P).Perm
      ((p.fleet.members.map Member.name).filter fun name =>
        decide (name ∈ required config mode) && P name) := by
    rw [List.perm_ext_iff_of_nodup ((nodup_required config mode).filter P)
      (List.Nodup.filter _ hp.named)]
    intro name
    simp only [List.mem_filter, Bool.and_eq_true, decide_eq_true_eq]
    constructor
    · rintro ⟨hname, hp'⟩
      refine ⟨?_, hname, hp'⟩
      rw [hp.declared.names]
      exact mem_spawned_of_required delivery hname
    · rintro ⟨-, hname, hp'⟩
      exact ⟨hname, hp'⟩
  rw [hperm.length_eq, ← List.countP_eq_length_filter, List.countP_map]
  rfl

/-- What an answer of `/health` tells, where its reads fall into five moments of a run. -/
structure Truthful (needed : List String) (p₁ p₂ p₃ p₄ p₅ : Process) (a : HealthAnswer) : Prop where
  code : a.code = 200 ↔
    (∀ m ∈ p₁.fleet.members, m.name ∈ needed → p₁.marked m = true ∨ p₁.off m = true) ∧
      ∀ m ∈ p₂.fleet.members, m.name ∈ needed → p₂.panics m % 2 ^ 32 < 3
  /-- No task that runs is taken for dead. -/
  alive : ∀ m ∈ p₁.fleet.members, .running ∈ m.workers.map Worker.child → p₁.marked m = true
  expected : a.expected = p₃.fleet.members.countP fun m => decide (m.name ∈ needed) && !p₃.off m
  live : a.live =
    p₄.fleet.members.countP fun m => decide (m.name ∈ needed) && (!p₄.off m && p₄.marked m)
  live_le : a.live ≤ a.expected
  disabled : ∀ name reason, (name, reason) ∈ a.disabled ↔
    ∃ m ∈ p₅.fleet.members, m.name = name ∧
    .handled (.disabledByConfig reason) ∈ (p₅.stood .disabled m).2
  sorted : (a.disabled.map Prod.fst).Pairwise (· < ·)

theorem disabled_of_step {e : ProcessEvent} (h : p.step e = some q) {name : String}
    (hon : q.fleet.health.disabled name = none) : p.fleet.health.disabled name = none := by
  cases e with
  | fleet e =>
    obtain ⟨-, f, -, rfl⟩ := step_fleet h
    exact hon
  | states i =>
    obtain ⟨m, w, ws, -, -, rfl⟩ := step_states h
    by_cases hne : name = m.name
    · subst hne
      cases w with
      | disables reason => simp [TaskHealth.write] at hon
      | _ => exact hon
    · exact (TaskHealth.sameEntries_write hne p.fleet.health w).disabled.symm.trans hon

theorem expectedTasks_le (hp : Booted config delivery mode p) (hr : ∃ es, run step p es = some q) :
    q.fleet.health.expectedTasks ≤ p.fleet.health.expectedTasks := by
  have hq := hp.later hr
  obtain ⟨es, hes⟩ := hr
  have hon : ∀ name, q.fleet.health.disabled name = none → p.fleet.health.disabled name = none :=
    run_relation (I := fun _ => True) (R := fun p q : Process => ∀ name,
      q.fleet.health.disabled name = none → p.fleet.health.disabled name = none) (fun _ _ h => h)
      (fun _ _ _ h h' name hn => h name (h' name hn))
      (fun p e q hstep _ => ⟨fun name hn => disabled_of_step hstep hn, trivial⟩) hes trivial
  unfold TaskHealth.expectedTasks
  rw [hq.declared.required, hp.declared.required]
  apply List.Sublist.length_le
  apply List.monotone_filter_right
  intro name hname
  rw [Option.isNone_iff_eq_none] at hname ⊢
  exact hon name hname

/-- No required task counts as dead where all are marked running or switched off. -/
theorem Booted.dead_eq_nil (hp : Booted config delivery mode p) :
    p.fleet.health.deadRequiredTasks = [] ↔
    ∀ m ∈ p.fleet.members, m.name ∈ required config mode → p.marked m = true ∨ p.off m = true := by
  have hall : p.fleet.health.deadRequiredTasks = [] ↔ ∀ name ∈ required config mode,
      p.fleet.health.running name = some true ∨ (p.fleet.health.disabled name).isNone = false := by
    rw [List.eq_nil_iff_forall_not_mem]
    simp only [TaskHealth.mem_deadRequiredTasks, TaskHealth.disabledReason, hp.declared.required]
    refine forall_congr' fun name => ?_
    cases p.fleet.health.disabled name <;> simp
  rw [hall, hp.forall_required]
  refine forall₂_congr fun m hm => forall_congr' fun _ => ?_
  have hrunning : _ ↔ p.marked m = true := hp.tells hm .running
  rw [hrunning, hp.disabled_isNone hm, Bool.not_eq_eq_eq_not, Bool.not_false]

theorem Booted.looping_eq_nil (hp : Booted config delivery mode p) :
    p.fleet.health.crashLoopingRequiredTasks = [] ↔
      ∀ m ∈ p.fleet.members, m.name ∈ required config mode → p.panics m % 2 ^ 32 < 3 := by
  have hall : p.fleet.health.crashLoopingRequiredTasks = [] ↔ ∀ name ∈ required config mode,
      (p.fleet.health.consecutiveFailuresOf name).toNat < 3 := by
    rw [List.eq_nil_iff_forall_not_mem]
    simp only [TaskHealth.mem_crashLoopingRequiredTasks, hp.declared.required, not_and]
    exact forall₂_congr fun name _ => UInt32.not_le.trans UInt32.lt_iff_toNat_lt
  rw [hall, hp.forall_required]
  refine forall₂_congr fun m hm => forall_congr' fun _ => ?_
  have hcount : _ = p.panics m % 2 ^ 32 := hp.tells hm .consecutiveFailures
  rw [hcount]

theorem Booted.expectedTasks_eq (hp : Booted config delivery mode p) :
    p.fleet.health.expectedTasks = p.fleet.members.countP fun m =>
      decide (m.name ∈ required config mode) && !p.off m := by
  unfold TaskHealth.expectedTasks
  rw [hp.declared.required, hp.length_filter_required]
  refine List.countP_congr fun m hm => ?_
  rw [hp.disabled_isNone hm]

theorem Booted.liveTasks_eq (hp : Booted config delivery mode p) : p.fleet.health.liveTasks =
    p.fleet.members.countP fun m =>
      decide (m.name ∈ required config mode) && (!p.off m && p.marked m) := by
  unfold TaskHealth.liveTasks
  rw [hp.declared.required, List.filter_filter, hp.length_filter_required]
  refine List.countP_congr fun m hm => ?_
  have hrunning : _ ↔ p.marked m = true := hp.tells hm .running
  rw [hp.disabled_isNone hm]
  simp only [Bool.and_eq_true, beq_iff_eq, hrunning]
  tauto

theorem Booted.mem_disabled (hp : Booted config delivery mode p) (name reason : String) :
    p.fleet.health.disabled name = some reason ↔
      ∃ m ∈ p.fleet.members, m.name = name ∧
        .handled (.disabledByConfig reason) ∈ (p.stood .disabled m).2 := by
  constructor
  · intro hd
    have hmem : name ∈ (spawned config delivery mode).map Member.name := by
      by_contra hno
      rw [hp.declared.disabled name hno] at hd
      cases hd
    rw [← hp.declared.names] at hmem
    obtain ⟨m, hm, rfl⟩ := List.mem_map.mp hmem
    have htells : ∀ reason, _ ↔ _ := hp.tells hm .disabled
    exact ⟨m, hm, rfl, (htells reason).mp hd⟩
  · rintro ⟨m, hm, rfl, hmem⟩
    have htells : ∀ reason, _ ↔ _ := hp.tells hm .disabled
    exact (htells reason).mpr hmem

/-- However the process goes on between the reads, and between the statements of its supervisors,
the answer tells the truth about the moment of each. -/
theorem health_truthful {p₁ p₂ p₃ p₄ p₅ : Process} {keys : List String}
    (h₁ : Booted config delivery mode p₁) (h₂ : ∃ es, run step p₁ es = some p₂)
    (h₃ : ∃ es, run step p₂ es = some p₃) (h₄ : ∃ es, run step p₃ es = some p₄)
    (h₅ : ∃ es, run step p₄ es = some p₅) (hkeys : p₅.fleet.health.Keys keys) :
    Truthful (required config mode) p₁ p₂ p₃ p₄ p₅ (StellarGate.health
      ⟨p₁.fleet.health, p₂.fleet.health, p₃.fleet.health, p₄.fleet.health, p₅.fleet.health,
        keys⟩) := by
  have hb₂ := h₁.later h₂
  have hb₃ := hb₂.later h₃
  have hb₄ := hb₃.later h₄
  have hb₅ := hb₄.later h₅
  obtain ⟨hexpected, hlive, hdisabled⟩ := health_counts
    ⟨p₁.fleet.health, p₂.fleet.health, p₃.fleet.health, p₄.fleet.health, p₅.fleet.health, keys⟩
  simp only at hexpected hlive hdisabled
  constructor
  · rw [health_code]
    exact and_congr h₁.dead_eq_nil hb₂.looping_eq_nil
  · exact fun m hm => h₁.marked_of_running hm
  · rw [hexpected, hb₃.expectedTasks_eq]
  · rw [hlive, hb₄.liveTasks_eq]
  · rw [hexpected, hlive]
    have hsplit := TaskHealth.liveTasks_add_dead p₄.fleet.health
    have hle := expectedTasks_le hb₃ h₄
    omega
  · intro name reason
    rw [hdisabled, TaskHealth.mem_disabled hkeys, hb₅.mem_disabled]
  · rw [hdisabled]
    apply TaskHealth.sorted_disabled
    rw [hb₅.declared.required]
    exact nodup_required config mode

end

namespace Sample

def withoutGateway : Config := ⟨"testnet", "UNCONFIGURED", [⟨"XLM", none⟩], 3, ["https"], 3600, 100⟩

/-- No retention window is set. -/
def keepsAll : DeliveryConfig := ⟨8, 60, 30, 900, 30, 4, 0, 0⟩

def spawns (i : ℕ) : List ProcessEvent := [.fleet (.poll i), .states i, .states i, .fleet (.poll i)]

/-- The tasks that are required have been spawned, the retention worker has nothing to do, and its
supervisor has taken back the mark of the task but not stated yet that it is switched off. -/
def withdraws : List ProcessEvent :=
  spawns 1 ++ spawns 3 ++ spawns 2 ++
    [.fleet (.work 2 0 (.begins none)), .fleet (.poll 2), .fleet (.poll 2), .states 2, .states 2]

end Sample

/-- The probe that reads the tasks not running just then: the task is found to be dead, and later
neither expected nor missed. -/
theorem health_truthful_withdraws : ∃ p₁ p₂ p₃ p₄ p₅,
    run step (boot Sample.withoutGateway Sample.keepsAll .poll) Sample.withdraws = some p₁ ∧
      run step p₁ [.fleet (.work 1 0 (.begins none))] = some p₂ ∧
      run step p₂ [.states 2] = some p₃ ∧
      run step p₃ [.fleet (.poll 0)] = some p₄ ∧ run step p₄ [.states 0, .states 0] = some p₅ ∧
      ∃ a, Truthful ["sweeper", "retention", "redrive"] p₁ p₂ p₃ p₄ p₅ a ∧
        a.code = 503 ∧ a.expected = 2 ∧ a.live = 2 := by
  obtain ⟨p₁, p₂, p₃, p₄, p₅, h₁, h₂, h₃, h₄, h₅, hkeys, hdead, hexpected, hlive⟩ :
      ∃ p₁ p₂ p₃ p₄ p₅,
      run step (boot Sample.withoutGateway Sample.keepsAll .poll) Sample.withdraws = some p₁ ∧
      run step p₁ [.fleet (.work 1 0 (.begins none))] = some p₂ ∧
      run step p₂ [.states 2] = some p₃ ∧
      run step p₃ [.fleet (.poll 0)] = some p₄ ∧ run step p₄ [.states 0, .states 0] = some p₅ ∧
      p₅.fleet.health.Keys ["sweeper", "retention", "redrive", "poller"] ∧
      p₁.fleet.health.deadRequiredTasks = ["retention"] ∧
      p₃.fleet.health.expectedTasks = 2 ∧ p₄.fleet.health.liveTasks = 2 := by
    refine ⟨_, _, _, _, _, rfl, rfl, rfl, rfl, rfl, fun name => ?_, ?_, ?_, ?_⟩
    · show _ ↔
        ((Function.update (Function.update (Function.update (Function.update (Function.update
            (fun _ => none) "sweeper" (some true)) "redrive" (some true)) "retention" (some true))
            "retention" (some false)) "poller" (some true) name).isSome ∨
          (none : Option UInt64).isSome) ∨
        (none : Option UInt32).isSome ∨
          (Function.update (fun _ => none) "retention" (some _) name).isSome
      simp only [Function.update_apply]
      by_cases h₁ : name = "sweeper" <;> by_cases h₂ : name = "redrive" <;>
        by_cases h₃ : name = "retention" <;> by_cases h₄ : name = "poller" <;>
          simp [h₁, h₂, h₃, h₄]
    · decide +kernel
    · decide +kernel
    · decide +kernel
  have htruthful := health_truthful ⟨_, h₁⟩ ⟨_, h₂⟩ ⟨_, h₃⟩ ⟨_, h₄⟩ ⟨_, h₅⟩ hkeys
  obtain ⟨hcount, hcount', -⟩ := health_counts
    ⟨p₁.fleet.health, p₂.fleet.health, p₃.fleet.health, p₄.fleet.health, p₅.fleet.health,
      ["sweeper", "retention", "redrive", "poller"]⟩
  refine ⟨p₁, p₂, p₃, p₄, p₅, h₁, h₂, h₃, h₄, h₅, _, htruthful, ?_, hcount.trans hexpected,
    hcount'.trans hlive⟩
  unfold StellarGate.health
  rw [hdead]
  rfl

end Process
end Supervise
end StellarGate
