import StellarGate.Boot.FromEnv

/-! Which origins may read the answers of a process that has booted:
`build_cors` of `src/api/mod.rs`. -/
namespace StellarGate
open Base

/-- A `CorsLayer`: the origins that it allows, and the methods and the headers,
where they are not any. -/
structure CorsLayer where
  allowOrigin : String → Bool
  allowMethods : Option (List String)
  allowHeaders : Option (List String)
  exposeHeaders : Option (List String)

def CorsLayer.new : CorsLayer := ⟨fun _ => false, some [], some [], some []⟩

def CorsLayer.permissive : CorsLayer := ⟨fun _ => true, none, none, none⟩

namespace Boot
variable {IpNet : Type}

/-- `AllowOrigin::list` by its documentation: a list allows the origins on it, and one with the
wildcard makes it panic. -/
structure ListsOrigins (allowOriginList : List String → Except String (String → Bool)) : Prop where
  wildcard : ∀ origins, "*" ∈ origins → ∃ message, allowOriginList origins = .error message
  plain : ∀ origins, "*" ∉ origins → ∃ allows, allowOriginList origins = .ok allows ∧
    ∀ origin, allows origin = true ↔ origin ∈ origins

def originHeader (lib : BootLibrary IpNet) (origin : String) : Except String String :=
  match lib.headerValue origin with
  | .ok () => .ok origin
  | .error e =>
    .error ("BUG: unparseable CORS origin " ++ lib.debug origin ++ " reached build_cors: " ++ e)

/-- `build_cors`. An error is a panic. -/
def buildCors (lib : BootLibrary IpNet)
    (allowOriginList : List String → Except String (String → Bool)) (s : Settings IpNet) :
    Except String CorsLayer :=
  if s.corsAllowedOrigins = [] then
    if s.config.network = "public" then .ok .new else .ok .permissive
  else do
    let allowOrigins ← s.corsAllowedOrigins.mapM (originHeader lib)
    let allowOrigin ← allowOriginList allowOrigins
    return {
      allowOrigin
      allowMethods := some ["GET", "POST", "OPTIONS"]
      allowHeaders := some ["content-type", "authorization"]
      exposeHeaders := some ["retry-after", "x-ratelimit-limit", "x-ratelimit-remaining",
        "x-ratelimit-reset"] }

section
variable {lib : BootLibrary IpNet} {allowOriginList : List String → Except String (String → Bool)}
  {vars : String → Option String} {s : Settings IpNet}

theorem mapM_originHeader {origins : List String}
    (h : ∀ origin ∈ origins, lib.headerValue origin = .ok ()) :
    origins.mapM (originHeader lib) = .ok origins := by
  rw [mapM_eq_ok_iff]
  induction origins with
  | nil => exact .nil
  | cons origin origins ih =>
    obtain ⟨hfirst, hrest⟩ := List.forall_mem_cons.mp h
    refine .cons ?_ (ih hrest)
    unfold originHeader
    rw [hfirst]

/-- Origins are configured only where each of them can be: accepted settings stay so with
the wildcard among them. -/
theorem possible_wildcard (hstar : lib.headerValue "*" = .ok ()) (h : Possible lib s) :
    Possible lib { s with corsAllowedOrigins := "*" :: s.corsAllowedOrigins } := by
  have hentry : IsEntry "*" := ⟨by decide, by decide, by decide, by decide⟩
  have horigins := List.forall_mem_cons.mpr ⟨⟨hentry, hstar⟩, h.origins⟩
  exact ⟨h.words, h.integers, h.texts, h.attempts, h.secret, h.schemes, horigins,
    fun _ => List.cons_ne_nil _ _, h.codes, h.proxies, h.addressed, h.timed⟩

/-- An origin list with the wildcard makes `build_cors` panic. -/
theorem buildCors_wildcard (hlist : ListsOrigins allowOriginList) (h : Possible lib s)
    (hwildcard : "*" ∈ s.corsAllowedOrigins) :
    ∃ message, buildCors lib allowOriginList s = .error message := by
  obtain ⟨message, hpanic⟩ := hlist.wildcard _ hwildcard
  refine ⟨message, ?_⟩
  unfold buildCors
  rw [if_neg (List.ne_nil_of_mem hwildcard), mapM_originHeader fun origin horigin =>
    (h.origins origin horigin).2]
  show (allowOriginList s.corsAllowedOrigins >>= _ : Except String CorsLayer) = .error message
  rw [hpanic]
  rfl

/-- Without the wildcard, the origins on the list may read the answers, and any origin where there
is no list and the network is not the public one. -/
theorem buildCors_plain (hlist : ListsOrigins allowOriginList) (h : Possible lib s)
    (hwildcard : "*" ∉ s.corsAllowedOrigins) :
    ∃ layer, buildCors lib allowOriginList s = .ok layer ∧
      ∀ origin, layer.allowOrigin origin = true ↔
      origin ∈ s.corsAllowedOrigins ∨ s.corsAllowedOrigins = [] ∧ s.config.network ≠ "public" := by
  unfold buildCors
  by_cases hnone : s.corsAllowedOrigins = []
  · have hnetwork : s.config.network ≠ "public" := fun hpublic => h.guarded hpublic hnone
    rw [if_pos hnone, if_neg hnetwork]
    exact ⟨.permissive, rfl, fun origin => iff_of_true rfl (.inr ⟨hnone, hnetwork⟩)⟩
  · rw [if_neg hnone, mapM_originHeader fun origin horigin => (h.origins origin horigin).2]
    obtain ⟨allows, hallows, hexact⟩ := hlist.plain _ hwildcard
    show ∃ layer, (allowOriginList s.corsAllowedOrigins >>= _ : Except String CorsLayer) =
      .ok layer ∧ _
    rw [hallows]
    refine ⟨_, rfl, fun origin => (hexact origin).trans ?_⟩
    exact ⟨.inl, fun h => h.resolve_right fun hempty => hnone hempty.1⟩

/-- Once the settings are accepted, every origin that may read the answers is one of those
configured, but for a network that is not the public one where none is. The panic of `build_cors`
over an origin that is no header is out of reach. What remains is that over a wildcard: `from_env`
lets it through, beside whatever other settings it accepts. -/
theorem cors_of_boot (hlist : ListsOrigins allowOriginList) (hupper : Uppercases lib.toUppercase)
    (hstar : lib.headerValue "*" = .ok ()) {vars : Variables}
    (hboot : fromEnv lib vars.value = .ok s) :
    (match buildCors lib allowOriginList s with
    | .error _ => "*" ∈ s.corsAllowedOrigins
    | .ok layer => "*" ∉ s.corsAllowedOrigins ∧
        ∀ origin, layer.allowOrigin origin = true ↔
          origin ∈ s.corsAllowedOrigins ∨ s.corsAllowedOrigins = [] ∧ s.config.network ≠ "public") ∧
    let starred := { s with corsAllowedOrigins := "*" :: s.corsAllowedOrigins }
    (∃ vars' : Variables, fromEnv lib vars'.value = .ok starred) ∧
      ∃ message, buildCors lib allowOriginList starred = .error message := by
  have hpossible : Possible lib s := (fromEnv_eq_ok.mp hboot).possible hupper
  constructor
  · by_cases hwildcard : "*" ∈ s.corsAllowedOrigins
    · obtain ⟨message, hpanic⟩ := buildCors_wildcard hlist hpossible hwildcard
      rw [hpanic]
      exact hwildcard
    · obtain ⟨layer, hlayer, hexact⟩ := buildCors_plain hlist hpossible hwildcard
      rw [hlayer]
      exact ⟨hwildcard, hexact⟩
  · have hstarred := possible_wildcard hstar hpossible
    constructor
    · exact hstarred.boots hupper
    · exact buildCors_wildcard hlist hstarred List.mem_cons_self

end

namespace Sample

/-- `AllowOrigin::list`. -/
def allowOriginList (origins : List String) : Except String (String → Bool) :=
  if "*" ∈ origins then .error "Wildcard origin (`*`) cannot be passed to `AllowOrigin::list`"
  else .ok fun origin => origins.contains origin

theorem listsOrigins : ListsOrigins allowOriginList where
  wildcard _ h := ⟨_, if_pos h⟩
  plain _ h := ⟨_, if_neg h, fun _ => List.contains_iff_mem⟩

/-- Whether these origins may read the answers. -/
def allowed (origins : List String) : Except String (List Bool) :=
  (buildCors library allowOriginList settings).map fun layer => origins.map layer.allowOrigin

end Sample

/-- A public gateway with two origins. -/
theorem cors_of_boot_settings :
    Sample.allowed ["https://shop.example", "https://admin.example", "https://other.example"] =
      .ok [true, true, false] ∧
    (match buildCors Sample.library Sample.allowOriginList Sample.settings with
    | .error _ => "*" ∈ Sample.settings.corsAllowedOrigins
    | .ok layer => "*" ∉ Sample.settings.corsAllowedOrigins ∧
        ∀ origin, layer.allowOrigin origin = true ↔ origin ∈ Sample.settings.corsAllowedOrigins ∨
          Sample.settings.corsAllowedOrigins = [] ∧ Sample.settings.config.network ≠ "public") ∧
    let starred :=
      { Sample.settings with corsAllowedOrigins := "*" :: Sample.settings.corsAllowedOrigins }
    (∃ vars' : Variables, fromEnv Sample.library vars'.value = .ok starred) ∧
      ∃ message, buildCors Sample.library Sample.allowOriginList starred = .error message := by
  have hstar : Sample.library.headerValue "*" = .ok () := by decide
  constructor
  · decide +kernel
  · exact cors_of_boot Sample.listsOrigins uppercases_asciiUpper hstar Sample.fromEnv_publicGateway

end Boot
end StellarGate
