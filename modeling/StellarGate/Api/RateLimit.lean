import StellarGate.Api.ClientIp

/-! The router of `src/api/mod.rs` and the rate limiter in front of it: the buckets requests fall
into, under either mount of the API. -/
namespace StellarGate

inductive Segment where
  | static (name : String)
  | param
  deriving DecidableEq, Repr

def Segment.accepts : Segment → List Char → Bool
  | .static name, text => text = name.toList
  | .param, text => text ≠ []

structure Route where
  method : Method
  path : List Segment
  deriving DecidableEq, Repr

namespace Route

def acceptsAll : List Segment → List (List Char) → Bool
  | [], [] => true
  | s :: path, text :: texts => s.accepts text && acceptsAll path texts
  | _, _ => false

/-- The route serves the path: it starts with `/`, and its segments are those of the route. -/
def serves (r : Route) (method : Method) (path : String) : Bool :=
  r.method = method &&
    match path.toList.splitOn '/' with
    | [] :: texts => acceptsAll r.path texts
    | _ => false

def nest (mount : String) (routes : List Route) : List Route :=
  routes.map fun r => { r with path := .static mount :: r.path }

end Route

namespace RateLimit
open Route

/-! `api_v1` and its mounts. -/

def merchants : List Route := [
  ⟨.post, []⟩,
  ⟨.post, [.param, .static "keys"]⟩,
  ⟨.get, [.param, .static "keys"]⟩,
  ⟨.delete, [.param, .static "keys", .param]⟩]

def paymentsAuthed : List Route := [
  ⟨.post, []⟩,
  ⟨.get, []⟩,
  ⟨.get, [.static "webhooks"]⟩,
  ⟨.post, [.static "webhooks", .static "redeliver"]⟩,
  ⟨.get, [.param, .static "webhooks"]⟩,
  ⟨.post, [.param, .static "webhooks", .param, .static "redeliver"]⟩]

def apiV1 : List Route :=
  nest "merchants" merchants ++ nest "payments" (paymentsAuthed ++ [⟨.get, [.param]⟩])

def served (routes : List Route) (method : Method) (path : String) : Bool :=
  routes.any fun r => r.serves method path

/-- The route of `issue_api_key`. -/
def issueApiKey : Route := ⟨.post, [.static "merchants", .param, .static "keys"]⟩

/-! The limiter. -/

def u32Max : ℕ := 4294967295

def rateLimitedBucket (req : HttpRequest) : Option String :=
  let path := req.path
  if req.method = .post then
    if path = "/payments" then some "payments"
    else if path = "/merchants" then some "merchants"
    else if "/payments/".toList.isPrefixOf path.toList &&
    "/redeliver".toList.isSuffixOf path.toList then
      some "redeliver"
    else some "default"
  else some "default"

def bucketRateMultiplier (bucket : String) : ℕ :=
  if bucket = "payments" ∨ bucket = "merchants" ∨ bucket = "redeliver" then 1 else 5

section
variable {IpNet : Type} (contains : IpNet → IpAddr → Bool) (trustedProxies : List IpNet)

def rateLimitKey (bucket : String) (req : HttpRequest) : String :=
  bucket ++ ":" ++ ClientIp.clientIpKey contains trustedProxies req

/-- The quota of a bucket: `saturating_mul`, over the base that
`RateLimitState::new` has made positive. -/
def effectiveRps (requestsPerSec : ℕ) (bucket : String) : ℕ :=
  max (min (max requestsPerSec 1 * bucketRateMultiplier bucket) u32Max) 1

/-- What `rate_limit_middleware` limits a request by: the key of its limiter and the quota. -/
def limited (requestsPerSec : ℕ) (req : HttpRequest) : Option (String × ℕ) :=
  (rateLimitedBucket req).map fun bucket =>
    (rateLimitKey contains trustedProxies bucket req, effectiveRps requestsPerSec bucket)

end

section
variable {p : String} {texts : List (List Char)} {path : List Segment} {req : HttpRequest}

theorem acceptsAll_nil : acceptsAll [] texts = true ↔ texts = [] := by
  cases texts <;> simp [acceptsAll]

theorem acceptsAll_cons {s : Segment} :
    acceptsAll (s :: path) texts = true ↔
      ∃ text rest, texts = text :: rest ∧ s.accepts text = true ∧ acceptsAll path rest = true := by
  cases texts with
  | nil => simp [acceptsAll]
  | cons text rest => simp [acceptsAll]

theorem accepts_static {name : String} {text : List Char} :
    (Segment.static name).accepts text = true ↔ text = name.toList := decide_eq_true_iff

/-- A path that is served starts with `/`; the rest is cut into the segments of the route. -/
theorem serves_iff {r : Route} {method : Method} (hne : r.path ≠ []) :
    r.serves method p = true ↔
      r.method = method ∧ ∃ rest, p.toList = '/' :: rest ∧
      acceptsAll r.path (rest.splitOn '/') = true := by
  unfold serves
  rw [Bool.and_eq_true, decide_eq_true_eq]
  apply and_congr_right
  intro _
  cases hp : p.toList with
  | nil =>
    have hnil : acceptsAll r.path [] = false := by
      cases hr : r.path with
      | nil => exact absurd hr hne
      | cons s path => rfl
    rw [List.splitOn_nil]
    simp [hnil]
  | cons c rest =>
    rw [List.splitOn_cons_eq_if_modifyHead]
    split_ifs with hc
    · rw [eq_of_beq hc]
      simp
    · have hcne : c ≠ '/' := by simpa using hc
      cases hrest : rest.splitOn '/' with
      | nil => exact absurd hrest (List.splitOn_ne_nil '/' rest)
      | cons first more =>
        rw [List.modifyHead_cons]
        simp [hcne]

theorem path_ne_nil : ∀ r ∈ apiV1, r.path ≠ [] := by decide

theorem served_v1 {method : Method} (h : served apiV1 method p = true) :
    served (nest "v1" apiV1) method ("/v1" ++ p) = true := by
  obtain ⟨r, hr, hserves⟩ := List.any_eq_true.mp h
  have hne := path_ne_nil r hr
  obtain ⟨hm, rest, hp, haccepts⟩ := (serves_iff hne).mp hserves
  have hsplit : ("v1".toList ++ '/' :: rest).splitOn '/' = "v1".toList :: rest.splitOn '/' :=
    List.splitOn_append_cons_self_of_not_mem (by decide) rest
  refine List.any_eq_true.mpr ⟨_, List.mem_map_of_mem hr, ?_⟩
  refine (serves_iff (List.cons_ne_nil _ _)).mpr ⟨hm, "v1".toList ++ '/' :: rest, ?_, ?_⟩
  · rw [String.toList_append, hp]
    rfl
  · rw [hsplit]
    exact acceptsAll_cons.mpr ⟨_, _, rfl, accepts_static.mpr rfl, haccepts⟩

/-- The four kinds of paths that are served to a POST. -/
theorem post_cases (h : served apiV1 .post p = true) :
    p = "/payments" ∨ p = "/merchants" ∨ issueApiKey.serves .post p = true ∨
      ("/payments/".toList <+: p.toList ∧ "/redeliver".toList <:+ p.toList) := by
  obtain ⟨r, hr, hserves⟩ := List.any_eq_true.mp h
  have hne := path_ne_nil r hr
  have hpost : r ∈ apiV1.filter fun r => r.method = .post := by
    rw [List.mem_filter, decide_eq_true_eq]
    exact ⟨hr, ((serves_iff hne).mp hserves).1⟩
  obtain ⟨-, rest, hp, haccepts⟩ := (serves_iff hne).mp hserves
  have hjoin : p.toList = '/' :: ['/'].intercalate (rest.splitOn '/') := by
    rw [List.intercalate_splitOn, hp]
  have hroutes : apiV1.filter (fun r => r.method = .post) = [
      ⟨.post, [.static "merchants"]⟩, issueApiKey, ⟨.post, [.static "payments"]⟩,
      ⟨.post, [.static "payments", .static "webhooks", .static "redeliver"]⟩,
      ⟨.post, [.static "payments", .param, .static "webhooks", .param, .static "redeliver"]⟩] := by
      decide
  rw [hroutes] at hpost
  simp only [List.mem_cons, List.not_mem_nil, or_false] at hpost
  obtain rfl | rfl | rfl | rfl | rfl := hpost
  · simp only [acceptsAll_cons, acceptsAll_nil, accepts_static] at haccepts
    obtain ⟨_, _, hsplit, rfl, rfl⟩ := haccepts
    rw [hsplit] at hjoin
    exact .inr (.inl (String.toList_inj.mp hjoin))
  · exact .inr (.inr (.inl hserves))
  · simp only [acceptsAll_cons, acceptsAll_nil, accepts_static] at haccepts
    obtain ⟨_, _, hsplit, rfl, rfl⟩ := haccepts
    rw [hsplit] at hjoin
    exact .inl (String.toList_inj.mp hjoin)
  · simp only [acceptsAll_cons, acceptsAll_nil, accepts_static] at haccepts
    obtain ⟨_, _, hsplit, rfl, _, _, rfl, rfl, _, _, rfl, rfl, rfl⟩ := haccepts
    rw [hsplit] at hjoin
    rw [hjoin]
    exact .inr (.inr (.inr (by decide)))
  · simp only [acceptsAll_cons, acceptsAll_nil, accepts_static] at haccepts
    obtain ⟨_, _, hsplit, rfl, id, _, rfl, -, _, _, rfl, rfl, delivery, _, rfl, -, _, _, rfl,
      rfl, rfl⟩ :=
      haccepts
    rw [hsplit] at hjoin
    rw [hjoin]
    refine .inr (.inr (.inr ⟨⟨id ++ "/webhooks/".toList ++ delivery ++ "/redeliver".toList, ?_⟩,
      ⟨"/payments/".toList ++ id ++ "/webhooks/".toList ++ delivery, ?_⟩⟩)) <;>
      simp [List.intercalate]

theorem rateLimitedBucket_of_issueApiKey (hm : req.method = .post)
    (h : issueApiKey.serves .post req.path = true) : rateLimitedBucket req = some "default" := by
  obtain ⟨-, rest, hp, haccepts⟩ := (serves_iff (List.cons_ne_nil _ _)).mp h
  have hpayments : req.path ≠ "/payments" := by
    intro heq
    rw [heq] at h
    exact absurd h (by decide)
  have hmerchants : req.path ≠ "/merchants" := by
    intro heq
    rw [heq] at h
    exact absurd h (by decide)
  have hjoin : req.path.toList = '/' :: ['/'].intercalate (rest.splitOn '/') := by
    rw [List.intercalate_splitOn, hp]
  have hstarts : "/payments/".toList.isPrefixOf req.path.toList = false := by
    unfold issueApiKey at haccepts
    simp only [acceptsAll_cons, acceptsAll_nil, accepts_static] at haccepts
    obtain ⟨_, _, hsplit, rfl, id, _, rfl, -, _, _, rfl, rfl, rfl⟩ := haccepts
    rw [hjoin, hsplit]
    rfl
  unfold rateLimitedBucket
  simp only [if_pos hm, if_neg hpayments, if_neg hmerchants, hstarts, Bool.false_and,
    Bool.false_eq_true, if_false]

/-- The raw path of the other mount fits no named bucket. -/
theorem rateLimitedBucket_v1 (h : req.path = "/v1" ++ p) :
    rateLimitedBucket req = some "default" := by
  have hlist : req.path.toList = '/' :: 'v' :: '1' :: p.toList := by
    rw [h, String.toList_append]
    rfl
  have hpayments : req.path ≠ "/payments" := by
    intro heq
    rw [heq] at hlist
    exact absurd (congrArg (·.take 2) hlist) (by simp)
  have hmerchants : req.path ≠ "/merchants" := by
    intro heq
    rw [heq] at hlist
    exact absurd (congrArg (·.take 2) hlist) (by simp)
  have hstarts : "/payments/".toList.isPrefixOf req.path.toList = false := by
    rw [hlist]
    rfl
  unfold rateLimitedBucket
  simp only [if_neg hpayments, if_neg hmerchants, hstarts, Bool.false_and,
    Bool.false_eq_true, if_false, ite_self]

/-- Both mounts share a bucket, a limiter and a quota exactly where the unprefixed path has no
bucket of its own: on the route that issues API keys. -/
theorem mounts_share_quota_iff {IpNet : Type} (contains : IpNet → IpAddr → Bool)
    (trustedProxies : List IpNet) (requestsPerSec : ℕ) (headers : List (String × List UInt8))
    (peer : Option IpAddr) (p : String) (h : served apiV1 .post p = true) :
    (rateLimitedBucket ⟨.post, p, headers, peer⟩ =
        rateLimitedBucket ⟨.post, "/v1" ++ p, headers, peer⟩ ∧
      limited contains trustedProxies requestsPerSec ⟨.post, p, headers, peer⟩ =
        limited contains trustedProxies requestsPerSec ⟨.post, "/v1" ++ p, headers, peer⟩) ↔
      issueApiKey.serves .post p = true := by
  have hv1 : rateLimitedBucket ⟨.post, "/v1" ++ p, headers, peer⟩ = some "default" :=
      rateLimitedBucket_v1 rfl
  constructor
  · rintro ⟨hbucket, -⟩
    rw [hv1] at hbucket
    obtain rfl | rfl | hkeys | ⟨hstarts, hends⟩ := post_cases h
    · have hpayments : rateLimitedBucket ⟨.post, "/payments", headers, peer⟩ = some "payments" :=
          rfl
      rw [hpayments] at hbucket
      exact absurd hbucket (by decide)
    · have hmerchants : rateLimitedBucket ⟨.post, "/merchants", headers, peer⟩ = some "merchants" :=
          rfl
      rw [hmerchants] at hbucket
      exact absurd hbucket (by decide)
    · exact hkeys
    · exfalso
      unfold rateLimitedBucket at hbucket
      simp only [if_true, List.isPrefixOf_iff_prefix.mpr hstarts,
        List.isSuffixOf_iff_suffix.mpr hends, Bool.and_self] at hbucket
      split_ifs at hbucket <;> simp at hbucket
  · intro hkeys
    have hbucket : rateLimitedBucket ⟨.post, p, headers, peer⟩ = some "default" :=
      rateLimitedBucket_of_issueApiKey rfl hkeys
    refine ⟨hbucket.trans hv1.symm, ?_⟩
    unfold limited
    rw [hbucket, hv1]
    rfl

open ClientIp.Sample in
theorem mounts_share_quota_iff_keys :
    rateLimitedBucket ⟨.post, "/merchants/7/keys", [], some client⟩ =
      rateLimitedBucket ⟨.post, "/v1/merchants/7/keys", [], some client⟩ :=
  ((mounts_share_quota_iff contains proxies 10 [] (some client) "/merchants/7/keys" (by decide)).mpr
    (by decide)).1

open ClientIp.Sample in
/-- A client that creates payments under `/v1` has a limiter of its own there, with
five times the quota. -/
theorem mounts_split_payments :
    served apiV1 .post "/payments" = true ∧ served (nest "v1" apiV1) .post "/v1/payments" = true ∧
      limited contains proxies 10 ⟨.post, "/payments", [], some client⟩ =
        some ("payments:198.51.100.7", 10) ∧
      limited contains proxies 10 ⟨.post, "/v1/payments", [], some client⟩ =
        some ("default:198.51.100.7", 50) ∧
      rateLimitedBucket ⟨.post, "/payments", [], some client⟩ ≠
        rateLimitedBucket ⟨.post, "/v1/payments", [], some client⟩ := by
  decide

end
end RateLimit
end StellarGate
