import Mathlib.Data.List.Induction
import StellarGate.Horizon.Poller
import StellarGate.Webhook.Backoff
import StellarGate.Webhook.Resend

/-! How long `run_poller` waits after a cycle of `poll_once` (`src/horizon.rs`): the answers of
Horizon, the errors that they become, and the delay that is read from them. -/
namespace StellarGate
open Grace

/-- A response of Horizon: its status, its `Retry-After` header, and the records
where the body is a page. -/
structure HorizonResponse where
  status : ℕ
  retryAfter : Option String
  records : Option (List HorizonPayment)
  deriving DecidableEq, Repr

/-- The two requests of a cycle: that of `starting_cursor` and that of `fetch_recent_payments`. -/
inductive PollRequest where
  | baseline
  | page (cursor : String)
  deriving DecidableEq, Repr

/-- The errors that end a cycle: a `HorizonHttpError`, an error of `reqwest`,
or one of the database. -/
inductive PollError where
  | horizonHttp (status : ℕ) (retryAfter : Option ℕ)
  | reqwest (status : Option ℕ)
  | database
  deriving DecidableEq, Repr

/-- What a cycle meets: the persisted cursor, the answer to its baseline request and to page request
`n`, where one arrives, and whether the cursor is written after them. -/
structure PollCycle where
  getState : Option (Option String)
  baseline : Option HorizonResponse
  savesBaseline : Bool
  page : ℕ → Option HorizonResponse
  saves : ℕ → Bool

/-- `str::parse::<u64>`. -/
def parseU64 (cs : List Char) : Option ℕ :=
  let digits := if cs.head? = some '+' then cs.tail else cs
  if digits.isEmpty || !digits.all Char.isDigit then none
  else if Nat.ofDigitChars 10 digits 0 ≤ u64Max then some (Nat.ofDigitChars 10 digits 0) else none

/-- The characters that `HeaderValue::to_str` allows. -/
def isHeaderChar (c : Char) : Bool := c = '\t' || (32 ≤ c.toNat && c.toNat < 127)

/-- `parse_retry_after`, in seconds. -/
def parseRetryAfter (retryAfter : Option String) : Option ℕ :=
  retryAfter.bind fun v => if v.toList.all isHeaderChar then parseU64 (trim v.toList) else none

namespace HorizonResponse

def isRateLimited (response : HorizonResponse) : Bool :=
  response.status = 429 || response.status = 503

/-- The statuses that `error_for_status` turns into an error. -/
def isError (response : HorizonResponse) : Bool := 400 ≤ response.status && response.status < 600

end HorizonResponse

namespace Backoff

/-- `POLL_BACKOFF_BASE` and `POLL_BACKOFF_MAX`, in milliseconds. -/
def pollBackoffBase : ℕ := 1000
def pollBackoffMax : ℕ := 120000

/-- The requests that were answered, with the answers, and the result. -/
abbrev Traced (α : Type) := List (PollRequest × HorizonResponse) × Except PollError α

def fetchRecentPayments (answer : Option HorizonResponse) :
    Except PollError (List HorizonPayment) :=
  match answer with
  | none => .error (.reqwest none)
  | some response =>
    if !isSuccess response.status then
      .error (.horizonHttp response.status (parseRetryAfter response.retryAfter))
    else
      match response.records with
      | none => .error (.reqwest none)
      | some page => .ok page

/-- The cursor that `starting_cursor` takes from the answer to its request. -/
def baselineCursor (c : PollCycle) (response : HorizonResponse) : Except PollError String :=
  if response.isError then .error (.reqwest (some response.status))
  else
    match response.records with
    | none => .error (.reqwest none)
    | some records =>
      match records.head?.bind (·.pagingToken) with
      | none => .ok "0"
      | some token => if c.savesBaseline then .ok token else .error .database

def startingCursor (c : PollCycle) : Traced String :=
  match c.getState with
  | none => ([], .error .database)
  | some (some cursor) => ([], .ok cursor)
  | some none =>
    match c.baseline with
    | none => ([], .error (.reqwest none))
    | some response => ([(.baseline, response)], baselineCursor c response)

def cursorAfter (cursor : String) (page : List HorizonPayment) : String :=
  page.foldl (fun cursor hp => hp.pagingToken.getD cursor) cursor

/-- The loop of `poll_once` over the pages, with `left` requests to go. -/
def pollPages (c : PollCycle) : (left n : ℕ) → String → Traced Unit
  | 0, _, _ => ([], .ok ())
  | left + 1, n, cursor =>
    let asked := (c.page n).toList.map fun response => (PollRequest.page cursor, response)
    match fetchRecentPayments (c.page n) with
    | .error e => (asked, .error e)
    | .ok page =>
      if !c.saves n then (asked, .error .database)
      else if page.length < pageLimit then (asked, .ok ())
      else
        let rest := pollPages c left (n + 1) (cursorAfter cursor page)
        (asked ++ rest.1, rest.2)

def pollOnce (c : PollCycle) : Traced Unit :=
  match startingCursor c with
  | (asked, .error e) => (asked, .error e)
  | (asked, .ok cursor) =>
    let rest := pollPages c maxPagesPerCycle 0 cursor
    (asked ++ rest.1, rest.2)

/-- `next_poll_delay`, in milliseconds. -/
def nextPollDelay (consecutiveFailures : ℕ) (retryAfter : Option ℕ) (random : ℕ) : ℕ :=
  match retryAfter with
  | some secs => secs * 1000
  | none => retryDelay consecutiveFailures pollBackoffBase pollBackoffMax random

/-- `downcast_ref::<HorizonHttpError>` and the delay in it. -/
def retryAfterOf : PollError → Option ℕ
  | .horizonHttp _ retryAfter => retryAfter
  | .reqwest _ | .database => none

/-- What `run_poller` keeps from one cycle to the next; the delay is in milliseconds. -/
structure PollerState where
  consecutiveFailures : ℕ
  nextDelay : ℕ
  deriving DecidableEq, Repr

/-- One cycle of `run_poller`, with the draw of the jitter. -/
def afterCycle (interval : ℕ) (s : PollerState) (x : PollCycle × ℕ) : PollerState :=
  match (pollOnce x.1).2 with
  | .ok () => ⟨0, interval⟩
  | .error e =>
    let failures := min (s.consecutiveFailures + 1) u32Max
    ⟨failures, nextPollDelay failures (retryAfterOf e) x.2⟩

/-- `run_poller`, over the cycles so far. -/
def runPoller (interval : ℕ) (cycles : List (PollCycle × ℕ)) : PollerState :=
  cycles.foldl (afterCycle interval) ⟨0, interval⟩

/-- The delta-seconds form of `Retry-After`. -/
def deltaSeconds (v : String) : Option ℕ :=
  if v.toList.isEmpty || !v.toList.all Char.isDigit then none
  else some (Nat.ofDigitChars 10 v.toList 0)

/-- The next cycle waits for as long as Horizon asked, and after a failure it waits at all. -/
structure Honoured (c : PollCycle) (s : PollerState) : Prop where
  asked : ∀ x ∈ (pollOnce c).1, x.2.isRateLimited = true →
    ∀ r, x.2.retryAfter.bind deltaSeconds = some r →
    r * 1000 ≤ s.nextDelay
  waits : ∀ e, (pollOnce c).2 = .error e → 0 < s.nextDelay

/-- The answer is one whose request to wait gets through: at a page request it asks for some time,
and for one that fits in 64 bits; at the baseline request, where the header is dropped, it asks for
no more than the shortest delay after so many failures. -/
def GetsThrough (failures : ℕ) : PollRequest × HorizonResponse → Prop
  | (.baseline, response) =>
    response.isRateLimited = true → ∀ r, response.retryAfter.bind deltaSeconds = some r →
      r * 1000 ≤ delayCeiling (min (failures + 1) u32Max) pollBackoffBase pollBackoffMax / 2
  | (.page _, response) =>
    (isSuccess response.status = false → parseRetryAfter response.retryAfter ≠ some 0) ∧
      (response.isRateLimited = true → ∀ r, response.retryAfter.bind deltaSeconds = some r →
        r ≤ u64Max)

example : parseRetryAfter (some " 120 ") = some 120 := by decide
example : parseRetryAfter (some "Wed, 21 Oct 2026 07:28:00 GMT") = none := by decide

/-! What the answers of a cycle make of its result. -/
section Cycle
variable {c : PollCycle} {left n r : ℕ} {cursor v : String} {x : PollRequest × HorizonResponse}

theorem fetchRecentPayments_some (response : HorizonResponse)
    (h : isSuccess response.status = false) :
    fetchRecentPayments (some response) =
      .error (.horizonHttp response.status (parseRetryAfter response.retryAfter)) := by
  simp only [fetchRecentPayments]
  rw [h]
  rfl

/-- A page request that is answered without success ends the cycle with that answer. -/
theorem pollPages_answer (hx : x ∈ (pollPages c left n cursor).1) :
    (∃ cursor, x.1 = .page cursor) ∧ (isSuccess x.2.status = false →
      (pollPages c left n cursor).2 = .error
      (.horizonHttp x.2.status (parseRetryAfter x.2.retryAfter))) := by
  induction left generalizing n cursor with
  | zero => cases hx
  | succ left ih =>
    have hasked : ∀ y ∈ (c.page n).toList.map fun response => (PollRequest.page cursor, response),
        c.page n = some y.2 ∧ y.1 = .page cursor := by
      intro y hy
      obtain ⟨response, hresponse, rfl⟩ := List.mem_map.mp hy
      exact ⟨Option.mem_toList.mp hresponse, rfl⟩
    simp only [pollPages] at hx ⊢
    cases hfetch : fetchRecentPayments (c.page n) with
    | error e =>
      simp only [hfetch] at hx ⊢
      obtain ⟨hpage, hreq⟩ := hasked x hx
      refine ⟨⟨cursor, hreq⟩, fun hfailed => ?_⟩
      rw [hpage, fetchRecentPayments_some x.2 hfailed] at hfetch
      cases hfetch
      rfl
    | ok page =>
      have hsuccess : ∀ y, c.page n = some y → isSuccess y.status = false → False := by
        intro y hpage hfailed
        rw [hpage, fetchRecentPayments_some y hfailed] at hfetch
        cases hfetch
      simp only [hfetch] at hx ⊢
      split_ifs at hx ⊢
      · obtain ⟨hpage, hreq⟩ := hasked x hx
        exact ⟨⟨cursor, hreq⟩, fun hfailed => (hsuccess _ hpage hfailed).elim⟩
      · obtain ⟨hpage, hreq⟩ := hasked x hx
        exact ⟨⟨cursor, hreq⟩, fun hfailed => (hsuccess _ hpage hfailed).elim⟩
      · rcases List.mem_append.mp hx with hx | hx
        · obtain ⟨hpage, hreq⟩ := hasked x hx
          exact ⟨⟨cursor, hreq⟩, fun hfailed => (hsuccess _ hpage hfailed).elim⟩
        · exact ih hx

theorem pollPages_horizonHttp {status : ℕ} {retryAfter : Option ℕ}
    (h : (pollPages c left n cursor).2 = .error (.horizonHttp status retryAfter)) :
    ∃ x ∈ (pollPages c left n cursor).1, isSuccess x.2.status = false ∧
      parseRetryAfter x.2.retryAfter = retryAfter := by
  induction left generalizing n cursor with
  | zero => cases h
  | succ left ih =>
    simp only [pollPages] at h ⊢
    cases hpage : c.page n with
    | none =>
      simp only [hpage, fetchRecentPayments] at h
      cases h
    | some response =>
      by_cases hfailed : isSuccess response.status = false
      · simp only [hpage, fetchRecentPayments_some response hfailed] at h ⊢
        cases h
        exact ⟨_, List.mem_singleton_self _, hfailed, rfl⟩
      · cases hfetch : fetchRecentPayments (some response) with
        | error e =>
          simp only [hpage, hfetch, Except.error.injEq] at h
          subst h
          simp only [fetchRecentPayments] at hfetch
          split_ifs at hfetch with hs
          · exact absurd (by simpa using hs) hfailed
          · split at hfetch <;> cases hfetch
        | ok page =>
          simp only [hpage, hfetch] at h ⊢
          split_ifs at h ⊢
          · cases h
          · obtain ⟨x, hx, hrest⟩ := ih h
            exact ⟨x, List.mem_append_right _ hx, hrest⟩

theorem startingCursor_answer (hx : x ∈ (startingCursor c).1) : x.1 = .baseline ∧
    (x.2.isError = true → (startingCursor c).2 = .error (.reqwest (some x.2.status))) := by
  unfold startingCursor at hx ⊢
  split at hx
  · cases hx
  · cases hx
  · split at hx
    · cases hx
    · rw [List.mem_singleton.mp hx]
      exact ⟨rfl, fun herror => if_pos herror⟩

theorem baselineCursor_error {response : HorizonResponse} {e : PollError}
    (h : baselineCursor c response = .error e) :
    retryAfterOf e = none := by
  unfold baselineCursor at h
  by_cases herror : response.isError = true
  · rw [if_pos herror] at h
    cases h
    rfl
  rw [if_neg herror] at h
  split at h
  · cases h
    rfl
  split at h
  · cases h
  · by_cases hsaves : c.savesBaseline = true
    · rw [if_pos hsaves] at h
      cases h
    · rw [if_neg hsaves] at h
      cases h
      rfl

theorem startingCursor_error {e : PollError} (h : (startingCursor c).2 = .error e) :
    retryAfterOf e = none := by
  unfold startingCursor at h
  split at h
  · cases h
    rfl
  · cases h
  · split at h
    · cases h
      rfl
    · exact baselineCursor_error h

/-- What an answer makes of the cycle: the baseline request loses the header, a
page request keeps it. -/
theorem pollOnce_answer (hx : x ∈ (pollOnce c).1) :
    (x.1 = .baseline ∧ (x.2.isError = true →
      (pollOnce c).2 = .error (.reqwest (some x.2.status)))) ∨
      ((∃ cursor, x.1 = .page cursor) ∧ (isSuccess x.2.status = false →
        (pollOnce c).2 = .error (.horizonHttp x.2.status (parseRetryAfter x.2.retryAfter)))) := by
  unfold pollOnce at hx ⊢
  split at hx
  · next asked e hstart =>
    left
    obtain ⟨hreq, herror⟩ := startingCursor_answer (c := c) (x := x) (by rw [hstart]; exact hx)
    rw [hstart] at herror
    refine ⟨hreq, fun h => ?_⟩
    cases herror h
    rfl
  · next asked cursor hstart =>
    rcases List.mem_append.mp hx with hx | hx
    · left
      obtain ⟨hreq, herror⟩ := startingCursor_answer (c := c) (x := x) (by rw [hstart]; exact hx)
      rw [hstart] at herror
      exact ⟨hreq, fun h => nomatch herror h⟩
    · exact .inr (pollPages_answer hx)

/-- Only a page request gives a delay. -/
theorem pollOnce_retryAfter {e : PollError} {secs : ℕ} (h : (pollOnce c).2 = .error e)
    (hsecs : retryAfterOf e = some secs) : ∃ x ∈ (pollOnce c).1, (∃ cursor, x.1 = .page cursor) ∧
      isSuccess x.2.status = false ∧ parseRetryAfter x.2.retryAfter = some secs := by
  unfold pollOnce at h ⊢
  split at h
  · next asked e' hstart =>
    cases h
    have hnone := startingCursor_error (c := c) (e := e) (by rw [hstart])
    rw [hnone] at hsecs
    cases hsecs
  · next asked cursor hstart =>
    cases e with
    | horizonHttp status retryAfter =>
      obtain ⟨x, hx, hfailed, hparse⟩ := pollPages_horizonHttp h
      exact ⟨x, List.mem_append_right _ hx, (pollPages_answer hx).1, hfailed, hparse.trans hsecs⟩
    | reqwest status => cases hsecs
    | database => cases hsecs

end Cycle

/-! The delay after a cycle. -/
section Delay
variable {failures r : ℕ} {v : String} {c : PollCycle} {s : PollerState} {interval : ℕ}

theorem parseRetryAfter_deltaSeconds (h : deltaSeconds v = some r) :
    parseRetryAfter (some v) = if r ≤ u64Max then some r else none := by
  unfold deltaSeconds at h
  split_ifs at h with hv
  simp only [Bool.or_eq_true, Bool.not_eq_true', not_or, Bool.not_eq_true, Bool.not_eq_false] at hv
  obtain ⟨hne, hall⟩ := hv
  have hdigits : ∀ d ∈ v.toList, d.isDigit = true := List.all_eq_true.mp hall
  have hvisible : v.toList.all isHeaderChar = true := by
    rw [List.all_eq_true]
    intro d hd
    have hrange := Char.isDigit_iff_toNat.mp (hdigits d hd)
    have h0 : '0'.toNat = 48 := rfl
    have h9 : '9'.toNat = 57 := rfl
    simp only [isHeaderChar, Bool.or_eq_true, Bool.and_eq_true, decide_eq_true_eq]
    omega
  have htrim : trim v.toList = v.toList :=
    Money.trim_eq_self fun d hd => Money.not_isWhitespace_of_isDigit (hdigits d hd)
  have hplus : v.toList.head? ≠ some '+' := by
    intro hhead
    exact absurd (hdigits '+' (List.mem_of_mem_head? hhead)) (by decide)
  have hempty : (v.toList.isEmpty || !v.toList.all Char.isDigit) = false := by
    rw [hne, hall]
    rfl
  simp only [parseRetryAfter, Option.bind_some, hvisible, if_true, htrim, parseU64]
  rw [if_neg hplus, hempty, if_neg Bool.false_ne_true, Option.some.inj h]

theorem pollBackoffBase_le_delayCeiling (failures : ℕ) :
    pollBackoffBase ≤ delayCeiling failures pollBackoffBase pollBackoffMax := by
  have hfactor : 1 ≤ min (2 ^ (failures - 1)) u32Max := le_min Nat.one_le_two_pow (by decide)
  refine le_min ?_ (by decide)
  exact Nat.le_mul_of_pos_right _ hfactor

/-- Without a header the poller waits at least half a second. -/
theorem nextPollDelay_none_pos (failures random : ℕ) : 0 < nextPollDelay failures none random := by
  have hceiling := pollBackoffBase_le_delayCeiling failures
  have hhalf : delayCeiling failures pollBackoffBase pollBackoffMax / 2 ≤
    nextPollDelay failures none random :=
    half_le_retryDelay
  unfold pollBackoffBase at hceiling hhalf
  omega

theorem afterCycle_of_error {e : PollError} (h : (pollOnce c).2 = .error e) (random : ℕ) :
    (afterCycle interval s (c, random)).nextDelay =
      nextPollDelay (min (s.consecutiveFailures + 1) u32Max) (retryAfterOf e) random := by
  simp only [afterCycle, h]

/-- The poller honours a cycle under every draw just when the answers get through. -/
theorem honoured_iff : (∀ random, Honoured c (afterCycle interval s (c, random))) ↔
    ∀ x ∈ (pollOnce c).1, GetsThrough s.consecutiveFailures x := by
  have hlimited : ∀ {response : HorizonResponse}, response.isRateLimited = true →
      response.isError = true ∧ isSuccess response.status = false := by
    intro response h
    simp only [HorizonResponse.isRateLimited, Bool.or_eq_true, decide_eq_true_eq] at h
    simp only [HorizonResponse.isError, isSuccess, Bool.and_eq_true, decide_eq_true_eq,
      Bool.and_eq_false_iff, decide_eq_false_iff_not]
    omega
  constructor
  · rintro h ⟨req, response⟩ hx
    rcases pollOnce_answer hx with ⟨rfl, herror⟩ | ⟨⟨cursor, rfl⟩, hfailed⟩
    · intro hrate r hr
      have hasked := (h 0).asked _ hx hrate r hr
      rw [afterCycle_of_error (herror (hlimited hrate).1)] at hasked
      exact hasked.trans retryDelay_shortest.le
    · refine ⟨fun hstatus hzero => ?_, fun hrate r hr => ?_⟩
      · have hwaits := (h 0).waits _ (hfailed hstatus)
        rw [afterCycle_of_error (hfailed hstatus), retryAfterOf, hzero] at hwaits
        exact absurd hwaits (Nat.lt_irrefl 0)
      · by_contra hlarge
        have hasked := (h 0).asked _ hx hrate r hr
        obtain ⟨v, hv, hdelta⟩ := Option.bind_eq_some_iff.mp hr
        have hparse := parseRetryAfter_deltaSeconds hdelta
        rw [if_neg hlarge] at hparse
        rw [afterCycle_of_error (hfailed (hlimited hrate).2), retryAfterOf, hv, hparse] at hasked
        have hle : nextPollDelay (min (s.consecutiveFailures + 1) u32Max) none 0 ≤ pollBackoffMax :=
          retryDelay_le.trans (min_le_right _ _)
        unfold pollBackoffMax at hle
        unfold u64Max at hlarge
        omega
  · intro h random
    constructor
    · rintro ⟨req, response⟩ hx hrate r hr
      have hthrough := h _ hx
      rcases pollOnce_answer hx with ⟨rfl, herror⟩ | ⟨⟨cursor, rfl⟩, hfailed⟩
      · rw [afterCycle_of_error (herror (hlimited hrate).1)]
        exact (hthrough hrate r hr).trans half_le_retryDelay
      · obtain ⟨v, hv, hdelta⟩ := Option.bind_eq_some_iff.mp hr
        have hparse := parseRetryAfter_deltaSeconds hdelta
        rw [if_pos (hthrough.2 hrate r hr)] at hparse
        rw [afterCycle_of_error (hfailed (hlimited hrate).2), retryAfterOf, hv, hparse]
        exact le_rfl
    · intro e he
      rw [afterCycle_of_error he]
      cases hafter : retryAfterOf e with
      | none => exact nextPollDelay_none_pos _ random
      | some secs =>
        obtain ⟨⟨req, response⟩, hx, ⟨cursor, rfl⟩, hstatus, hparse⟩ :=
            pollOnce_retryAfter he hafter
        have hne := (h _ hx).1 hstatus
        have hpos : secs ≠ 0 := by
          rintro rfl
          exact hne hparse
        simp only [nextPollDelay]
        omega

end Delay

/-- The failures in a row at the end of the cycles. -/
def streak (cycles : List PollCycle) : ℕ :=
  cycles.foldl (fun failures c => if (pollOnce c).2 = .ok () then 0 else min (failures + 1) u32Max)
    0

theorem runPoller_concat (interval : ℕ) (run : List (PollCycle × ℕ)) (x : PollCycle × ℕ) :
    runPoller interval (run ++ [x]) = afterCycle interval (runPoller interval run) x := by
  rw [runPoller, List.foldl_append]
  rfl

theorem runPoller_consecutiveFailures (interval : ℕ) (run : List (PollCycle × ℕ)) :
    (runPoller interval run).consecutiveFailures = streak (run.map Prod.fst) := by
  induction run using List.reverseRecOn with
  | nil => rfl
  | append_singleton run x ih =>
    rw [runPoller_concat, List.map_append, streak, List.foldl_append, afterCycle, ih]
    cases h : (pollOnce x.1).2 with
    | ok u => simp [h]
    | error e => simp [h, streak]

/-- In a run of the poller, every request of Horizon to back off is honoured and every failed cycle
is followed by a delay, under every draw of the jitter, just when all the answers get through. -/
theorem backOff_iff (interval : ℕ) (cycles : List PollCycle) :
    (∀ run, run.map Prod.fst = cycles → ∀ before x after, run = before ++ x :: after →
      Honoured x.1 (runPoller interval (before ++ [x]))) ↔
      ∀ before c after, cycles = before ++ c :: after →
        ∀ x ∈ (pollOnce c).1, GetsThrough (streak before) x := by
  constructor
  · rintro h before c after rfl
    have hfst : ∀ l : List PollCycle, (l.map fun c => (c, 0)).map Prod.fst = l := by
      intro l
      rw [List.map_map]
      exact List.map_id l
    have hstreak := runPoller_consecutiveFailures interval (before.map fun c => (c, 0))
    rw [hfst] at hstreak
    rw [← hstreak, ← @honoured_iff _ _ interval]
    intro random
    rw [← runPoller_concat]
    refine h (before.map (fun c => (c, 0)) ++ (c, random) :: after.map fun c => (c, 0)) ?_ _ _ _ rfl
    rw [List.map_append, List.map_cons, hfst, hfst]
  · rintro h run rfl before ⟨c, random⟩ after rfl
    rw [runPoller_concat]
    apply honoured_iff.mpr
    rw [runPoller_consecutiveFailures]
    exact h (before.map Prod.fst) c (after.map Prod.fst) (by simp)

/-- Horizon throttles the baseline request for ten minutes, and then a page request for no time. -/
def throttled : PollCycle :=
  ⟨some none, some ⟨429, some "600", none⟩, true, fun _ => none, fun _ => true⟩
def noDelay : PollCycle :=
  ⟨some (some "1"), none, true, fun _ => some ⟨429, some "0", none⟩, fun _ => true⟩

/-- The poller asks again after half a second, and then at once. -/
theorem throttled_ignored :
    (runPoller 10000 [(throttled, 0)]).nextDelay = 500 ∧
      ¬ Honoured throttled (runPoller 10000 [(throttled, 0)]) ∧
      ¬ Honoured noDelay (runPoller 10000 [(throttled, 0), (noDelay, 0)]) := by
  refine ⟨by decide, fun h => ?_, fun h => ?_⟩
  · have hasked := h.asked (.baseline, ⟨429, some "600", none⟩) (by decide) (by decide) 600
      (by decide)
    exact absurd hasked (by decide)
  · exact absurd (h.waits (.horizonHttp 429 (some 0)) (by decide)) (by decide)

end Backoff
end StellarGate
