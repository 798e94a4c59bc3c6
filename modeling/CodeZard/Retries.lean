import CodeZard.Decorators
import Mathlib.Algebra.Order.Ring.Rat
import Mathlib.Data.List.Nodup
import Mathlib.Tactic.NormNum

namespace CodeZard.Retries

open Programs Scripts Upstreams Paths Decorators Retrying Values

/-- Exponential backoff: `base * 2**(attempt - 1)`, capped at `max_delay`, in exact
numbers: the code raises where a float would overflow. -/
structure RetryPolicy extends Upstreams.RetryPolicy where
  baseDelaySeconds : ℚ := 1 / 10
  maxDelaySeconds : ℚ := 2
  delays_nonneg : 0 ≤ baseDelaySeconds ∧ 0 ≤ maxDelaySeconds := by norm_num

namespace RetryPolicy

def make (maxAttempts : Int) (baseDelaySeconds maxDelaySeconds : ℚ) (retryOnStatus : List Nat) :
    Except Failure RetryPolicy :=
  if ha : 1 ≤ maxAttempts then
    if hd : 0 ≤ baseDelaySeconds ∧ 0 ≤ maxDelaySeconds then
      .ok ⟨⟨maxAttempts.toNat, retryOnStatus, by omega⟩, baseDelaySeconds, maxDelaySeconds, hd⟩
    else .error (.exception "ValueError" "delays cannot be negative")
  else .error (.exception "ValueError" "max_attempts must be at least 1")

variable (policy : RetryPolicy)

def delayFor (attempt : Nat) : ℚ := min (policy.baseDelaySeconds * 2 ^ (attempt - 1)) policy.maxDelaySeconds

/-- What an attempt that is not the last is repeated after. -/
def transient : Except Error Nat → Bool
  | .error e => e.isUpstream
  | .ok status => policy.shouldRetryStatus status

end RetryPolicy

inductive Call
  | upstream (mode : Mode) (request : OutboundRequest)
  | aclose (mode : Mode) (handle : Nat)
  | sleep (seconds : ℚ)

/-- A response or a stream is an object of its own. -/
structure Response where
  status : Nat
  handle : Nat
  deriving DecidableEq, Repr

abbrev Call.Answer : Call → Type
  | .upstream .. => Response
  | _ => Unit

/-- `send` discards responses and `stream` discards streams. -/
def retrying (policy : RetryPolicy) (mode : Mode) (request : OutboundRequest) : Retrying Call Call.Answer Response where
  call := perform (Call.upstream mode request)
  discard := fun outcome => perform (Call.aclose mode outcome.handle)
  sleep := fun attempt => perform (Call.sleep (policy.delayFor attempt))
  status := Response.status

def send (policy : RetryPolicy) (request : OutboundRequest) : Prog Call Call.Answer Error Response :=
  (retrying policy .send request).attempts policy.toRetryPolicy request

def stream (policy : RetryPolicy) (request : OutboundRequest) : Prog Call Call.Answer Error Response :=
  (retrying policy .stream request).attempts policy.toRetryPolicy request

def handle (policy : RetryPolicy) (request : OutboundRequest) : Mode → Prog Call Call.Answer Error Response
  | .send => send policy request
  | .stream => stream policy request

/-- What was called, slept and closed so far. -/
structure World where
  calls : List (Mode × OutboundRequest) := []
  slept : List ℚ := []
  closed : List Nat := []

/-- The calls are answered in their order, and each answer is a new object. -/
def scripted (script : Nat → Except Error Nat) : Script Call Call.Answer Error World
  | w, .upstream mode request =>
      ((script (w.calls.length + 1)).map fun status => ⟨status, w.calls.length + 1⟩,
        { w with calls := w.calls ++ [(mode, request)] })
  | w, .aclose _ handle => (.ok (), { w with closed := w.closed ++ [handle] })
  | w, .sleep seconds => (.ok (), { w with slept := w.slept ++ [seconds] })

section Played

variable {policy : RetryPolicy} {mode : Mode} {request : OutboundRequest} {script : Nat → Except Error Nat}

def outcome (script : Nat → Except Error Nat) (attempt : Nat) : Except Error Response :=
  (script attempt).map fun status => ⟨status, attempt⟩

def answered (script : Nat → Except Error Nat) (attempt n : Nat) : List Nat :=
  (List.range' attempt n).filter fun i => (script i).isOk

def World.called (w : World) (mode : Mode) (request : OutboundRequest) : World :=
  { w with calls := w.calls ++ [(mode, request)] }

def World.repeated (w : World) (policy : RetryPolicy) (mode : Mode) (request : OutboundRequest)
    (script : Nat → Except Error Nat) (attempt n : Nat) : World where
  calls := w.calls ++ List.replicate n (mode, request)
  slept := w.slept ++ (List.range' attempt n).map policy.delayFor
  closed := w.closed ++ answered script attempt n

theorem repeated_succ (w : World) (attempt n : Nat) :
    w.repeated policy mode request script attempt (n + 1) =
      (w.repeated policy mode request script attempt 1).repeated policy mode request script (attempt + 1) n := by
  have hanswered : answered script attempt (n + 1) = answered script attempt 1 ++ answered script (attempt + 1) n := by
    simp only [answered]
    rw [← List.filter_append, List.range'_append_1, Nat.add_comm]
  simp only [World.repeated, hanswered, List.append_assoc]
  simp [List.range'_succ, List.replicate_succ]

theorem play_call (w : World) :
    play (scripted script) (retrying policy mode request).call w =
      (outcome script (w.calls.length + 1), w.called mode request) :=
  play_perform _

theorem play_settled {attempt : Nat} {w : World} (hw : w.calls.length + 1 = attempt)
    (hlast : policy.maxAttempts ≤ attempt ∨ policy.transient (script attempt) = false) :
    play (scripted script) (attempting policy.toRetryPolicy (retrying policy mode request) request attempt) w =
      (outcome script attempt, w.called mode request) := by
  rw [attempting, bind_eq, play_bind, play_caught, play_call, hw]
  unfold outcome
  cases hout : script attempt with
  | error e =>
      have hraise : e.isUpstream = false ∨ policy.maxAttempts ≤ attempt := by
        rw [hout] at hlast
        exact hlast.symm
      dsimp only [Except.map]
      rw [dif_pos hraise]
      rfl
  | ok status =>
      have hreturn : policy.maxAttempts ≤ attempt ∨
          policy.shouldRetryStatus ((retrying policy mode request).status ⟨status, attempt⟩) = false := by
        rw [hout] at hlast
        exact hlast
      dsimp only [Except.map]
      rw [dif_pos hreturn]
      rfl

theorem play_backoff (hurl : ∃ u, url request = .ok u) (attempt : Nat) (w : World) :
    play (scripted script) (backoff (retrying policy mode request) request attempt) w =
      (.ok (), { w with slept := w.slept ++ [policy.delayFor attempt] }) := by
  obtain ⟨u, hu⟩ := hurl
  rw [backoff, hu]
  exact play_perform _

theorem not_settled {result : Except Error Nat} {attempt : Nat} (hlt : attempt < policy.maxAttempts)
    (htransient : policy.transient result = true) : ¬ (policy.transient result = false ∨ policy.maxAttempts ≤ attempt) := by
  rintro (h | h)
  · exact Bool.noConfusion (h.symm.trans htransient)
  · exact absurd hlt (Nat.not_lt.2 h)

theorem play_again {attempt : Nat} {w : World} (hw : w.calls.length + 1 = attempt) (hlt : attempt < policy.maxAttempts)
    (htransient : policy.transient (script attempt) = true) :
    play (scripted script) (attempting policy.toRetryPolicy (retrying policy mode request) request attempt) w =
      play (scripted script)
        ((backoff (retrying policy mode request) request attempt).bind fun _ =>
          attempting policy.toRetryPolicy (retrying policy mode request) request (attempt + 1))
        { w.called mode request with closed := w.closed ++ answered script attempt 1 } := by
  rw [attempting, bind_eq, play_bind, play_caught, play_call, hw]
  unfold outcome
  cases hout : script attempt with
  | error e =>
      have hgo : ¬ (e.isUpstream = false ∨ policy.maxAttempts ≤ attempt) := by
        rw [hout] at htransient
        exact not_settled hlt htransient
      dsimp only [Except.map]
      rw [dif_neg hgo]
      simp [World.called, answered, hout, Except.isOk, Except.toBool]
  | ok status =>
      have hgo : ¬ (policy.maxAttempts ≤ attempt ∨
          policy.shouldRetryStatus ((retrying policy mode request).status ⟨status, attempt⟩) = false) := by
        rw [hout] at htransient
        exact fun h => not_settled hlt htransient h.symm
      have hdiscard (w : World) : play (scripted script) ((retrying policy mode request).discard ⟨status, attempt⟩) w =
          (.ok (), { w with closed := w.closed ++ [attempt] }) := play_perform _
      dsimp only [Except.map]
      rw [dif_neg hgo, bind_eq, play_bind_ok (hdiscard _)]
      simp [World.called, answered, hout, Except.isOk, Except.toBool]

theorem play_repeated (hurl : ∃ u, url request = .ok u) {attempt : Nat} {w : World} (hw : w.calls.length + 1 = attempt)
    (hlt : attempt < policy.maxAttempts) (htransient : policy.transient (script attempt) = true) :
    play (scripted script) (attempting policy.toRetryPolicy (retrying policy mode request) request attempt) w =
      play (scripted script) (attempting policy.toRetryPolicy (retrying policy mode request) request (attempt + 1))
        (w.repeated policy mode request script attempt 1) := by
  rw [play_again hw hlt htransient, play_bind_ok (play_backoff hurl _ _)]
  rfl

theorem play_attempting (hurl : ∃ u, url request = .ok u) {attempt : Nat} {w : World}
    (hw : w.calls.length + 1 = attempt) (hle : attempt ≤ policy.maxAttempts) :
    ∃ n, attempt + n ≤ policy.maxAttempts ∧
      (∀ i, attempt ≤ i → i < attempt + n → policy.transient (script i) = true) ∧
      (attempt + n < policy.maxAttempts → policy.transient (script (attempt + n)) = false) ∧
      play (scripted script) (attempting policy.toRetryPolicy (retrying policy mode request) request attempt) w =
        (outcome script (attempt + n),
          (w.repeated policy mode request script attempt n).called mode request) := by
  induction hleft : policy.maxAttempts - attempt generalizing attempt w with
  | zero =>
      have hlast : policy.maxAttempts ≤ attempt := Nat.sub_eq_zero_iff_le.1 hleft
      refine ⟨0, hle, fun i hi hi' => absurd hi' (Nat.not_lt.2 hi), fun h => absurd h (Nat.not_lt.2 hlast), ?_⟩
      rw [play_settled hw (.inl hlast)]
      simp [World.repeated, answered]
  | succ left ih =>
      cases htransient : policy.transient (script attempt) with
      | false =>
          refine ⟨0, hle, fun i hi hi' => absurd hi' (Nat.not_lt.2 hi), fun _ => htransient, ?_⟩
          rw [play_settled hw (.inr htransient)]
          simp [World.repeated, answered]
      | true =>
          have hlt : attempt < policy.maxAttempts := by omega
          have hw' : (w.repeated policy mode request script attempt 1).calls.length + 1 = attempt + 1 := by
            simp [World.repeated, hw]
          obtain ⟨n, hmax, hbefore, hafter, hplay⟩ := ih hw' hlt (by omega)
          refine ⟨n + 1, by omega, ?_, ?_, ?_⟩
          · intro i hi hi'
            rcases hi.eq_or_lt with rfl | hi
            · exact htransient
            · exact hbefore i hi (by omega)
          · rwa [Nat.add_assoc, Nat.add_comm 1 n] at hafter
          · rw [play_repeated hurl hw hlt htransient, hplay, ← repeated_succ, Nat.add_assoc, Nat.add_comm 1 n]

theorem handle_eq (hidempotent : request.isIdempotent = true) :
    handle policy request mode = attempting policy.toRetryPolicy (retrying policy mode request) request 1 := by
  have hattempts : handle policy request mode = attempts policy.toRetryPolicy (retrying policy mode request) request := by
    cases mode with
    | send => rfl
    | stream => rfl
  rw [hattempts, attempts, hidempotent]
  rfl

theorem url_of_resolved (h : (resolvedInstance request).isOk = true) : ∃ u, url request = .ok u := by
  cases hserver : resolvedInstance request with
  | error f =>
      rw [hserver] at h
      exact Bool.noConfusion h
  | ok server => exact ⟨_, by rw [url, hserver]; rfl⟩

theorem count_answered (script : Nat → Except Error Nat) (n i : Nat) :
    (answered script 1 n).count i = if 1 ≤ i ∧ i < n + 1 ∧ (script i).isOk then 1 else 0 := by
  have hnodup : (answered script 1 n).Nodup := (List.nodup_range' : (List.range' 1 n).Nodup).filter _
  have hmem : i ∈ answered script 1 n ↔ 1 ≤ i ∧ i < n + 1 ∧ (script i).isOk = true := by
    rw [answered, List.mem_filter, List.mem_range'_1, and_assoc, Nat.add_comm 1 n]
  rw [hnodup.count]
  exact if_congr hmem rfl rfl

end Played

/-- The calls stop at the first outcome that is not transient, or at the last
attempt; whatever was answered before is closed once. -/
theorem attempts_play (policy : RetryPolicy) (mode : Mode) (request : OutboundRequest) (script : Nat → Except Error Nat)
    (hidempotent : request.isIdempotent = true) (hserver : (resolvedInstance request).isOk = true) :
    ∃ k w, play (scripted script) (handle policy request mode) {} =
        ((script k).map fun status => ⟨status, k⟩, w) ∧
      1 ≤ k ∧ k ≤ policy.maxAttempts ∧ (∀ i, 1 ≤ i → i < k → policy.transient (script i) = true) ∧
      (k < policy.maxAttempts → policy.transient (script k) = false) ∧
      w.calls = List.replicate k (mode, request) ∧
      w.slept = (List.range' 1 (k - 1)).map
        (fun i => min (policy.baseDelaySeconds * 2 ^ (i - 1)) policy.maxDelaySeconds) ∧
      ∀ i, w.closed.count i = if 1 ≤ i ∧ i < k ∧ (script i).isOk then 1 else 0 := by
  obtain ⟨n, hmax, hbefore, hafter, hplay⟩ :=
    play_attempting (url_of_resolved hserver)
      (show ({} : World).calls.length + 1 = 1 from rfl) policy.positive
  rw [Nat.add_comm 1 n] at hmax hbefore hafter hplay
  rw [handle_eq hidempotent]
  refine ⟨n + 1, _, hplay, Nat.le_add_left 1 n, hmax, hbefore, hafter, ?_, ?_, ?_⟩
  · simp [World.called, World.repeated, List.replicate_succ']
  · simp [World.called, World.repeated, RetryPolicy.delayFor]
  · intro i
    rw [← count_answered]
    rfl

def twoServers : ServiceDefinition where
  name := "users"
  instances := [⟨"http://users-1:8001", "0a1b2c3d"⟩, ⟨"http://users-2:8001", "4e5f6a7b"⟩]
  inhabited := by decide
  distinct := by decide

def asked (server : Option ServiceInstance) : OutboundRequest where
  service := twoServers
  method := "GET"
  path := "items"
  server := server

theorem unset_positive : 1 ≤ 3 := by decide

theorem unset_nonneg : (0 : ℚ) ≤ 1 / 10 ∧ (0 : ℚ) ≤ 2 := by norm_num

def unset : RetryPolicy := { positive := unset_positive, delays_nonneg := unset_nonneg }

theorem attempts_play_chosen :
    ∃ k w, play (scripted fun _ => .ok 503) (handle unset (asked twoServers.instances.head?) .stream) {} =
        ((.ok 503 : Except Error Nat).map fun status => ⟨status, k⟩, w) ∧
      1 ≤ k ∧ k ≤ 3 ∧ (∀ i, 1 ≤ i → i < k → unset.transient (.ok 503) = true) ∧
      (k < 3 → unset.transient (.ok 503) = false) ∧
      w.calls = List.replicate k (.stream, asked twoServers.instances.head?) ∧
      w.slept = (List.range' 1 (k - 1)).map (fun i => min (1 / 10 * 2 ^ (i - 1)) 2) ∧
      ∀ i, w.closed.count i = if 1 ≤ i ∧ i < k ∧ (.ok 503 : Except Error Nat).isOk then 1 else 0 :=
  attempts_play unset .stream (asked twoServers.instances.head?) (fun _ => .ok 503) (by decide +kernel) (by decide)

theorem play_unresolved (policy : RetryPolicy) (mode : Mode) {request : OutboundRequest}
    {script : Nat → Except Error Nat} {f : Failure} (hidempotent : request.isIdempotent = true)
    (hurl : url request = .error f) (hmax : 1 < policy.maxAttempts)
    (htransient : policy.transient (script 1) = true) :
    play (scripted script) (handle policy request mode) {} =
      (.error (.other f), { calls := [(mode, request)], closed := answered script 1 1 }) := by
  have hbackoff (w : World) : play (scripted script) (backoff (retrying policy mode request) request 1) w =
      (.error (.other f), w) := by
    rw [backoff, hurl]
    rfl
  rw [handle_eq hidempotent, play_again (show ({} : World).calls.length + 1 = 1 from rfl) hmax htransient,
    play_bind_error (hbackoff _)]
  rfl

/-- A service with two servers, asked before either was chosen. -/
theorem attempts_play_unresolved :
    ¬ ∀ (policy : RetryPolicy) (mode : Mode) (request : OutboundRequest) (script : Nat → Except Error Nat),
      request.isIdempotent = true →
      ∃ k w, play (scripted script) (handle policy request mode) {} =
          ((script k).map fun status => ⟨status, k⟩, w) ∧
        1 ≤ k ∧ k ≤ policy.maxAttempts ∧ (∀ i, 1 ≤ i → i < k → policy.transient (script i) = true) ∧
        (k < policy.maxAttempts → policy.transient (script k) = false) ∧
        w.calls = List.replicate k (mode, request) ∧
        w.slept = (List.range' 1 (k - 1)).map
          (fun i => min (policy.baseDelaySeconds * 2 ^ (i - 1)) policy.maxDelaySeconds) ∧
        ∀ i, w.closed.count i = if 1 ≤ i ∧ i < k ∧ (script i).isOk then 1 else 0 := by
  intro h
  obtain ⟨k, w, hplay, -⟩ := h unset .send (asked none) (fun i => if i = 1 then .ok 503 else .ok 200) (by decide +kernel)
  rw [play_unresolved unset .send (by decide +kernel) rfl (by decide) (by decide)] at hplay
  have hout := congrArg Prod.fst hplay
  by_cases hk : k = 1
  · rw [if_pos hk] at hout
    cases hout
  · rw [if_neg hk] at hout
    cases hout

end CodeZard.Retries
