import CodeZard.Endings
import CodeZard.HeaderPolicies
import CodeZard.Retries

namespace CodeZard.Proxying

open Programs Interleaving Scripts RunLogs Upstreams Decorators HeaderPolicies Values

/-- A response whose body has not been read yet: it holds a live connection. As
elsewhere a stream is known by the chunks it will carry if nothing goes wrong. -/
structure Stream where
  status : Nat
  headers : Headers := []
  chunks : List Bytes := []
  handle : Nat
  instanceId : Option String := none
  deriving DecidableEq

/-- What the decorators ask for, and what relaying the answer asks for: the client
to take the head, the next chunk, the client to take one, the runtime to finalise
a body that was left at a chunk, and the connection to be let go. -/
inductive Call
  | rotation (service : ServiceDefinition)
  | tryAcquire (target : String)
  | onSuccess (target : String)
  | onFailure (target : String)
  | onAbort (target : String)
  | transport (request : Outbound)
  | sleep (seconds : ℚ)
  | head (status : Nat) (headers : Headers)
  | read (handle : Nat) (request : OutboundRequest)
  | send (handle : Nat) (chunk : Bytes)
  | finalise (handle : Nat)
  | aclose (handle : Nat)

abbrev Call.Answer : Call → Type
  | .rotation _ => List ServiceInstance
  | .tryAcquire _ => Bool
  | .transport _ => Stream
  | _ => Unit

inductive Reply
  | done
  | time (now : Int)
  | answered (status : Nat) (headers : Headers) (chunks : List Bytes)
  | broken (e : TransportError)
  | raised (f : Failure)
  deriving DecidableEq

/-- The handles of the connections that are open, and the next one. -/
structure World extends Upstreams.World where
  fresh : Nat := 0
  opened : List Nat := []

def World.breaker (w : World) (target : String) (b : CircuitBreaker) : World :=
  { w with toWorld := w.toWorld.breaker target b }

/-- Letting go of a connection may raise, but it lets go. -/
def World.step : Step Call Call.Answer Error World Reply
  | w, .rotation service, .done => some (.ok (w.rotation service).1, { w with toWorld := (w.rotation service).2 })
  | w, .tryAcquire target, .time now =>
      some (.ok ((w.breakers target).tryAcquire now).1, w.breaker target ((w.breakers target).tryAcquire now).2)
  | w, .onSuccess target, .done => some (.ok (), w.breaker target (w.breakers target).onSuccess)
  | w, .onFailure target, .time now => some (.ok (), w.breaker target ((w.breakers target).onFailure now))
  | w, .onAbort target, .done => some (.ok (), w.breaker target (w.breakers target).onAbort)
  | w, .transport _, .answered status headers chunks =>
      some (.ok { status, headers, chunks, handle := w.fresh }, { w with fresh := w.fresh + 1, opened := w.fresh :: w.opened })
  | w, .transport request, .broken e => some (.error (asDomainError request.toOutboundRequest e), w)
  | w, .transport _, .raised f => some (.error (.other f), w)
  | w, .sleep _, .done => some (.ok (), w)
  | w, .sleep _, .raised f => some (.error (.other f), w)
  | w, .head .., .done => some (.ok (), w)
  | w, .head .., .raised f => some (.error (.other f), w)
  | w, .read .., .done => some (.ok (), w)
  | w, .read _ request, .broken e => some (.error (asDomainError request e), w)
  | w, .read .., .raised f => some (.error (.other f), w)
  | w, .send .., .done => some (.ok (), w)
  | w, .send .., .raised f => some (.error (.other f), w)
  | w, .finalise _, .done => some (.ok (), w)
  | w, .aclose handle, .done => some (.ok (), { w with opened := w.opened.erase handle })
  | w, .aclose handle, .raised f => some (.error (.other f), { w with opened := w.opened.erase handle })
  | _, _, _ => none

abbrev Proxied := Prog Call Call.Answer Error

def ask (c : Call) : Proxied c.Answer := perform c

/-- The settings of the decorators. -/
structure Settings where
  retry : Retries.RetryPolicy
  failureStatusCodes : List Nat := [502, 503, 504]

section Stack

variable (settings : Settings)

def retrying (request : Outbound) : Retrying Call Call.Answer Stream where
  call := ask (.transport request)
  discard := fun stream => ask (.aclose stream.handle)
  sleep := fun attempt => ask (.sleep (settings.retry.delayFor attempt))
  status := Stream.status

def guarding (request : Outbound) : Guarding Call Call.Answer Stream where
  tryAcquire := fun target => ask (.tryAcquire target)
  onSuccess := fun target => ask (.onSuccess target)
  onFailure := fun target => ask (.onFailure target)
  onAbort := fun target => ask (.onAbort target)
  call := (retrying settings request).attempts settings.retry.toRetryPolicy request.toOutboundRequest
  status := Stream.status

def guarded (request : Outbound) : Proxied Stream :=
  (guarding settings request).guarded settings.failureStatusCodes request.toOutboundRequest

def balancing (request : Outbound) : Balancing Call Call.Answer Stream where
  rotation := fun service => ask (.rotation service)
  call := fun chosen => guarded settings { request with toOutboundRequest := chosen }
  tag := fun stream id => { stream with instanceId := some id }

def stream (request : Outbound) : Proxied Stream := (balancing settings request).balanced request.toOutboundRequest

end Stack

/-- `service_name.partition("@")`: the name, and the instance it is pinned to. -/
def addressed (serviceName : String) : String × Option String :=
  let (name, rest) := serviceName.toList.span fun c => c ≠ '@'
  (String.ofList name, match rest with
    | [] => none
    | _ :: instanceId => some (String.ofList instanceId))

theorem addressed_fst (serviceName : String) :
    (addressed serviceName).1 = String.ofList (serviceName.toList.takeWhile fun c => c ≠ '@') := by
  rw [addressed, List.span_eq_takeWhile_dropWhile]

theorem addressed_at (serviceName instanceId : String) :
    addressed ((addressed serviceName).1 ++ "@" ++ instanceId) = ((addressed serviceName).1, some instanceId) := by
  have hname : ∀ c ∈ serviceName.toList.takeWhile (fun c => c ≠ '@'), decide (c ≠ '@') = true := by
    intro c hc
    exact List.mem_takeWhile_imp (p := fun c => decide (c ≠ '@')) hc
  have hspan : ((addressed serviceName).1 ++ "@" ++ instanceId).toList.span (fun c => decide (c ≠ '@')) =
      (serviceName.toList.takeWhile (fun c => c ≠ '@'), '@' :: instanceId.toList) := by
    rw [List.span_eq_takeWhile_dropWhile, addressed_fst, String.toList_append, String.toList_append, String.toList_ofList,
      List.append_assoc, List.takeWhile_append_of_pos hname, List.dropWhile_append_of_pos hname]
    simp
  rw [addressed, hspan, addressed_fst]
  simp

def INSTANCE_HEADER : String := "x-gateway-instance"

/-- The headers of a response that streams, as Starlette keeps them: what it
begins with, `headers[name] = value` and `headers.append(name, value)`. -/
structure MutableHeaders where
  initial : Headers := []
  setItem : String → String → Headers → Except Failure Headers
  append : String → String → Headers → Except Failure Headers

/-- What Starlette documents: a header that is set takes the place of all that
have its name, one that is appended leaves them, and names are kept in lower case. -/
structure MutableHeaders.Documented (starlette : MutableHeaders) (lower : String → String) : Prop where
  lowered : lower INSTANCE_HEADER = INSTANCE_HEADER
  replaced : ∀ {name value headers headers'}, starlette.setItem name value headers = .ok headers' →
    headers'.filter (fun h => h.1 = lower name) = [(lower name, value)]
  retained : ∀ {name value headers headers'}, starlette.setItem name value headers = .ok headers' →
    headers'.filter (fun h => h.1 ≠ lower name) = headers.filter fun h => h.1 ≠ lower name
  appended : ∀ {name value headers headers'}, starlette.append name value headers = .ok headers' →
    headers' = headers ++ [(lower name, value)]

section Heads

variable (starlette : MutableHeaders)

/-- `_copy_headers`. -/
def copyHeaders : Headers → Headers → Except Failure Headers
  | [], response => .ok response
  | (name, value) :: headers, response => do
      let response ← starlette.append name value response
      copyHeaders headers response

/-- `_copy_instance_header`. -/
def copyInstanceHeader (instanceId : Option String) (response : Headers) : Except Failure Headers :=
  match instanceId with
  | some id => starlette.setItem INSTANCE_HEADER id response
  | none => .ok response

/-- `to_streaming_response`, up to its body. -/
def responseHeaders (stream : Stream) : Except Failure Headers := do
  let response ← starlette.setItem "x-accel-buffering" "no" starlette.initial
  let response ← copyHeaders starlette stream.headers response
  copyInstanceHeader starlette stream.instanceId response

end Heads

/-- The class that an exception of this gateway derives from, where it is not `Exception`. -/
def baseOf : String → Option String
  | "UpstreamTimeoutError" | "UpstreamConnectionError" | "OrchestrationError" => some "UpstreamError"
  | "InsufficientFundsError" | "UnknownProductError" | "InvoiceNotFoundError" | "SubscriptionContractError" =>
      some "BillingError"
  | "UnverifiableError" => some "IdentityError"
  | "ServiceNotFoundError" | "InstanceNotFoundError" | "DuplicateServiceError" | "UpstreamError" | "CircuitOpenError"
  | "RunNotFoundError" | "ConsoleDisabledError" | "NoProjectError" | "ProjectGoneError" | "IllegalTransitionError"
  | "BillingError" | "X402Error" | "IdentityError" | "PaymentRequiredError" => some "GatewayError"
  | "UnicodeEncodeError" | "UnicodeDecodeError" => some "UnicodeError"
  | "UnicodeError" | "JSONDecodeError" => some "ValueError"
  | _ => none

/-- `type(exc).__mro__`, up to `Exception`; no class here is more than four deep. -/
def mro : Nat → String → List String
  | 0, name => [name]
  | depth + 1, name => name :: match baseOf name with
    | some base => mro depth base
    | none => []

def ERROR_STATUS : List (String × Nat × String) := [
  ("ServiceNotFoundError", 404, "service_not_found"),
  ("RunNotFoundError", 404, "run_not_found"),
  ("IllegalTransitionError", 409, "illegal_transition"),
  ("InstanceNotFoundError", 404, "instance_not_found"),
  ("ConsoleDisabledError", 404, "console_disabled"),
  ("NoProjectError", 409, "no_project"),
  ("ProjectGoneError", 410, "project_gone"),
  ("UpstreamConnectionError", 502, "bad_gateway"),
  ("OrchestrationError", 502, "upstream_failed"),
  ("CircuitOpenError", 503, "service_unavailable"),
  ("UpstreamTimeoutError", 504, "gateway_timeout"),
  ("InsufficientFundsError", 402, "insufficient_funds"),
  ("InvoiceNotFoundError", 404, "invoice_not_found"),
  ("BillingError", 400, "billing_error"),
  ("X402Error", 400, "invalid_payment"),
  ("UnverifiableError", 501, "not_implemented"),
  ("IdentityError", 401, "unauthorized"),
  ("GatewayError", 500, "gateway_error")]

def classify (name : String) : Nat × String :=
  ((mro 4 name).findSome? fun c => ERROR_STATUS.lookup c).getD (500, "internal_error")

/-- What the handlers answer: a status, a code and a message. What is no
`Exception` is not handled, and a payment that is required has a handler of its own. -/
def handled : Failure → Option (Nat × String × String)
  | .exception name message =>
      if "GatewayError" ∈ mro 4 name then some ((classify name).1, (classify name).2, message)
      else if "ValueError" ∈ mro 4 name then some (400, "bad_request", message)
      else some (500, "internal_error", "Internal server error")
  | _ => none

inductive Answer
  | relayed (status : Nat) (headers : Headers)
  | refused (status : Nat) (code message : String)
  deriving DecidableEq

structure Asked where
  serviceName : String
  inbound : InboundRequest

section Relaying

variable (request : OutboundRequest) (handle : Nat)

/-- The end of `_relay`: what breaks ends the stream early, and however it ends
the connection is let go. -/
def ending (o : Except Error Unit) : Proxied Unit :=
  ((ofExcept o).rescue fun e => if e.isUpstream then .ret () else .raise e).ensuring (ask (.aclose handle))

/-- Where the client does not take a chunk, the generator stays at it until the
runtime finalises it. -/
def left (e : Error) : Proxied Unit := do
  ask (.finalise handle)
  let _ ← caught (ask (.aclose handle))
  .raise e

/-- `_relay`, and the response that sends what it yields. The end of the body is
read too. -/
def relay : List Bytes → Proxied Unit
  | [] => do
      let o ← caught (ask (.read handle request))
      ending handle o
  | chunk :: chunks => do
      let o ← caught (ask (.read handle request))
      match o with
      | .error e => ending handle (.error e)
      | .ok _ => do
          let taken ← caught (ask (.send handle chunk))
          match taken with
          | .error e => left handle e
          | .ok _ => relay chunks

end Relaying

section Forwarding

variable (settings : Settings) (lower : String → String) (starlette : MutableHeaders)
  (registry : String → Except Failure Service)

/-- `ProxyService.stream`. -/
def proxied (name : String) (inbound : InboundRequest) (instanceId : Option String) : Proxied (Outbound × Stream) := do
  let request ← ofExcept ((outbound lower registry name inbound instanceId).mapError Error.other)
  let stream ← stream settings request
  return (request, { stream with headers := forClient lower stream.headers })

def refuse (e : Error) : Proxied Answer :=
  match handled (Projects.asFailure e) with
  | some (status, code, message) => return .refused status code message
  | none => .raise e

/-- `_forward`, and what the client gets of it: the body is not begun before the
head is sent. -/
def forward (q : Asked) : Proxied Answer := do
  let (name, instanceId) := addressed q.serviceName
  match ← caught (proxied settings lower registry name q.inbound instanceId) with
  | .error e => refuse e
  | .ok (request, stream) => match responseHeaders starlette stream with
    | .error f => refuse (.other f)
    | .ok headers => do
        ask (.head stream.status headers)
        relay request.toOutboundRequest stream.handle stream.chunks
        return .relayed stream.status headers

end Forwarding

section Documentation

variable {starlette : MutableHeaders} {lower : String → String} {headers copied : Headers}

theorem copyHeaders_ok (hd : starlette.Documented lower) {response : Headers}
    (h : copyHeaders starlette headers response = .ok copied) :
    copied = response ++ headers.map fun h => (lower h.1, h.2) := by
  induction headers generalizing response with
  | nil =>
      cases h
      simp
  | cons x headers ih =>
      obtain ⟨name, value⟩ := x
      rw [copyHeaders] at h
      cases happend : starlette.append name value response with
      | error f =>
          rw [happend] at h
          cases h
      | ok next =>
          rw [happend] at h
          rw [ih h, hd.appended happend, List.append_assoc]
          rfl

theorem responseHeaders_ok {stream : Stream} (h : responseHeaders starlette stream = .ok headers) :
    ∃ begun copied, starlette.setItem "x-accel-buffering" "no" starlette.initial = .ok begun ∧
      copyHeaders starlette stream.headers begun = .ok copied ∧
      copyInstanceHeader starlette stream.instanceId copied = .ok headers := by
  unfold responseHeaders at h
  cases hbegun : starlette.setItem "x-accel-buffering" "no" starlette.initial with
  | error f =>
      rw [hbegun] at h
      cases h
  | ok begun =>
      rw [hbegun] at h
      dsimp only [bind, Except.bind] at h
      cases hcopied : copyHeaders starlette stream.headers begun with
      | error f =>
          rw [hcopied] at h
          cases h
      | ok copied =>
          rw [hcopied] at h
          exact ⟨begun, copied, rfl, hcopied, h⟩

end Documentation

abbrev ProxyLog := Log Call Call.Answer Error

abbrev Pool := Config World Asked Call Call.Answer Error Answer

end CodeZard.Proxying
