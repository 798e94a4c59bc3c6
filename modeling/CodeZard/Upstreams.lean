import CodeZard.Interleaving
import CodeZard.Invoices
import CodeZard.RunLogs
import CodeZard.Values
import Mathlib.Data.List.Nodup

namespace CodeZard.Upstreams

open Programs RunLogs Values

structure ServiceInstance where
  baseUrl : String
  id : String
  deriving DecidableEq, Repr

/-- A service has at least one server, and no two of them share an id. -/
structure ServiceDefinition where
  name : String
  instances : List ServiceInstance
  inhabited : instances ≠ []
  distinct : (instances.map ServiceInstance.id).Nodup

/-- `digest` stands for the first eight digits of the SHA-256 of an address. -/
def ServiceDefinition.make (digest : String → String) (name : String) (baseUrls : List String) :
    Except Failure ServiceDefinition :=
  let instances := baseUrls.map fun url => ⟨url, digest url⟩
  if hn : instances ≠ [] then
    if hd : (instances.map ServiceInstance.id).Nodup then .ok ⟨name, instances, hn, hd⟩
    else .error (.exception "ValueError" ("Service '" ++ name ++ "' lists the same base URL twice"))
  else .error (.exception "ValueError" ("Service '" ++ name ++ "' needs at least one base URL"))

structure OutboundRequest where
  service : ServiceDefinition
  method : String
  path : String
  body : Bytes := []
  server : Option ServiceInstance := none

def IDEMPOTENT_METHODS : List String := ["GET", "HEAD", "OPTIONS", "PUT", "DELETE"]

def OutboundRequest.isIdempotent (r : OutboundRequest) : Bool := IDEMPOTENT_METHODS.contains (Invoices.upper r.method)

def OutboundRequest.target (r : OutboundRequest) : String :=
  match r.server with
  | some server => r.service.name ++ "@" ++ server.id
  | none => r.service.name

/-- The errors that the decorators tell apart, and whatever else may be raised. -/
inductive Error
  | timeout (service : String) (requestSent : Bool)
  | connection (service : String) (requestSent : Bool)
  | circuitOpen (service : String)
  | other (failure : Failure)
  deriving DecidableEq, Repr

def Error.isUpstream : Error → Bool
  | .timeout .. | .connection .. => true
  | _ => false

def Error.unsent : Error → Bool
  | .timeout _ sent | .connection _ sent => !sent
  | _ => false

/-- The subclasses of `httpx.TransportError`. -/
inductive TransportError
  | connectTimeout
  | poolTimeout
  | readTimeout
  | writeTimeout
  | connectError
  | readError
  | writeError
  | closeError
  | proxyError
  | unsupportedProtocol
  | localProtocolError
  | remoteProtocolError
  deriving DecidableEq, Repr

def asDomainError (request : OutboundRequest) : TransportError → Error
  | .connectTimeout | .poolTimeout => .timeout request.service.name false
  | .readTimeout | .writeTimeout => .timeout request.service.name true
  | .connectError => .connection request.service.name false
  | _ => .connection request.service.name true

/-- A response or a stream: the decorators look at its status alone. -/
structure Outcome where
  status : Nat
  instanceId : Option String := none
  deriving DecidableEq, Repr

inductive Mode
  | send
  | stream
  deriving DecidableEq, Repr

inductive CircuitState
  | closed
  | opened
  | halfOpen
  deriving DecidableEq, Repr

/-- Its clock, a float in the code, counts exactly here. -/
structure CircuitBreaker where
  failureThreshold : Nat := 5
  recoveryTimeout : Int := 30
  state : CircuitState := .closed
  failures : Nat := 0
  openedAt : Int := 0
  probeInFlight : Bool := false
  deriving DecidableEq, Repr

namespace CircuitBreaker

def probe (b : CircuitBreaker) : Bool × CircuitBreaker :=
  if b.probeInFlight then (false, b) else (true, { b with probeInFlight := true })

/-- Whether a request may proceed now. -/
def tryAcquire (b : CircuitBreaker) (now : Int) : Bool × CircuitBreaker :=
  match b.state with
  | .closed => (true, b)
  | .halfOpen => b.probe
  | .opened => if now - b.openedAt < b.recoveryTimeout then (false, b) else { b with state := .halfOpen }.probe

def onSuccess (b : CircuitBreaker) : CircuitBreaker :=
  if b.state = .halfOpen then { b with state := .closed, probeInFlight := false, failures := 0 }
  else { b with failures := 0 }

def trip (b : CircuitBreaker) (now : Int) : CircuitBreaker :=
  { b with state := .opened, openedAt := now, failures := 0, probeInFlight := false }

def onFailure (b : CircuitBreaker) (now : Int) : CircuitBreaker :=
  match b.state with
  | .halfOpen => b.trip now
  | .closed =>
      if b.failureThreshold ≤ b.failures + 1 then { b with failures := b.failures + 1 }.trip now
      else { b with failures := b.failures + 1 }
  | .opened => b

def onAbort (b : CircuitBreaker) : CircuitBreaker := { b with probeInFlight := false }

end CircuitBreaker

/-- What the decorators ask of the breakers, of the turns that the balancer
keeps, of the transport and of the clock. -/
inductive Call
  | rotation (service : ServiceDefinition)
  | tryAcquire (target : String)
  | onSuccess (target : String)
  | onFailure (target : String)
  | onAbort (target : String)
  | transport (mode : Mode) (request : OutboundRequest)
  | discard (mode : Mode)
  | sleep (attempt : Nat)

abbrev Call.Answer : Call → Type
  | .rotation _ => List ServiceInstance
  | .tryAcquire _ => Bool
  | .transport .. => Outcome
  | _ => Unit

inductive Reply
  | done
  | time (now : Int)
  | answered (status : Nat)
  | broken (e : TransportError)
  | raised (f : Failure)
  deriving DecidableEq, Repr

structure World where
  breakers : String → CircuitBreaker := fun _ => {}
  nextTurn : String → Nat := fun _ => 0

def World.breaker (w : World) (target : String) (b : CircuitBreaker) : World :=
  { w with breakers := Function.update w.breakers target b }

def World.rotation (w : World) (service : ServiceDefinition) : List ServiceInstance × World :=
  let start := w.nextTurn service.name
  (service.instances.drop start ++ service.instances.take start,
    { w with nextTurn := Function.update w.nextTurn service.name ((start + 1) % service.instances.length) })

def World.step : Step Call Call.Answer Error World Reply
  | w, .rotation service, .done => some (.ok (w.rotation service).1, (w.rotation service).2)
  | w, .tryAcquire target, .time now =>
      some (.ok ((w.breakers target).tryAcquire now).1, w.breaker target ((w.breakers target).tryAcquire now).2)
  | w, .onSuccess target, .done => some (.ok (), w.breaker target (w.breakers target).onSuccess)
  | w, .onFailure target, .time now => some (.ok (), w.breaker target ((w.breakers target).onFailure now))
  | w, .onAbort target, .done => some (.ok (), w.breaker target (w.breakers target).onAbort)
  | w, .transport .., .answered status => some (.ok { status := status }, w)
  | w, .transport _ request, .broken e => some (.error (asDomainError request e), w)
  | w, .transport .., .raised f => some (.error (.other f), w)
  | w, .discard _, .done => some (.ok (), w)
  | w, .discard _, .raised f => some (.error (.other f), w)
  | w, .sleep _, .done => some (.ok (), w)
  | w, .sleep _, .raised f => some (.error (.other f), w)
  | _, _, _ => none

abbrev Upstream := Prog Call Call.Answer Error

def ask (c : Call) : Upstream c.Answer := perform c

structure RetryPolicy where
  maxAttempts : Nat := 3
  retryOnStatus : List Nat := [502, 503, 504]
  positive : 1 ≤ maxAttempts := by decide

def RetryPolicy.shouldRetryStatus (policy : RetryPolicy) (status : Nat) : Bool := policy.retryOnStatus.contains status

/-- The settings of the decorators. -/
structure Settings where
  retry : RetryPolicy := {}
  failureStatusCodes : List Nat := [502, 503, 504]

/-- Another server may repeat the request only if that cannot duplicate a side
effect. -/
def canFailOver (request : OutboundRequest) (e : Error) : Bool := request.isIdempotent || e.unsent

def passesOver (request : OutboundRequest) : Error → Bool
  | .circuitOpen _ => true
  | e => e.isUpstream && canFailOver request e

end CodeZard.Upstreams
