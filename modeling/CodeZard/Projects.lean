import CodeZard.Compositions
import CodeZard.Dispatches
import CodeZard.Orchestration

namespace CodeZard.Projects

open Programs Interleaving Compositions Upstreams RunLogs Runs Values

/-- The backend agent, as the orchestrator and the proxy know it. -/
structure Backend where
  service : ServiceDefinition
  console : Bool := false
  dispatch : Upstreams.Settings := {}

/-- A call of the orchestrator to its stores, one of the proxy's decorators, or
reading what a stream still holds. -/
inductive Call
  | run (c : Orchestration.Call)
  | upstream (c : Upstreams.Call)
  | readBody

abbrev Call.Answer : Call → Type
  | .run c => Except Failure c.Answer
  | .upstream c => Except Upstreams.Error c.Answer
  | .readBody => Except Failure Bytes

inductive Reply
  | run (r : Orchestration.Reply)
  | upstream (r : Upstreams.Reply)
  | body (b : Bytes)
  | raised (f : Failure)
  deriving DecidableEq

structure World where
  runs : Orchestration.World := {}
  upstream : Upstreams.World := {}

def late : Orchestration.Call → Orchestration.Reply → Bool
  | .stream _, .raised _ => true
  | _, _ => false

def World.step : Step Call Call.Answer Failure World Reply
  | w, .run c, .run r =>
      if late c r then none else (w.runs.step c r).map fun s => (.ok s.1, { w with runs := s.2 })
  | w, .upstream c, .upstream r => (w.upstream.step c r).map fun s => (.ok s.1, { w with upstream := s.2 })
  | w, .readBody, .body b => some (.ok (.ok (b.take 4096)), w)
  | w, .readBody, .raised f => some (.ok (.error f), w)
  | _, _, _ => none

abbrev Projected := Prog Call Call.Answer Failure

def asFailure : Upstreams.Error → Failure
  | .timeout service _ => .exception "UpstreamTimeoutError" ("Service '" ++ service ++ "' did not respond in time")
  | .connection service _ => .exception "UpstreamConnectionError" ("Service '" ++ service ++ "' is unreachable")
  | .circuitOpen service => .exception "CircuitOpenError" ("Service '" ++ service ++ "' is temporarily unavailable")
  | .other f => f

def upstreamly (c : Upstreams.Call) : Projected (Except Upstreams.Error c.Answer) := perform (Call.upstream c)

def runly (c : Orchestration.Call) : Projected (Except Failure c.Answer) := perform (Call.run c)

def instanceOf (service : ServiceDefinition) (instanceId : String) : Except Failure ServiceInstance :=
  match service.instances.find? fun s => s.id = instanceId with
  | some server => .ok server
  | none => .error (.exception "InstanceNotFoundError"
      ("Service '" ++ service.name ++ "' has no instance '" ++ instanceId ++ "'"))

def pinned (service : ServiceDefinition) : Option String → Except Failure (Option ServiceInstance)
  | some instanceId => (instanceOf service instanceId).map some
  | none => .ok none

section Requests

variable (settings : Orchestration.Settings) (backend : Backend) (loads : Bytes → Except String Json)
  (dumps : Json → Bytes)

/-- `ProxyService.stream`. -/
def stream (method path : String) (body : Bytes := []) (instanceId : Option String := none) : Projected Outcome := do
  let server ← ofExcept (pinned backend.service instanceId)
  let outcome ← through upstreamly (Dispatches.dispatched backend.dispatch .stream {
    service := backend.service, method := method, path := path, body := body, server := server })
  ofExcept (outcome.mapError asFailure)

/-- The orchestrator's calls: the one that opens the backend's stream goes
through the proxy, and the chunks come after the headers. -/
def orchestrated : (c : Orchestration.Call) → Projected (Except Failure c.Answer)
  | .stream question => do
      let opened ← ((stream backend "POST" "api/v1/chat"
        (dumps (.dict [("question", .str question), ("locale", .str settings.locale)]))).bind fun outcome =>
          .ret (Except.ok outcome)).rescue fun f => .ret (.error f)
      match opened with
      | .error f => return .error f
      | .ok _ => runly (.stream question)
  | c => runly c

def artifactOf (runId : String) : Projected String := do
  let run ← ofExcept (← runly (.get runId))
  if run.artifactId = "" then .raise (.exception "NoProjectError" "This run has no generated project yet")
  else return run.artifactId

/-- What the agent said when it refused, as far as it can be read. -/
def refusal (body : Bytes) : String :=
  match loads body with
  | .error _ => ""
  | .ok answer => match answer.or (.dict []) with
    | .dict answer => match Orchestration.errorMessage answer with
      | .ok message => (message.or (.str "")).text
      | .error _ => ""
    | _ => ""

/-- A refusal is read to its end and closed before it is told. -/
def refused (outcome : Outcome) : Projected Outcome := do
  let body ← Prog.ensuring (do ofExcept (← perform Call.readBody)) (do ofExcept (← runly .aclose))
  if outcome.status = 410 then
    .raise (.exception "ProjectGoneError" "The agent no longer has this project (it keeps them for an hour)")
  else
    let detail := refusal loads body
    .raise (Orchestration.orchestrationError
      (if detail = "" then "the agent answered " ++ toString outcome.status else detail))

/-- `_open`: a refusal of the agent is turned into an error. -/
def opening (method path : String) (body : Bytes := []) : Projected Outcome := do
  let outcome ← stream backend method path body
  if outcome.status < 400 then return outcome else refused loads outcome

def openConsole (runId command : String) : Projected Outcome :=
  if !backend.console then .raise (.exception "ConsoleDisabledError"
    "The console is switched off on this gateway (GATEWAY_ORCHESTRATION__CONSOLE)")
  else do
    let artifact ← artifactOf runId
    opening backend loads "POST" ("api/v1/artifacts/" ++ artifact ++ "/exec") (dumps (.dict [("command", .str command)]))

def openDownload (runId : String) : Projected Outcome := do
  let artifact ← artifactOf runId
  opening backend loads "GET" ("api/v1/artifacts/" ++ artifact ++ "/download")

/-- The moves of a run, the two ways into its project, and whatever else the
proxy carries. -/
inductive Request
  | move (q : Orchestration.Request)
  | openConsole (runId command : String)
  | openDownload (runId : String)
  | traffic (mode : Mode) (q : OutboundRequest)

def body : Request → Projected Unit
  | .move q => do let _ ← ofExcept (← through (orchestrated settings backend dumps) (Orchestration.body settings loads q))
  | .openConsole runId command => do let _ ← openConsole backend loads dumps runId command
  | .openDownload runId => do let _ ← openDownload backend loads runId
  | .traffic mode q => do let _ ← through upstreamly (Dispatches.dispatched backend.dispatch mode q)

end Requests

end CodeZard.Projects
