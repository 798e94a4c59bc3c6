import CodeZard.Projects

namespace CodeZard.HeaderPolicies

open RunLogs Upstreams Projects Values

/-- Name and value, in their order; a name may come again. -/
abbrev Headers := List (String × String)

def HOP_BY_HOP_HEADERS : List String :=
  ["connection", "keep-alive", "proxy-authenticate", "proxy-authorization", "te", "trailer", "trailers",
    "transfer-encoding", "upgrade"]

def RECOMPUTED_REQUEST_HEADERS : List String := ["host", "content-length"]

/-- Rewritten by the gateway so clients cannot spoof them. -/
def FORWARDING_HEADERS : List String := ["x-forwarded-for", "x-forwarded-proto", "x-forwarded-host", "x-request-id"]

def STALE_RESPONSE_HEADERS : List String := ["content-encoding", "content-length"]

structure InboundRequest where
  method : String
  path : String
  headers : Headers := []
  queryParams : Headers := []
  body : Bytes := []
  clientHost : Option String := none
  scheme : String := "http"
  host : Option String := none
  requestId : Option String := none

def split (value : String) : List String := (value.toList.splitOn ',').map String.ofList

/-- What is there and not empty. -/
def given : Option String → List String
  | some s => if s = "" then [] else [s]
  | none => []

section Policy

-- `lower` stands for `str.lower`.
variable (lower : String → String)

def valuesOf (name : String) (headers : Headers) : List String :=
  (headers.filter fun h => lower h.1 = name).map fun h => h.2

/-- Headers named in `Connection` are hop-by-hop too. -/
def connectionTokens (headers : Headers) : List String :=
  (valuesOf lower "connection" headers).flatMap fun value =>
    ((split value).filter fun token => stripped token ≠ "").map fun token => lower (stripped token)

def chain (inbound : InboundRequest) : List String :=
  valuesOf lower "x-forwarded-for" inbound.headers ++ given inbound.clientHost

def forwardingHeaders (inbound : InboundRequest) : Headers :=
  ("x-forwarded-proto", inbound.scheme) ::
    (if chain lower inbound = [] then [] else [("x-forwarded-for", ", ".intercalate (chain lower inbound))]) ++
    (given inbound.host).map (fun host => ("x-forwarded-host", host)) ++
    (given inbound.requestId).map fun requestId => ("x-request-id", requestId)

def forUpstream (inbound : InboundRequest) (serviceHeaders : Headers := []) : Headers :=
  let dropped := HOP_BY_HOP_HEADERS ++ RECOMPUTED_REQUEST_HEADERS ++ FORWARDING_HEADERS ++
    connectionTokens lower inbound.headers ++ serviceHeaders.map fun h => lower h.1
  let kept := inbound.headers.filter fun h => !dropped.contains (lower h.1)
  kept ++ forwardingHeaders lower inbound ++ serviceHeaders

def forClient (headers : Headers) : Headers :=
  let dropped := HOP_BY_HOP_HEADERS ++ STALE_RESPONSE_HEADERS ++ connectionTokens lower headers
  headers.filter fun h => !dropped.contains (lower h.1)

/-- A service with the headers that every request to it carries. -/
structure Service extends ServiceDefinition where
  headers : Headers := []

structure Outbound extends OutboundRequest where
  headers : Headers := []
  queryParams : Headers := []

def outbound (registry : String → Except Failure Service) (serviceName : String) (inbound : InboundRequest)
    (instanceId : Option String := none) : Except Failure Outbound := do
  let service ← registry serviceName
  let server ← pinned service.toServiceDefinition instanceId
  return {
    service := service.toServiceDefinition
    method := inbound.method
    path := inbound.path
    headers := forUpstream lower inbound service.headers
    queryParams := inbound.queryParams
    body := inbound.body
    server := server }

/-- Some `Connection` header lists the name. -/
def Nominated (headers : Headers) (name : String) : Prop :=
  ∃ h ∈ headers, lower h.1 = "connection" ∧
    ∃ token ∈ split h.2, stripped token ≠ "" ∧ lower (stripped token) = lower name

/-- What a client sends and the service does not get: what holds for one
connection only, what the gateway writes itself and what the service is
configured with. -/
def Withheld (headers serviceHeaders : Headers) (name : String) : Prop :=
  lower name ∈ HOP_BY_HOP_HEADERS ∨ Nominated lower headers name ∨ lower name ∈ RECOMPUTED_REQUEST_HEADERS ∨
    lower name ∈ FORWARDING_HEADERS ∨ ∃ h ∈ serviceHeaders, lower h.1 = lower name

end Policy

section Filtering

variable {lower : String → String} {headers serviceHeaders : Headers} {inbound : InboundRequest} {name : String}

theorem mem_connectionTokens : lower name ∈ connectionTokens lower headers ↔ Nominated lower headers name := by
  simp only [connectionTokens, valuesOf, List.mem_flatMap, List.mem_map, List.mem_filter, decide_eq_true_eq, Nominated]
  constructor
  · rintro ⟨_, ⟨h, ⟨hmem, hconnection⟩, rfl⟩, token, ⟨htoken, hsome⟩, hname⟩
    exact ⟨h, hmem, hconnection, token, htoken, hsome, hname⟩
  · rintro ⟨h, hmem, hconnection, token, htoken, hsome, hname⟩
    exact ⟨h.2, ⟨h, ⟨hmem, hconnection⟩, rfl⟩, token, ⟨htoken, hsome⟩, hname⟩

instance : Decidable (Nominated lower headers name) := decidable_of_iff _ mem_connectionTokens

instance : Decidable (Withheld lower headers serviceHeaders name) := inferInstanceAs (Decidable (_ ∨ _))

/-- What of a client's headers the service gets. -/
def passed (lower : String → String) (inbound : InboundRequest) (serviceHeaders : Headers) : Headers :=
  inbound.headers.filter fun h => !decide (Withheld lower inbound.headers serviceHeaders h.1)

theorem forUpstream_eq (lower : String → String) (inbound : InboundRequest) (serviceHeaders : Headers) :
    forUpstream lower inbound serviceHeaders =
      passed lower inbound serviceHeaders ++ forwardingHeaders lower inbound ++ serviceHeaders := by
  unfold forUpstream passed
  dsimp only
  congr 2
  refine List.filter_congr fun h _ => ?_
  rw [List.contains_eq_mem]
  refine congrArg not (decide_eq_decide.2 ?_)
  simp only [List.mem_append, mem_connectionTokens, List.mem_map, Withheld]
  tauto

theorem forClient_eq (lower : String → String) (headers : Headers) :
    forClient lower headers = headers.filter fun h =>
      !decide (lower h.1 ∈ HOP_BY_HOP_HEADERS ∨ Nominated lower headers h.1 ∨ lower h.1 ∈ STALE_RESPONSE_HEADERS) := by
  unfold forClient
  refine List.filter_congr fun h _ => ?_
  rw [List.contains_eq_mem]
  refine congrArg not (decide_eq_decide.2 ?_)
  simp only [List.mem_append, mem_connectionTokens]
  tauto

theorem forwardingHeaders_names : ∀ h ∈ forwardingHeaders lower inbound, h.1 ∈ FORWARDING_HEADERS := by
  intro h hh
  simp only [forwardingHeaders, List.cons_append, List.mem_cons, List.mem_append, List.mem_map] at hh
  rcases hh with rfl | (hh | ⟨_, -, rfl⟩) | ⟨_, -, rfl⟩
  · simp [FORWARDING_HEADERS]
  · split at hh
    · exact absurd hh List.not_mem_nil
    · simp [List.mem_singleton.1 hh, FORWARDING_HEADERS]
  · simp [FORWARDING_HEADERS]
  · simp [FORWARDING_HEADERS]

theorem valuesOf_append (name : String) (more : Headers) :
    valuesOf lower name (headers ++ more) = valuesOf lower name headers ++ valuesOf lower name more := by
  rw [valuesOf, List.filter_append, List.map_append]
  rfl

theorem valuesOf_passed (hname : name ∈ FORWARDING_HEADERS) :
    valuesOf lower name (passed lower inbound serviceHeaders) = [] := by
  rw [valuesOf, List.map_eq_nil_iff, List.filter_eq_nil_iff]
  intro h hh heq
  rw [passed, List.mem_filter, Bool.not_eq_true', decide_eq_false_iff_not] at hh
  refine hh.2 (.inr (.inr (.inr (.inl ?_))))
  rwa [of_decide_eq_true heq]

theorem valuesOf_written (hlower : ∀ name ∈ FORWARDING_HEADERS, lower name = name) {written : String}
    (hwritten : written ∈ FORWARDING_HEADERS) (values : List String) :
    valuesOf lower name (values.map fun value => (written, value)) = if written = name then values else [] := by
  have hsame : (fun h : String × String => decide (lower h.1 = name)) ∘ (fun value => (written, value)) =
      fun _ => decide (written = name) := by
    funext value
    exact congrArg (fun s => decide (s = name)) (hlower written hwritten)
  rw [valuesOf, List.filter_map, hsame]
  by_cases h : written = name
  · simp [h, Function.comp_def]
  · simp [h]

theorem valuesOf_forwarding (hlower : ∀ name ∈ FORWARDING_HEADERS, lower name = name) :
    valuesOf lower name (forwardingHeaders lower inbound) =
      if name = "x-forwarded-proto" then [inbound.scheme]
      else if name = "x-forwarded-for" then
        if chain lower inbound = [] then [] else [", ".intercalate (chain lower inbound)]
      else if name = "x-forwarded-host" then given inbound.host
      else if name = "x-request-id" then given inbound.requestId
      else [] := by
  have hchain : (if chain lower inbound = [] then [] else [("x-forwarded-for", ", ".intercalate (chain lower inbound))]) =
      (if chain lower inbound = [] then [] else [", ".intercalate (chain lower inbound)]).map
        fun value => ("x-forwarded-for", value) := by
    split
    · rfl
    · rfl
  have hparts : forwardingHeaders lower inbound =
      [inbound.scheme].map (fun value => ("x-forwarded-proto", value)) ++
        (if chain lower inbound = [] then [] else [", ".intercalate (chain lower inbound)]).map
          (fun value => ("x-forwarded-for", value)) ++
        (given inbound.host).map (fun value => ("x-forwarded-host", value)) ++
        (given inbound.requestId).map fun value => ("x-request-id", value) := by
    rw [forwardingHeaders, hchain]
    rfl
  have hwritten (written : String) (h : written ∈ FORWARDING_HEADERS) (values : List String) :
      valuesOf lower name (values.map fun value => (written, value)) = if written = name then values else [] :=
    valuesOf_written hlower h values
  rw [hparts, valuesOf_append, valuesOf_append, valuesOf_append, hwritten _ (by decide), hwritten _ (by decide),
    hwritten _ (by decide), hwritten _ (by decide)]
  by_cases hproto : name = "x-forwarded-proto"
  · subst hproto
    simp
  by_cases hfor : name = "x-forwarded-for"
  · subst hfor
    simp
  by_cases hhost : name = "x-forwarded-host"
  · subst hhost
    simp
  by_cases hid : name = "x-request-id"
  · subst hid
    simp
  · simp [Ne.symm hproto, Ne.symm hfor, Ne.symm hhost, Ne.symm hid, hproto, hfor, hhost, hid]

end Filtering

theorem outbound_ok {lower : String → String} {registry : String → Except Failure Service} {serviceName : String}
    {inbound : InboundRequest} {instanceId : Option String} {o : Outbound}
    (h : outbound lower registry serviceName inbound instanceId = .ok o) :
    ∃ service, registry serviceName = .ok service ∧ o.service = service.toServiceDefinition ∧
      o.headers = forUpstream lower inbound service.headers := by
  unfold outbound at h
  cases hservice : registry serviceName with
  | error f =>
      rw [hservice] at h
      cases h
  | ok service =>
      rw [hservice] at h
      dsimp only [bind, Except.bind] at h
      cases hserver : pinned service.toServiceDefinition instanceId with
      | error f =>
          rw [hserver] at h
          cases h
      | ok server =>
          rw [hserver] at h
          cases h
          exact ⟨service, rfl, rfl, rfl⟩

/-- What a service gets of a client, and a client of a service. -/
theorem headers_controlled (lower : String → String) (hlower : ∀ name ∈ FORWARDING_HEADERS, lower name = name) :
    (∀ (inbound : InboundRequest) (serviceHeaders : Headers), ∃ kept own,
      forUpstream lower inbound serviceHeaders = kept ++ own ++ serviceHeaders ∧
      kept = inbound.headers.filter (fun h => !decide (Withheld lower inbound.headers serviceHeaders h.1)) ∧
      (∀ h ∈ own, h.1 ∈ FORWARDING_HEADERS) ∧
      valuesOf lower "x-request-id" (kept ++ own) = given inbound.requestId ∧
      valuesOf lower "x-forwarded-proto" (kept ++ own) = [inbound.scheme] ∧
      valuesOf lower "x-forwarded-host" (kept ++ own) = given inbound.host ∧
      valuesOf lower "x-forwarded-for" (kept ++ own) =
        if chain lower inbound = [] then [] else [", ".intercalate (chain lower inbound)]) ∧
    ∀ headers : Headers, forClient lower headers = headers.filter fun h =>
      !decide (lower h.1 ∈ HOP_BY_HOP_HEADERS ∨ Nominated lower headers h.1 ∨ lower h.1 ∈ STALE_RESPONSE_HEADERS) := by
  refine ⟨fun inbound serviceHeaders => ?_, forClient_eq lower⟩
  have hvalues (name : String) (hname : name ∈ FORWARDING_HEADERS) :
      valuesOf lower name (passed lower inbound serviceHeaders ++ forwardingHeaders lower inbound) =
        valuesOf lower name (forwardingHeaders lower inbound) := by
    rw [valuesOf_append, valuesOf_passed hname, List.nil_append]
  refine ⟨_, _, forUpstream_eq lower inbound serviceHeaders, rfl, forwardingHeaders_names, ?_, ?_, ?_, ?_⟩
  · rw [hvalues _ (by decide), valuesOf_forwarding hlower]
    rfl
  · rw [hvalues _ (by decide), valuesOf_forwarding hlower]
    rfl
  · rw [hvalues _ (by decide), valuesOf_forwarding hlower]
    rfl
  · rw [hvalues _ (by decide), valuesOf_forwarding hlower]
    rfl

/-- `str.lower` on ASCII. -/
def lowered (s : String) : String := String.ofList (s.toList.map Char.toLower)

def proxied : InboundRequest where
  method := "GET"
  path := "items"
  headers := [("X-Forwarded-For", "203.0.113.1"), ("Connection", "X-Request-ID, close"), ("X-Request-Id", "spoofed"),
    ("Cookie", "a=1"), ("x-token", "guessed"), ("cookie", "b=2")]
  clientHost := some "10.0.0.5"
  requestId := some "real"

theorem headers_controlled_proxied :
    ∃ kept own, forUpstream lowered proxied [("X-Token", "secret")] = kept ++ own ++ [("X-Token", "secret")] ∧
      kept = [("Cookie", "a=1"), ("cookie", "b=2")] ∧ valuesOf lowered "x-request-id" (kept ++ own) = ["real"] := by
  obtain ⟨kept, own, hall, hkept, -, hid, -⟩ :=
    (headers_controlled lowered (by decide +kernel)).1 proxied [("X-Token", "secret")]
  have hcookies : (proxied.headers.filter fun h =>
      !decide (Withheld lowered proxied.headers [("X-Token", "secret")] h.1)) =
      [("Cookie", "a=1"), ("cookie", "b=2")] := by
    decide +kernel
  exact ⟨kept, own, hall, hkept.trans hcookies, hid⟩

/-- A client's `X-Forwarded-For` is none of what is dropped by name, and it is
not passed on as it came. -/
theorem forwarded_for_rewritten :
    ¬ ∀ (inbound : InboundRequest) (serviceHeaders : Headers), ∀ h ∈ inbound.headers,
      lowered h.1 ∉ HOP_BY_HOP_HEADERS → ¬ Nominated lowered inbound.headers h.1 →
      lowered h.1 ∉ RECOMPUTED_REQUEST_HEADERS →
      lowered h.1 ∉ ["x-request-id", "x-forwarded-proto", "x-forwarded-host"] →
      (∀ c ∈ serviceHeaders, lowered c.1 ≠ lowered h.1) → h ∈ forUpstream lowered inbound serviceHeaders := by
  intro h
  have hkept := h proxied [] ("X-Forwarded-For", "203.0.113.1") (by decide +kernel) (by decide +kernel)
    (by decide +kernel) (by decide +kernel) (by decide +kernel) (by decide +kernel)
  revert hkept
  decide +kernel

end CodeZard.HeaderPolicies
