import CodeZard.Endings
import CodeZard.Proxying

namespace CodeZard.Relays

open Programs Interleaving RunLogs HeaderPolicies Values Endings Decorators Proxying
open Upstreams (Error OutboundRequest ServiceInstance)

/-- How often a call was given the connection. -/
def opens (handle : Nat) : ProxyLog → Nat
  | [] => 0
  | ⟨.transport _, .ok s⟩ :: log => opens handle log + if s.handle = handle then 1 else 0
  | _ :: log => opens handle log

/-- How often a call has let go of the connection. -/
def closes (handle : Nat) : ProxyLog → Nat
  | [] => 0
  | ⟨.aclose h, _⟩ :: log => closes handle log + if h = handle then 1 else 0
  | _ :: log => closes handle log

/-- What a client is told, piece by piece. -/
inductive Part
  | head (status : Nat) (headers : Headers)
  | chunk (bytes : Bytes)
  deriving DecidableEq

/-- What the client has taken so far. -/
def sent : ProxyLog → List Part
  | [] => []
  | ⟨.head status headers, .ok _⟩ :: log => sent log ++ [.head status headers]
  | ⟨.send _ bytes, .ok _⟩ :: log => sent log ++ [.chunk bytes]
  | _ :: log => sent log

/-- The call holds this connection and no other, and has passed this on. -/
structure Holds (held : Option Nat) (passed : List Part) (log : ProxyLog) : Prop where
  count : ∀ handle, opens handle log = closes handle log + if held = some handle then 1 else 0
  sent_eq : sent log = passed

/-- Requests go to some servers only, nothing is opened while a connection is
held, only what is held is read, passed on or let go, and the client is told
certain things only. -/
def guard (T : Outbound → Prop) (D : ProxyLog → List Part → Prop) (log : ProxyLog) : Call → Prop
  | .transport request => T request ∧ Holds none [] log
  | .head status headers => D log (sent log ++ [.head status headers])
  | .send handle bytes => (∃ passed, Holds (some handle) passed log) ∧ D log (sent log ++ [.chunk bytes])
  | .read handle _ | .finalise handle | .aclose handle => ∃ passed, Holds (some handle) passed log
  | _ => True

/-- A breaker takes a verdict as it is, the turns of a service are among its
instances, and a body is finalised without fail. -/
def admits (_ : ProxyLog) : (c : Call) → Except Error c.Answer → Prop
  | .onSuccess _, a | .onFailure _, a | .onAbort _, a | .finalise _, a => a = .ok ()
  | .rotation service, a => ∃ servers, a = .ok servers ∧ servers ⊆ service.instances
  | _, _ => True

def quiet : Call → Bool
  | .transport _ | .aclose _ | .head .. | .send .. => false
  | _ => true

section Calls

variable {log : ProxyLog} {held : Option Nat} {passed : List Part}

theorem holds_nil : Holds none [] [] := ⟨fun _ => rfl, rfl⟩

theorem Holds.opened {request : Outbound} {s : Stream} (h : Holds none passed log) :
    Holds (some s.handle) passed (⟨.transport request, .ok s⟩ :: log) := by
  refine ⟨fun handle => ?_, h.sent_eq⟩
  have := h.count handle
  simp only [opens, closes, Option.some.injEq, reduceCtorEq, if_false] at this ⊢
  omega

theorem Holds.refused {request : Outbound} {e : Error} (h : Holds none passed log) :
    Holds none passed (⟨.transport request, .error e⟩ :: log) :=
  ⟨fun handle => h.count handle, h.sent_eq⟩

theorem Holds.closed {handle : Nat} {a : Except Error Unit} (h : Holds (some handle) passed log) :
    Holds none passed (⟨.aclose handle, a⟩ :: log) := by
  refine ⟨fun handle' => ?_, h.sent_eq⟩
  have := h.count handle'
  simp only [opens, closes, Option.some.injEq, reduceCtorEq, if_false] at this ⊢
  omega

theorem Holds.told {status : Nat} {headers : Headers} (h : Holds held passed log) :
    Holds held (passed ++ [.head status headers]) (⟨.head status headers, .ok ()⟩ :: log) :=
  ⟨fun handle => h.count handle, congrArg (· ++ [Part.head status headers]) h.sent_eq⟩

theorem Holds.untold {status : Nat} {headers : Headers} {e : Error} (h : Holds held passed log) :
    Holds held passed (⟨.head status headers, .error e⟩ :: log) :=
  ⟨fun handle => h.count handle, h.sent_eq⟩

theorem Holds.taken {handle : Nat} {bytes : Bytes} (h : Holds held passed log) :
    Holds held (passed ++ [.chunk bytes]) (⟨.send handle bytes, .ok ()⟩ :: log) :=
  ⟨fun handle' => h.count handle', congrArg (· ++ [Part.chunk bytes]) h.sent_eq⟩

theorem Holds.untaken {handle : Nat} {bytes : Bytes} {e : Error} (h : Holds held passed log) :
    Holds held passed (⟨.send handle bytes, .error e⟩ :: log) :=
  ⟨fun handle' => h.count handle', h.sent_eq⟩

theorem opens_cons {c : Call} (hc : quiet c = true) (a : Except Error c.Answer) (handle : Nat) :
    opens handle (⟨c, a⟩ :: log) = opens handle log := by
  cases c with
  | transport | aclose | head | send => cases hc
  | _ => rfl

theorem closes_cons {c : Call} (hc : quiet c = true) (a : Except Error c.Answer) (handle : Nat) :
    closes handle (⟨c, a⟩ :: log) = closes handle log := by
  cases c with
  | transport | aclose | head | send => cases hc
  | _ => rfl

theorem sent_cons {c : Call} (hc : quiet c = true) (a : Except Error c.Answer) : sent (⟨c, a⟩ :: log) = sent log := by
  cases c with
  | transport | aclose | head | send => cases hc
  | _ => rfl

theorem Holds.quiet {c : Call} (h : Holds held passed log) (hc : quiet c = true) (a : Except Error c.Answer) :
    Holds held passed (⟨c, a⟩ :: log) := by
  refine ⟨fun handle => ?_, (sent_cons hc a).trans h.sent_eq⟩
  rw [opens_cons hc, closes_cons hc]
  exact h.count handle

end Calls

section Stack

variable {settings : Settings} {T : Outbound → Prop} {D : ProxyLog → List Part → Prop} {log : ProxyLog} {α : Type}

def Opened (P : Stream → ProxyLog → Prop) (o : Except Error Stream) (log : ProxyLog) : Prop :=
  match o with
  | .ok s => Holds (some s.handle) [] log ∧ P s log
  | .error _ => Holds none [] log

def Yields (T : Outbound → Prop) (D : ProxyLog → List Part → Prop) (P : Stream → ProxyLog → Prop) (p : Proxied Stream) :
    Prop :=
  ∀ log, Holds none [] log → Keeps (guard T D) admits (Opened P) p log

theorem keeps_then {c : Call} {f : c.Answer → Proxied α} {post : Except Error α → ProxyLog → Prop} {held : Option Nat}
    {passed : List Part} (hc : quiet c = true) (hg : guard T D log c) (h : Holds held passed log)
    (he : ∀ e, Holds held passed (⟨c, .error e⟩ :: log) → post (.error e) (⟨c, .error e⟩ :: log))
    (hf : ∀ v, admits log c (.ok v) → Holds held passed (⟨c, .ok v⟩ :: log) →
      Keeps (guard T D) admits post (f v) (⟨c, .ok v⟩ :: log)) :
    Keeps (guard T D) admits post ((ask c).bind f) log := by
  refine keeps_perform_bind.2 ⟨hg, fun a ha => ?_⟩
  cases a with
  | ok v => exact hf v ha (h.quiet hc _)
  | error e => exact he e (h.quiet hc _)

theorem keeps_verdict {c : Call} {f : c.Answer → Proxied α} {post : Except Error α → ProxyLog → Prop}
    (hg : guard T D log c) (hok : ∀ a, admits log c a → ∃ v, a = .ok v)
    (hf : ∀ v, Keeps (guard T D) admits post (f v) (⟨c, .ok v⟩ :: log)) :
    Keeps (guard T D) admits post ((ask c).bind f) log := by
  refine keeps_perform_bind.2 ⟨hg, fun a ha => ?_⟩
  obtain ⟨v, rfl⟩ := hok a ha
  exact hf v

def answeredTo (request : Outbound) (s : Stream) (log : ProxyLog) : Prop := ⟨.transport request, .ok s⟩ ∈ log

variable {request : Outbound}

theorem yields_transport (hT : T request) : Yields T D (answeredTo request) (ask (.transport request)) := by
  intro log h
  refine keeps_perform.2 ⟨⟨hT, h⟩, fun a _ => ?_⟩
  cases a with
  | ok s => exact ⟨h.opened, List.mem_cons_self⟩
  | error e => exact h.refused

theorem yields_attempting (hT : T request) (attempt : Nat) : Yields T D (answeredTo request)
    (Retrying.attempting settings.retry.toRetryPolicy (retrying settings request) request.toOutboundRequest attempt) := by
  intro log h
  have hagain (hlt : attempt < settings.retry.maxAttempts) (log : ProxyLog) (h : Holds none [] log) :
      Keeps (guard T D) admits (Opened (answeredTo request))
        (((retrying settings request).backoff request.toOutboundRequest attempt).bind fun _ => Retrying.attempting
          settings.retry.toRetryPolicy (retrying settings request) request.toOutboundRequest (attempt + 1)) log := by
    have hback : Keeps (guard T D) admits (fun _ log => Holds none [] log)
        ((retrying settings request).backoff request.toOutboundRequest attempt) log := by
      refine keeps_bind.2 (keeps_ofExcept.2 ?_)
      cases Paths.url request.toOutboundRequest with
      | error f => exact h
      | ok url => exact keeps_perform.2 ⟨trivial, fun a _ => h.quiet rfl a⟩
    refine keeps_bind.2 (hback.mono fun o log h => ?_)
    cases o with
    | ok _ => exact yields_attempting hT (attempt + 1) log h
    | error e => exact h
  rw [Retrying.attempting]
  refine keeps_bind.2 (keeps_caught.2 ((yields_transport hT log h).mono fun o log ho => ?_))
  cases o with
  | error e =>
      dsimp only
      split
      · exact ho
      · exact hagain (by omega) log ho
  | ok s =>
      dsimp only
      split
      · exact ho
      · refine keeps_bind.2 (keeps_perform.2 ⟨⟨[], ho.1⟩, fun a _ => ?_⟩)
        cases a with
        | ok _ => exact hagain (by omega) _ ho.1.closed
        | error e => exact ho.1.closed
  termination_by settings.retry.maxAttempts - attempt

theorem yields_attempts (hT : T request) : Yields T D (answeredTo request)
    ((retrying settings request).attempts settings.retry.toRetryPolicy request.toOutboundRequest) := by
  rw [Retrying.attempts]
  split
  · exact yields_transport hT
  · exact yields_attempting hT 1

theorem yields_guarded (hT : T request) : Yields T D (answeredTo request) (guarded settings request) := by
  intro log h
  refine keeps_then rfl trivial h (fun e h => h) fun acquired _ h => ?_
  split
  · exact h
  have hattempts : Keeps (guard T D) admits (Opened (answeredTo request))
      ((guarding settings request).call.rescue fun e => do
        if e.isUpstream then ask (.onFailure request.target) else ask (.onAbort request.target)
        .raise e) (⟨.tryAcquire request.target, .ok acquired⟩ :: log) := by
    refine keeps_rescue.2 ((yields_attempts hT _ h).mono fun o log ho => ?_)
    cases o with
    | ok s => exact ho
    | error e =>
        have hraise {c : Call} (hc : quiet c = true) (hg : guard T D log c) (hok : ∀ a, admits log c a → ∃ v, a = .ok v) :
            Keeps (guard T D) admits (Opened (answeredTo request)) ((ask c).bind fun _ => .raise e) log :=
          keeps_verdict hg hok fun v => Holds.quiet ho hc (.ok v)
        dsimp only
        split
        · exact hraise (c := .onFailure request.target) rfl trivial fun a ha => ⟨(), ha⟩
        · exact hraise (c := .onAbort request.target) rfl trivial fun a ha => ⟨(), ha⟩
  refine keeps_bind.2 (hattempts.mono fun o log ho => ?_)
  cases o with
  | error e => exact ho
  | ok s =>
      have hreturn {c : Call} (hc : quiet c = true) (hg : guard T D log c) (hok : ∀ a, admits log c a → ∃ v, a = .ok v) :
          Keeps (guard T D) admits (Opened (answeredTo request)) ((ask c).bind fun _ => .ret s) log :=
        keeps_verdict hg hok fun v => ⟨ho.1.quiet hc (.ok v), List.mem_cons_of_mem _ ho.2⟩
      dsimp only
      split
      · exact hreturn (c := .onFailure request.target) rfl trivial fun a ha => ⟨(), ha⟩
      · exact hreturn (c := .onSuccess request.target) rfl trivial fun a ha => ⟨(), ha⟩

/-- The request as it goes to a server. -/
def sentTo (request : Outbound) (server : ServiceInstance) : Outbound :=
  { request with toOutboundRequest := { request.toOutboundRequest with server := some server } }

def AnsweredBy (T : Outbound → Prop) (request : Outbound) (s : Stream) (log : ProxyLog) : Prop :=
  ∃ server s', T (sentTo request server) ∧ ⟨.transport (sentTo request server), .ok s'⟩ ∈ log ∧
    s = { s' with instanceId := some server.id }

theorem yields_sendTo {server : ServiceInstance} (hT : T (sentTo request server)) :
    Yields T D (AnsweredBy T request) ((balancing settings request).sendTo server request.toOutboundRequest) := by
  intro log h
  have hguarded : Yields T D (answeredTo (sentTo request server)) (guarded settings (sentTo request server)) :=
    yields_guarded hT
  refine keeps_bind.2 ((hguarded log h).mono fun o log ho => ?_)
  cases o with
  | error e => exact ho
  | ok s => exact ⟨ho.1, server, s, hT, ho.2, rfl⟩

theorem yields_failover (errors : List Error) {servers : List ServiceInstance}
    (hT : ∀ server ∈ servers, T (sentTo request server)) : Yields T D (AnsweredBy T request)
      ((balancing settings request).failover request.toOutboundRequest errors servers) := by
  induction servers generalizing errors with
  | nil => exact fun log h => h
  | cons server servers ih =>
      intro log h
      have hone : Yields T D (AnsweredBy T request)
          ((balancing settings request).sendTo server request.toOutboundRequest) :=
        yields_sendTo (hT server List.mem_cons_self)
      have hresult : Keeps (guard T D) admits (fun (o : Except Error (Except Error Stream)) log => match o with
          | .ok (.ok s) => Holds (some s.handle) [] log ∧ AnsweredBy T request s log
          | .ok (.error _) | .error _ => Holds none [] log)
          ((Except.ok <$> (balancing settings request).sendTo server request.toOutboundRequest :
            Proxied (Except Error Stream)).rescue fun e =>
              if Upstreams.passesOver request.toOutboundRequest e then .ret (.error e) else .raise e) log := by
        refine keeps_rescue.2 (keeps_bind.2 ((hone log h).mono fun o log ho => ?_))
        cases o with
        | ok s => exact ho
        | error e =>
            dsimp only
            split
            · exact ho
            · exact ho
      refine keeps_bind.2 (hresult.mono fun o log ho => ?_)
      match o, ho with
      | .ok (.ok s), ho => exact ho
      | .ok (.error e), ho => exact ih (errors ++ [e]) (fun server hs => hT server (List.mem_cons_of_mem _ hs)) log ho
      | .error e, ho => exact ho

theorem yields_stream (hpinned : ∀ server, request.server = some server → T (sentTo request server))
    (hany : request.server = none → ∀ server ∈ request.service.instances, T (sentTo request server)) :
    Yields T D (AnsweredBy T request) (stream settings request) := by
  intro log h
  rw [stream, Balancing.balanced]
  split
  · exact yields_sendTo (hpinned _ ‹_›) log h
  · rename_i hserver
    refine keeps_then rfl trivial h (fun e h => h) fun servers hs h => ?_
    obtain ⟨_, ⟨⟩, hsub⟩ := hs
    exact yields_failover [] (fun server hm => hany hserver server (hsub hm)) _ h

end Stack

section Bodies

variable {T : Outbound → Prop} {D : ProxyLog → List Part → Prop} {log : ProxyLog} {request : OutboundRequest}
  {handle : Nat} {whole : List Part}

def Tells (D : ProxyLog → List Part → Prop) (whole : List Part) (log : ProxyLog) : Prop :=
  ∀ log' parts, log <:+ log' → parts <+: whole → D log' parts

theorem Tells.cons {x : (c : Call) × Except Error c.Answer} (h : Tells D whole log) : Tells D whole (x :: log) :=
  fun log' parts hlog hparts => h log' parts ((List.suffix_cons _ _).trans hlog) hparts

def Passed (handle : Nat) (whole : List Part) (held : Option Nat) (o : Except Error Unit) (log : ProxyLog) : Prop :=
  ∃ passed, Holds held passed log ∧ passed <+: whole ∧ (o = .ok () → passed = whole ∨
    ∃ r e, ⟨.read handle r, .error e⟩ ∈ log ∧ e.isUpstream = true)

theorem keeps_ending {passed : List Part} {o : Except Error Unit} (h : Holds (some handle) passed log)
    (hp : passed <+: whole) (ho : o = .ok () → passed = whole)
    (he : ∀ e, o = .error e → e.isUpstream = true → ∃ r, ⟨.read handle r, .error e⟩ ∈ log) :
    Keeps (guard T D) admits (Passed handle whole none) (ending handle o) log := by
  have hbody : Keeps (guard T D) admits (fun o' log' => log' = log ∧ (o' = .ok () → passed = whole ∨
      ∃ r e, ⟨.read handle r, .error e⟩ ∈ log ∧ e.isUpstream = true))
      ((ofExcept o).rescue fun e => if e.isUpstream then .ret () else .raise e) log := by
    refine keeps_rescue.2 (keeps_ofExcept.2 ?_)
    cases o with
    | ok _ => exact ⟨rfl, fun _ => .inl (ho rfl)⟩
    | error e =>
        dsimp only
        split
        · rename_i hup
          obtain ⟨r, hr⟩ := he e rfl hup
          exact ⟨rfl, fun _ => .inr ⟨r, e, hr, hup⟩⟩
        · exact ⟨rfl, fun hok => nomatch hok⟩
  refine keeps_ensuring.2 (hbody.mono ?_)
  rintro o' _ ⟨rfl, ho'⟩
  refine keeps_perform.2 ⟨⟨passed, h⟩, fun a _ => ?_⟩
  cases a with
  | error e => exact ⟨passed, h.closed, hp, fun hok => nomatch hok⟩
  | ok _ =>
      refine ⟨passed, h.closed, hp, fun hok => (ho' hok).imp_right ?_⟩
      rintro ⟨r, e, hr, hup⟩
      exact ⟨r, e, List.mem_cons_of_mem _ hr, hup⟩

theorem keeps_left {passed : List Part} (e : Error) (h : Holds (some handle) passed log) (hp : passed <+: whole) :
    Keeps (guard T D) admits (Passed handle whole none) (left handle e) log := by
  refine keeps_perform_bind.2 ⟨⟨passed, h⟩, ?_⟩
  rintro _ rfl
  have hfinalised : Holds (some handle) passed (⟨.finalise handle, .ok ()⟩ :: log) :=
    h.quiet (c := .finalise handle) rfl (.ok ())
  refine keeps_bind.2 (keeps_caught.2 (keeps_perform.2 ⟨⟨passed, hfinalised⟩, fun a _ => ?_⟩))
  exact ⟨passed, hfinalised.closed, hp, fun hok => nomatch hok⟩

theorem keeps_relay {passed : List Part} {rest : List Bytes} (hw : passed ++ rest.map Part.chunk = whole)
    (h : Holds (some handle) passed log) (hD : Tells D whole log) :
    Keeps (guard T D) admits (Passed handle whole none) (relay request handle rest) log := by
  induction rest generalizing passed log with
  | nil =>
      have hall : passed = whole := by simpa using hw
      refine keeps_bind.2 (keeps_caught.2 (keeps_perform.2 ⟨⟨passed, h⟩, fun a _ => ?_⟩))
      apply keeps_ending (h.quiet rfl a) ⟨[], by simp [hall]⟩ (fun _ => hall)
      rintro e rfl _
      exact ⟨request, List.mem_cons_self⟩
  | cons bytes rest ih =>
      have hbegin : passed <+: whole := ⟨.chunk bytes :: rest.map Part.chunk, hw⟩
      have hnext : passed ++ [.chunk bytes] ++ rest.map Part.chunk = whole := by simpa using hw
      refine keeps_bind.2 (keeps_caught.2 (keeps_perform.2 ⟨⟨passed, h⟩, fun a _ => ?_⟩))
      have hread : Holds (some handle) passed (⟨.read handle request, a⟩ :: log) := h.quiet rfl a
      cases a with
      | error e =>
          apply keeps_ending (o := .error e) hread hbegin (fun hok => nomatch hok)
          rintro _ ⟨⟩ _
          exact ⟨request, List.mem_cons_self⟩
      | ok _ =>
          have htell : D (⟨.read handle request, .ok ()⟩ :: log)
              (sent (⟨.read handle request, .ok ()⟩ :: log) ++ [.chunk bytes]) := by
            rw [hread.sent_eq]
            exact hD _ _ (List.suffix_cons _ _) ⟨_, hnext⟩
          refine keeps_bind.2 (keeps_caught.2 (keeps_perform.2 ⟨⟨⟨passed, hread⟩, htell⟩, fun a _ => ?_⟩))
          cases a with
          | ok _ => exact ih hnext hread.taken hD.cons.cons
          | error e => exact keeps_left e hread.untaken hbegin

end Bodies

def Refuses (e : Error) (o : Except Error Answer) : Prop :=
  o = match handled (Projects.asFailure e) with
    | some (status, code, message) => .ok (.refused status code message)
    | none => .error e

section Forwarding

variable (lower : String → String) (starlette : MutableHeaders) (registry : String → Except Failure Service)

/-- Where a request goes: to a server of the service it names, and to no other
than the one it is pinned to. -/
def Routed (q : Asked) (request : Outbound) (server : ServiceInstance) : Prop :=
  outbound lower registry (addressed q.serviceName).1 q.inbound (addressed q.serviceName).2 = .ok request ∧
    server ∈ request.service.instances ∧ ∀ id, (addressed q.serviceName).2 = some id → server.id = id

/-- A server that the request may go to has answered it. -/
def Served (q : Asked) (server : ServiceInstance) (s : Stream) (log : ProxyLog) : Prop :=
  ∃ request, Routed lower registry q request server ∧ ⟨.transport (sentTo request server), .ok s⟩ ∈ log

/-- The stream as it is relayed: less the headers that are not for the client,
and under the name of the server. -/
def labelled (server : ServiceInstance) (s : Stream) : Stream :=
  { s with headers := forClient lower s.headers, instanceId := some server.id }

/-- Everything that a client is told of an answer. -/
def transcript (s : Stream) (headers : Headers) : List Part := .head s.status headers :: s.chunks.map .chunk

def Stands (q : Asked) (log : ProxyLog) (parts : List Part) : Prop :=
  ∃ server s headers, Served lower registry q server s log ∧
    responseHeaders starlette (labelled lower server s) = .ok headers ∧ parts <+: transcript s headers

/-- How a request ends: with the answer of a server passed on, or as much of it
as there was; with a client that is gone; with a connection that nobody lets go,
because the client could not be told the head; or with no answer at all. -/
inductive Fate (q : Asked) (log : ProxyLog) : Except Error Answer → Prop
  | relayed {server : ServiceInstance} {s : Stream} {headers : Headers} (hs : Served lower registry q server s log)
      (hh : responseHeaders starlette (labelled lower server s) = .ok headers)
      (hp : Passed s.handle (transcript s headers) none (.ok ()) log) : Fate q log (.ok (.relayed s.status headers))
  | cut {server : ServiceInstance} {s : Stream} {headers : Headers} {e : Error} (hs : Served lower registry q server s log)
      (hh : responseHeaders starlette (labelled lower server s) = .ok headers)
      (hp : Passed s.handle (transcript s headers) none (.error e) log) : Fate q log (.error e)
  | untold {server : ServiceInstance} {s : Stream} {headers : Headers} {e : Error} (hs : Served lower registry q server s log)
      (hh : responseHeaders starlette (labelled lower server s) = .ok headers)
      (hl : ⟨.head s.status headers, .error e⟩ ∈ log) (hp : Holds (some s.handle) [] log) : Fate q log (.error e)
  | unencodable {server : ServiceInstance} {s : Stream} {f : Failure} {o : Except Error Answer}
      (hs : Served lower registry q server s log) (hh : responseHeaders starlette (labelled lower server s) = .error f)
      (ho : Refuses (.other f) o) (hp : Holds (some s.handle) [] log) : Fate q log o
  | unanswered {e : Error} {o : Except Error Answer} (ho : Refuses e o) (hp : Holds none [] log) : Fate q log o

variable {lower starlette registry} {settings : Settings} {q : Asked} {log : ProxyLog}

theorem Served.cons {server : ServiceInstance} {s : Stream} {x : (c : Call) × Except Error c.Answer}
    (h : Served lower registry q server s log) : Served lower registry q server s (x :: log) := by
  obtain ⟨request, hr, hmem⟩ := h
  exact ⟨request, hr, List.mem_cons_of_mem _ hmem⟩

theorem Served.of_suffix {server : ServiceInstance} {s : Stream} {log' : ProxyLog}
    (h : Served lower registry q server s log) (hl : log <:+ log') : Served lower registry q server s log' := by
  obtain ⟨request, hr, hmem⟩ := h
  exact ⟨request, hr, hl.subset hmem⟩

/-- Where the calls of a request may go. -/
def Goes (lower : String → String) (registry : String → Except Failure Service) (q : Asked) (r : Outbound) : Prop :=
  ∃ request server, Routed lower registry q request server ∧ r = sentTo request server

theorem pinned_serves {service : Upstreams.ServiceDefinition} {instanceId : Option String} {chosen : Option ServiceInstance}
    (h : Projects.pinned service instanceId = .ok chosen) {server : ServiceInstance}
    (hserver : chosen = some server ∨ chosen = none ∧ server ∈ service.instances) :
    server ∈ service.instances ∧ ∀ id, instanceId = some id → server.id = id := by
  cases instanceId with
  | none =>
      cases h
      rcases hserver with hserver | ⟨-, hmem⟩
      · cases hserver
      · exact ⟨hmem, fun id hid => nomatch hid⟩
  | some id =>
      cases hfind : Projects.instanceOf service id with
      | error f =>
          rw [Projects.pinned, hfind] at h
          cases h
      | ok found =>
          rw [Projects.pinned, hfind] at h
          cases h
          rcases hserver with hserver | ⟨hnone, -⟩
          · obtain rfl := Option.some.inj hserver
            rw [Projects.instanceOf] at hfind
            split at hfind
            · rename_i hfound
              cases hfind
              refine ⟨List.mem_of_find?_eq_some hfound, fun id' hid => ?_⟩
              cases hid
              simpa using List.find?_some hfound
            · cases hfind
          · cases hnone

theorem routed_of_outbound {request : Outbound} {server : ServiceInstance}
    (h : outbound lower registry (addressed q.serviceName).1 q.inbound (addressed q.serviceName).2 = .ok request)
    (hserver : request.server = some server ∨ request.server = none ∧ server ∈ request.service.instances) :
    Routed lower registry q request server := by
  have hrouted := h
  unfold outbound at hrouted
  cases hservice : registry (addressed q.serviceName).1 with
  | error f =>
      rw [hservice] at hrouted
      cases hrouted
  | ok service =>
      rw [hservice] at hrouted
      dsimp only [bind, Except.bind] at hrouted
      cases hpinned : Projects.pinned service.toServiceDefinition (addressed q.serviceName).2 with
      | error f =>
          rw [hpinned] at hrouted
          cases hrouted
      | ok chosen =>
          rw [hpinned] at hrouted
          cases hrouted
          exact ⟨h, pinned_serves hpinned hserver⟩

theorem keeps_proxied : Keeps (guard (Goes lower registry q) (Stands lower starlette registry q)) admits
    (fun o log => match o with
      | .ok (_, stream) => ∃ server s, Served lower registry q server s log ∧ Holds (some s.handle) [] log ∧
          stream = labelled lower server s
      | .error _ => Holds none [] log)
    (proxied settings lower registry (addressed q.serviceName).1 q.inbound (addressed q.serviceName).2) [] := by
  refine keeps_bind.2 (keeps_ofExcept.2 ?_)
  cases houtbound : outbound lower registry (addressed q.serviceName).1 q.inbound (addressed q.serviceName).2 with
  | error f => exact holds_nil
  | ok request =>
      have hstream : Yields (Goes lower registry q) (Stands lower starlette registry q)
          (AnsweredBy (Goes lower registry q) request) (stream settings request) :=
        yields_stream (fun server hs => ⟨request, server, routed_of_outbound houtbound (.inl hs), rfl⟩)
          fun hn server hs => ⟨request, server, routed_of_outbound houtbound (.inr ⟨hn, hs⟩), rfl⟩
      refine keeps_bind.2 ((hstream [] holds_nil).mono fun o log ho => ?_)
      cases o with
      | error e => exact ho
      | ok s =>
          obtain ⟨hheld, server, s, ⟨request', server', hrouted, heq⟩, hmem, rfl⟩ := ho
          obtain rfl : server = server' := Option.some.inj (congrArg (fun r : Outbound => r.server) heq)
          obtain rfl : request' = request := Except.ok.inj (hrouted.1.symm.trans houtbound)
          exact ⟨server, s, ⟨request', hrouted, hmem⟩, hheld, rfl⟩

theorem keeps_refuse {guard : ProxyLog → Call → Prop} {post : Except Error Answer → ProxyLog → Prop} {e : Error}
    (h : ∀ o, Refuses e o → post o log) : Keeps guard admits post (refuse e) log := by
  unfold refuse
  split
  · rename_i status code message heq
    exact h _ (by rw [Refuses, heq])
  · rename_i heq
    exact h _ (by rw [Refuses, heq])

theorem keeps_forward : Keeps (guard (Goes lower registry q) (Stands lower starlette registry q)) admits
    (fun o log => Fate lower starlette registry q log o) (forward settings lower starlette registry q) [] := by
  refine keeps_bind.2 (keeps_caught.2 (keeps_proxied.mono fun o log ho => ?_))
  match o, ho with
  | .error e, ho => exact keeps_refuse fun o hr => .unanswered hr ho
  | .ok (request, _), ⟨server, s, hs, hheld, rfl⟩ =>
      dsimp only
      cases hh : responseHeaders starlette (labelled lower server s) with
      | error f => exact keeps_refuse fun o hr => .unencodable hs hh hr hheld
      | ok headers =>
          have htells : Tells (Stands lower starlette registry q) (transcript s headers) log :=
            fun log' parts hl hparts => ⟨server, s, headers, hs.of_suffix hl, hh, hparts⟩
          have hhead : Stands lower starlette registry q log (sent log ++ [.head s.status headers]) := by
            rw [hheld.sent_eq]
            exact ⟨server, s, headers, hs, hh, List.prefix_append [Part.head s.status headers] _⟩
          refine keeps_perform_bind.2 ⟨hhead, fun a _ => ?_⟩
          cases a with
          | error e => exact .untold hs.cons hh List.mem_cons_self hheld.untold
          | ok _ =>
              have hrelay : Keeps (guard (Goes lower registry q) (Stands lower starlette registry q)) admits
                  (Passed s.handle (transcript s headers) none)
                  (relay request.toOutboundRequest s.handle s.chunks)
                  (⟨.head s.status headers, .ok ()⟩ :: log) := keeps_relay rfl hheld.told htells.cons
              refine keeps_bind.2 (hrelay.suffix.mono fun o log => ?_)
              rintro ⟨hp, hl⟩
              cases o with
              | ok _ => exact .relayed (s := s) (hs.cons.of_suffix hl) hh hp
              | error e => exact .cut (hs.cons.of_suffix hl) hh hp

end Forwarding

end CodeZard.Relays
