import CodeZard.Decorators

namespace CodeZard.Dispatches

open Programs Scripts Interleaving Upstreams Decorators

abbrev UpstreamLog := Log Call Call.Answer Error

abbrev Sending := Mode × OutboundRequest

section Stack

variable (settings : Settings) (mode : Mode)

def retrying (request : OutboundRequest) : Retrying Call Call.Answer Outcome where
  call := ask (.transport mode request)
  discard := fun _ => ask (.discard mode)
  sleep := fun attempt => ask (.sleep attempt)
  status := Outcome.status

def attempts (request : OutboundRequest) : Upstream Outcome :=
  (retrying mode request).attempts settings.retry request

def guarding (request : OutboundRequest) : Guarding Call Call.Answer Outcome where
  tryAcquire := fun target => ask (.tryAcquire target)
  onSuccess := fun target => ask (.onSuccess target)
  onFailure := fun target => ask (.onFailure target)
  onAbort := fun target => ask (.onAbort target)
  call := attempts settings mode request
  status := Outcome.status

def guarded (request : OutboundRequest) : Upstream Outcome :=
  (guarding settings mode request).guarded settings.failureStatusCodes request

def balancing : Balancing Call Call.Answer Outcome where
  rotation := fun service => ask (.rotation service)
  call := guarded settings mode
  tag := fun outcome id => { outcome with instanceId := some id }

def dispatched (request : OutboundRequest) : Upstream Outcome := (balancing settings mode).balanced request

end Stack

def body (settings : Settings) (q : Sending) : Upstream Outcome := dispatched settings q.1 q.2

/-- One call of the transport and how it ended. -/
structure Sent where
  request : OutboundRequest
  outcome : Except Error Outcome

def Sent.unsent (s : Sent) : Bool :=
  match s.outcome with
  | .ok _ => false
  | .error e => e.unsent

def Sent.server (s : Sent) : Option String := s.request.server.map ServiceInstance.id

def made : (x : (c : Call) × Except Error c.Answer) → Option Sent
  | ⟨.transport _ request, a⟩ => some ⟨request, a⟩
  | _ => none

/-- The transport calls of a log, the oldest first. -/
def transports (log : UpstreamLog) : List Sent := (log.filterMap made).reverse

/-- Only the last call may have sent anything, and no server is called twice. -/
def AtMostOnce (calls : List Sent) : Prop :=
  calls.countP (fun s => !s.unsent) ≤ 1 ∧ (∀ s ∈ calls.dropLast, s.unsent = true) ∧
    (calls.map Sent.server).Nodup

def Unsent (servers : List String) (log : UpstreamLog) : Prop :=
  (∀ s ∈ transports log, s.unsent = true ∧ ∃ id ∈ servers, s.server = some id) ∧
    ((transports log).map Sent.server).Nodup

def guard (q : Sending) (log : UpstreamLog) : Call → Prop
  | .transport _ request => q.2.isIdempotent = false →
      ∃ servers id, Unsent servers log ∧ request.server.map ServiceInstance.id = some id ∧ id ∉ servers
  | _ => True

def admits : UpstreamLog → (c : Call) → Except Error c.Answer → Prop
  | _, .rotation _, a => ∃ servers, a = .ok servers ∧ (servers.map ServiceInstance.id).Nodup
  | _, .transport .., a => ∀ name, a ≠ .error (.circuitOpen name)
  | _, .tryAcquire _, a => ∃ b, a = .ok b
  | _, .onSuccess _, a => a = .ok ()
  | _, .onFailure _, a => a = .ok ()
  | _, .onAbort _, a => a = .ok ()
  | _, _, _ => True

theorem rotation_nodup (w : World) (service : ServiceDefinition) :
    ((w.rotation service).1.map ServiceInstance.id).Nodup := by
  have hp : (w.rotation service).1.Perm service.instances := by
    have h : (w.rotation service).1.Perm (service.instances.take (w.nextTurn service.name) ++
        service.instances.drop (w.nextTurn service.name)) := List.perm_append_comm
    rwa [List.take_append_drop] at h
  exact (hp.map ServiceInstance.id).nodup_iff.2 service.distinct

theorem asDomainError_ne (request : OutboundRequest) (e : TransportError) (name : String) :
    asDomainError request e ≠ .circuitOpen name := by
  cases e <;> simp [asDomainError]

theorem admits_step {w w' : World} {log : UpstreamLog} {c : Call} {r : Reply} {a : Except Error c.Answer}
    (h : w.step c r = some (a, w')) : admits log c a := by
  cases c with
  | rotation service =>
      cases r <;> cases h
      exact ⟨_, rfl, rotation_nodup w service⟩
  | tryAcquire target =>
      cases r <;> cases h
      exact ⟨_, rfl⟩
  | transport mode request =>
      intro name
      cases r <;> cases h
      · simp
      · simpa using asDomainError_ne request _ name
      · simp
  | onSuccess target | onFailure target | onAbort target =>
      cases r <;> cases h
      rfl
  | discard mode | sleep attempt => trivial

theorem transports_cons (x : (c : Call) × Except Error c.Answer) (log : UpstreamLog) :
    transports (x :: log) = transports log ++ (made x).toList := by
  cases h : made x <;> simp [transports, h]

theorem transports_transport (mode : Mode) (request : OutboundRequest) (a : Except Error Outcome) (log : UpstreamLog) :
    transports (⟨.transport mode request, a⟩ :: log) = transports log ++ [⟨request, a⟩] :=
  transports_cons _ log

theorem transports_of_made {x : (c : Call) × Except Error c.Answer} {log : UpstreamLog} (h : made x = none) :
    transports (x :: log) = transports log := by
  rw [transports_cons, h]
  exact List.append_nil _

theorem unsent_of_made {servers : List String} {x : (c : Call) × Except Error c.Answer} {log : UpstreamLog}
    (h : made x = none) (hu : Unsent servers log) : Unsent servers (x :: log) := by
  rw [Unsent, transports_of_made h]
  exact hu

theorem unsent_nil : Unsent [] [] := ⟨fun _ hs => (nomatch hs), List.nodup_nil⟩

section Servers

variable {servers : List String} {id : String} {log : UpstreamLog} {mode : Mode} {request : OutboundRequest}
  {a : Except Error Outcome}

theorem Unsent.mono {more : List String} (h : Unsent servers log) (hs : servers ⊆ more) : Unsent more log :=
  ⟨fun s hm => ⟨(h.1 s hm).1, (h.1 s hm).2.imp fun _ hi => ⟨hs hi.1, hi.2⟩⟩, h.2⟩

theorem Unsent.fresh (h : Unsent servers log) (hs : request.server.map ServiceInstance.id = some id)
    (hid : id ∉ servers) :
    ((transports (⟨.transport mode request, a⟩ :: log)).map Sent.server).Nodup := by
  rw [transports_transport, List.map_append, List.nodup_append]
  refine ⟨h.2, List.nodup_singleton _, fun x hx y hy => ?_⟩
  obtain ⟨s, hm, rfl⟩ := List.mem_map.1 hx
  obtain ⟨i, hi, he⟩ := (h.1 s hm).2
  obtain rfl := List.mem_singleton.1 hy
  rw [he]
  intro hxy
  have : i = id := Option.some.inj (hxy.trans hs)
  exact hid (this ▸ hi)

theorem Unsent.transport {e : Error} (h : Unsent servers log)
    (hs : request.server.map ServiceInstance.id = some id) (hid : id ∉ servers) (he : e.unsent = true) :
    Unsent (id :: servers) (⟨.transport mode request, .error e⟩ :: log) := by
  refine ⟨fun s hm => ?_, h.fresh hs hid⟩
  rw [transports_transport] at hm
  rcases List.mem_append.1 hm with hm | hm
  · exact (h.mono (List.subset_cons_self id servers)).1 s hm
  · obtain rfl := List.mem_singleton.1 hm
    exact ⟨he, id, List.mem_cons_self, hs⟩

theorem Unsent.atMostOnce (h : Unsent servers log) (hs : request.server.map ServiceInstance.id = some id)
    (hid : id ∉ servers) : AtMostOnce (transports (⟨.transport mode request, a⟩ :: log)) := by
  refine ⟨?_, ?_, h.fresh hs hid⟩
  · have h0 : (transports log).countP (fun s => !s.unsent) = 0 :=
      List.countP_eq_zero.2 fun s hm => by simp [(h.1 s hm).1]
    rw [transports_transport, List.countP_append, h0, Nat.zero_add]
    exact List.countP_le_length
  · rw [transports_transport, List.dropLast_concat]
    exact fun s hm => (h.1 s hm).1

end Servers

theorem atMostOnce_of_made {x : (c : Call) × Except Error c.Answer} {log : UpstreamLog} (h : made x = none)
    (ho : AtMostOnce (transports log)) : AtMostOnce (transports (x :: log)) := by
  rwa [transports_of_made h]

theorem atMostOnce_step {q : Sending} {log : UpstreamLog} {c : Call} {a : Except Error c.Answer}
    (hq : q.2.isIdempotent = false) (hg : guard q log c) (ho : AtMostOnce (transports log)) :
    AtMostOnce (transports (⟨c, a⟩ :: log)) := by
  cases c with
  | transport mode request =>
      obtain ⟨servers, id, hu, hs, hid⟩ := hg hq
      exact hu.atMostOnce hs hid
  | _ => exact atMostOnce_of_made rfl ho

section Requests

variable {settings : Settings} {mode : Mode} {q : Sending} {servers : List String}
  {log : UpstreamLog}

def PassedOver (q : Sending) (servers : List String) (o : Except Error Outcome) (log : UpstreamLog) : Prop :=
  ∀ e, o = .error e → passesOver q.2 e = true → Unsent servers log

theorem passesOver_cases {r : OutboundRequest} {e : Error} (hr : r.isIdempotent = false)
    (h : passesOver r e = true) : (∃ name, e = .circuitOpen name) ∨ e.unsent = true := by
  cases e with
  | circuitOpen name => exact .inl ⟨name, rfl⟩
  | timeout service sent | connection service sent =>
      exact .inr (by simpa [passesOver, canFailOver, hr, Error.isUpstream] using h)
  | other f => simp [passesOver, Error.isUpstream] at h

theorem guarded_keeps (request : OutboundRequest) {server : ServiceInstance} (hq : q.2.isIdempotent = false)
    (hr : request.isIdempotent = false) (hs : request.server = some server) (hu : Unsent servers log)
    (hid : server.id ∉ servers) :
    Keeps (guard q) admits (PassedOver q (server.id :: servers)) (guarded settings mode request) log := by
  have hsub := List.subset_cons_self server.id servers
  have hserver : request.server.map ServiceInstance.id = some server.id := by rw [hs]; rfl
  refine keeps_perform_bind.2 ⟨trivial, ?_⟩
  rintro _ ⟨acquired, rfl⟩
  cases acquired with
  | false => exact fun e _ _ => (unsent_of_made rfl hu).mono hsub
  | true =>
      have hu' := unsent_of_made (x := ⟨.tryAcquire request.target, .ok true⟩) rfl hu
      have hbody : (guarding settings mode request).call = perform (Call.transport mode request) := by
        simp [guarding, attempts, Retrying.attempts, retrying, hr, ask]
      refine keeps_bind.2 (keeps_rescue.2 ?_)
      rw [hbody]
      refine keeps_perform.2 ⟨fun _ => ⟨servers, server.id, hu', hserver, hid⟩, fun a ha => ?_⟩
      cases a with
      | ok outcome =>
          dsimp only
          split
          all_goals
            refine keeps_perform_bind.2 ⟨trivial, ?_⟩
            rintro _ rfl
            exact fun e he => nomatch he
      | error e =>
          have hraise : PassedOver q (server.id :: servers) (.error e)
              (⟨.transport mode request, .error e⟩ :: ⟨.tryAcquire request.target, .ok true⟩ :: log) := by
            rintro _ ⟨rfl⟩ hp
            rcases passesOver_cases hq hp with ⟨name, rfl⟩ | he
            · exact absurd rfl (ha name)
            · exact hu'.transport hserver hid he
          dsimp only
          split
          all_goals
            refine keeps_perform_bind.2 ⟨trivial, ?_⟩
            rintro _ rfl
            exact fun e' he' hp => unsent_of_made rfl (hraise e' he' hp)

theorem sendTo_keeps (hq : q.2.isIdempotent = false) {server : ServiceInstance}
    (hu : Unsent servers log) (hid : server.id ∉ servers) :
    Keeps (guard q) admits (PassedOver q (server.id :: servers)) ((balancing settings mode).sendTo server q.2) log := by
  refine keeps_bind.2 ((guarded_keeps { q.2 with server := some server } hq hq rfl hu hid).mono ?_)
  intro o log h
  cases o with
  | ok outcome => exact fun e he => nomatch he
  | error e => exact h

theorem failover_keeps (hq : q.2.isIdempotent = false) (errors : List Error) (rest : List ServiceInstance)
    (hn : (rest.map ServiceInstance.id).Nodup) (hu : Unsent servers log)
    (hd : ∀ server ∈ rest, server.id ∉ servers) :
    Keeps (guard q) admits (fun _ _ => True) ((balancing settings mode).failover q.2 errors rest) log := by
  induction rest generalizing errors servers log with
  | nil => trivial
  | cons server rest ih =>
      rw [List.map_cons, List.nodup_cons] at hn
      refine keeps_bind.2 (keeps_rescue.2 (keeps_bind.2 ?_))
      refine (sendTo_keeps hq hu (hd server List.mem_cons_self)).mono fun o log h => ?_
      cases o with
      | ok outcome => trivial
      | error e =>
          by_cases hp : passesOver q.2 e = true
          · simp only [hp, if_true]
            refine ih (errors ++ [e]) hn.2 (h e rfl hp) fun s hs hm => ?_
            rcases List.mem_cons.1 hm with he | hm
            · exact hn.1 (List.mem_map.2 ⟨s, hs, he⟩)
            · exact hd s (List.mem_cons_of_mem _ hs) hm
          · simp only [hp]
            trivial

theorem body_keeps (hq : q.2.isIdempotent = false) :
    Keeps (guard q) admits (fun _ _ => True) (body settings q) [] := by
  unfold body dispatched Balancing.balanced
  cases hs : q.2.server with
  | some server =>
      exact (sendTo_keeps hq unsent_nil List.not_mem_nil).mono fun _ _ _ => trivial
  | none =>
      refine keeps_perform_bind.2 ⟨trivial, ?_⟩
      rintro _ ⟨rotation, rfl, hn⟩
      exact failover_keeps hq [] rotation hn (unsent_of_made rfl unsent_nil) fun s _ => List.not_mem_nil

end Requests

theorem guard_of_idempotent {q : Sending} (hq : q.2.isIdempotent = true) (log : UpstreamLog) (c : Call) :
    guard q log c := by
  cases c with
  | transport mode request => exact fun h => absurd (hq.symm.trans h) (by decide)
  | _ => trivial

def protocol (settings : Settings) : Protocol (body settings) World.step anyRequest anyStep where
  inv _ vs := ∀ v ∈ vs, v.request.2.isIdempotent = false → AtMostOnce (transports v.log)
  guard := guard
  admits _ := admits
  post _ _ _ := True
  arrive _ hi := by
    intro v hv hq
    rcases List.mem_append.1 hv with hv | hv
    · exact hi v hv hq
    · obtain rfl := List.mem_singleton.1 hv
      exact ⟨Nat.zero_le 1, fun _ hs => (nomatch hs), List.nodup_nil⟩
  follows := by
    intro q _
    cases hq : q.2.isIdempotent with
    | false => exact body_keeps hq
    | true => exact keeps_of_guard (guard_of_idempotent hq) _
  sound := by
    intro w vs i q log c r a w' hi hv hg _ hs
    refine ⟨fun u hu hq => ?_, admits_step hs⟩
    rcases List.mem_or_eq_of_mem_set hu with hu | rfl
    · exact hi u hu hq
    · exact atMostOnce_step hq hg (hi _ (List.mem_of_getElem? hv) hq)
  leave := by
    intro w vs i q log o hi hv _ u hu hq
    rcases List.mem_or_eq_of_mem_set hu with hu | rfl
    · exact hi u hu hq
    · exact hi ⟨q, log, none⟩ (List.mem_of_getElem? hv) hq

/-- However the transport calls of any number of requests end, and whatever the
breakers and the turns are, a request that may not be repeated is sent at most
once, by the last call made for it, and no server is called twice for it. -/
theorem sent_at_most_once (settings : Settings) {w : World} {c : Config World Sending Call Call.Answer Error Outcome}
    (h : Reaches (body settings) World.step anyRequest anyStep w c)
    {v : View Sending Call Call.Answer Error Outcome} (hv : v ∈ c.views) (hq : v.request.2.isIdempotent = false) :
    AtMostOnce (transports v.log) :=
  (protocol settings).invariant (fun _ hv => nomatch hv) h v hv hq

def twoServers : ServiceDefinition where
  name := "agent"
  instances := [⟨"http://a", "a"⟩, ⟨"http://b", "b"⟩]
  inhabited := by decide
  distinct := by decide

def posted : OutboundRequest := { service := twoServers, method := "post", path := "run" }

def refusedOnce : List (Event Sending Reply) :=
  [.start (.send, posted), .step 0 .done, .step 0 (.time 0), .step 0 (.broken .connectError), .step 0 (.time 0),
    .step 0 (.time 0), .step 0 (.answered 200), .step 0 .done, .finish 0]

theorem sent_at_most_once_refused :
    ∃ c v, Reaches (body {}) World.step anyRequest anyStep {} c ∧ v ∈ c.views ∧
      v.request.2.isIdempotent = false ∧ (transports v.log).length = 2 ∧ AtMostOnce (transports v.log) := by
  have hrun : (run (body {}) World.step anyRequest anyStep ⟨{}, []⟩ refusedOnce).any
      (fun c => c.views.any fun v => !v.request.2.isIdempotent && (transports v.log).length == 2) = true := by
    decide +kernel
  obtain ⟨c, hc, hp⟩ := reaches_of_run hrun
  obtain ⟨v, hv, hp⟩ := List.any_eq_true.1 hp
  rw [Bool.and_eq_true, Bool.not_eq_true', beq_iff_eq] at hp
  exact ⟨c, v, hc, hv, hp.1, hp.2, sent_at_most_once {} hc hv hp.1⟩

end CodeZard.Dispatches
