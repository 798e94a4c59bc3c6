import CodeZard.Documents
import CodeZard.Endings
import CodeZard.Projects
import CodeZard.Turns

namespace CodeZard.Pinning

open Programs Interleaving Compositions Endings Upstreams Decorators Dispatches StreamScans Values Projects
open RunLogs (Bytes)

def targetOf (service : ServiceDefinition) (s : ServiceInstance) : String :=
  ({ service := service, method := "", path := "", server := some s } : OutboundRequest).target

def turn : UpstreamLog → Option (List ServiceInstance)
  | [] => none
  | ⟨.rotation _, .ok servers⟩ :: _ => some servers
  | _ :: log => turn log

def shutAt : UpstreamLog → List String
  | [] => []
  | ⟨.tryAcquire target, .ok false⟩ :: log => target :: shutAt log
  | _ :: log => shutAt log

/-- The servers that the transport was called for. -/
def reached (log : UpstreamLog) : List (Option ServiceInstance) := (transports log).map fun s => s.request.server

def repeatable (s : Sent) : Bool :=
  match s.outcome with
  | .ok _ => false
  | .error e => passesOver s.request e

def overs : UpstreamLog → Nat
  | [] => 0
  | ⟨.onFailure _, _⟩ :: log => overs log + if (transports log).getLast?.any repeatable then 1 else 0
  | _ :: log => overs log

/-- The server of the last call of the transport that was answered. -/
def answerer : UpstreamLog → Option ServiceInstance
  | [] => none
  | ⟨.transport _ request, .ok _⟩ :: _ => request.server
  | _ :: log => answerer log

/-- A request that was sent to one server and to no other. -/
def SentTo (i : ServiceInstance) (log : UpstreamLog) : Prop := reached log ≠ [] ∧ ∀ o ∈ reached log, o = some i

/-- Of the request's turn, a server is the first one whose circuit lets the
request through, and it does not pass the request over or nobody takes it then. -/
def FallsTo (service : ServiceDefinition) (i : ServiceInstance) (log : UpstreamLog) : Prop :=
  ∃ passed rest, turn log = some (passed ++ i :: rest) ∧ (∀ s ∈ passed, targetOf service s ∈ shutAt log) ∧
    targetOf service i ∉ shutAt log ∧ (overs log = 0 ∨ ∀ s ∈ rest, targetOf service s ∈ shutAt log)

/-- What the upstream half of the world may answer: the turn is an order of all
servers, and only the transport fails in a way that the decorators know. -/
def answers (_ : UpstreamLog) : (c : Upstreams.Call) → Except Error c.Answer → Prop
  | .rotation service, a => ∃ servers, a = .ok servers ∧ servers.Perm service.instances
  | .tryAcquire _, a => ∃ b, a = .ok b
  | .onSuccess _, a => a = .ok ()
  | .onFailure _, a => a = .ok ()
  | .onAbort _, a => a = .ok ()
  | .transport .., a => ∀ name, a ≠ .error (.circuitOpen name)
  | .discard _, a => ∀ e, a = .error e → ∃ f, e = .other f
  | .sleep _, a => ∀ e, a = .error e → ∃ f, e = .other f

theorem rotation_perm (w : Upstreams.World) (service : ServiceDefinition) :
    (w.rotation service).1.Perm service.instances := by
  have h : (w.rotation service).1.Perm (service.instances.take (w.nextTurn service.name) ++
      service.instances.drop (w.nextTurn service.name)) := List.perm_append_comm
  rwa [List.take_append_drop] at h

theorem answers_step {w w' : Upstreams.World} {log : UpstreamLog} {c : Upstreams.Call} {r : Upstreams.Reply}
    {a : Except Error c.Answer} (h : w.step c r = some (a, w')) : answers log c a := by
  cases c with
  | rotation service =>
      cases r <;> cases h
      exact ⟨_, rfl, rotation_perm w service⟩
  | tryAcquire target =>
      cases r <;> cases h
      exact ⟨_, rfl⟩
  | transport mode request =>
      intro name
      cases r <;> cases h
      · simp
      · simpa using asDomainError_ne request _ name
      · simp
  | onSuccess target | onFailure target | onAbort target =>
      cases r <;> cases h
      rfl
  | discard mode | sleep attempt =>
      cases r <;> cases h
      · intro e he
        cases he
      · rintro e ⟨⟩
        exact ⟨_, rfl⟩

/-- The transport is only called for the servers of one service. -/
def own (service : ServiceDefinition) (_ : UpstreamLog) : Upstreams.Call → Prop
  | .transport _ request => ∃ s ∈ service.instances, request.server = some s
  | _ => True

/-- The request has its turn and tried some servers of it, of which some let it
through, and some of these passed it over. -/
structure Walked (service : ServiceDefinition) (t : List ServiceInstance) (tried : List (ServiceInstance × Bool))
    (n : Nat) (log : UpstreamLog) : Prop where
  turn : turn log = some t
  shutAt : ∀ target, target ∈ shutAt log ↔ ∃ x ∈ tried, x.2 = false ∧ targetOf service x.1 = target
  reached : ∀ o, o ∈ reached log ↔ ∃ x ∈ tried, x.2 = true ∧ o = some x.1
  overs : overs log = n

section Dispatching

variable {settings : Upstreams.Settings} {mode : Mode} {q request : OutboundRequest} {t : List ServiceInstance}
  {tried : List (ServiceInstance × Bool)} {n : Nat} {server : ServiceInstance} {log : UpstreamLog}

theorem transport_reached (mode : Mode) (hr : request.server = some server) (a : Except Error Outcome) (log : UpstreamLog)
    (o : Option ServiceInstance) :
    o ∈ reached (⟨.transport mode request, a⟩ :: log) ↔ o ∈ reached log ∨ o = some server := by
  rw [reached, transports_transport, List.map_append, List.mem_append, List.map_cons, hr]
  simp [reached]

def Trying (q : OutboundRequest) (t : List ServiceInstance) (tried : List (ServiceInstance × Bool)) (n : Nat)
    (server : ServiceInstance) (log : UpstreamLog) : Prop :=
  Walked q.service t tried n log ∨ Walked q.service t (tried ++ [(server, true)]) n log

theorem Trying.transport (h : Trying q t tried n server log) (hr : request.server = some server)
    (a : Except Error Outcome) :
    Walked q.service t (tried ++ [(server, true)]) n (⟨.transport mode request, a⟩ :: log) := by
  rcases h with h | h
  all_goals
    refine ⟨h.turn, fun target => (h.shutAt target).trans (by simp), fun o => ?_, h.overs⟩
    rw [transport_reached mode hr, h.reached]
    simp [or_and_right, exists_or]

/-- What attempts on one server leave: an error that the decorators know is that
of the last call. -/
def Attempted (q : OutboundRequest) (t : List ServiceInstance) (tried : List (ServiceInstance × Bool)) (n : Nat)
    (server : ServiceInstance) (o : Except Error Outcome) (log : UpstreamLog) : Prop :=
  Walked q.service t (tried ++ [(server, true)]) n log ∧
    (∀ outcome, o = .ok outcome → (transports log).getLast?.any repeatable = false) ∧
    ∀ e, o = .error e → ((transports log).getLast?.any repeatable = passesOver q e ∧ ∀ name, e ≠ .circuitOpen name) ∨
      ∃ f, e = .other f

theorem getLast?_transports (mode : Mode) (request : OutboundRequest) (a : Except Error Outcome) (log : UpstreamLog) :
    (transports (⟨.transport mode request, a⟩ :: log)).getLast? = some ⟨request, a⟩ := by
  rw [transports_transport, List.getLast?_concat]

theorem keeps_transport (h : Trying q t tried n server log) (hs : server ∈ q.service.instances) :
    Keeps (own q.service) answers (Attempted q t tried n server)
      (ask (.transport mode { q with server := some server })) log := by
  refine keeps_perform.2 ⟨⟨server, hs, rfl⟩, fun a ha => ⟨h.transport rfl a, ?_, ?_⟩⟩
  · rintro outcome rfl
    rw [getLast?_transports]
    rfl
  · rintro e rfl
    refine .inl ⟨?_, fun name he => ha name (he ▸ rfl)⟩
    rw [getLast?_transports]
    rfl

theorem attempted_error {e : Error} (h : Walked q.service t (tried ++ [(server, true)]) n log) (he : ∃ f, e = .other f) :
    Attempted q t tried n server (.error e) log := by
  refine ⟨h, fun outcome ho => (by cases ho), fun e' he' => .inr ?_⟩
  cases he'
  exact he

theorem keeps_backoff {f : Unit → Upstream Outcome} (attempt : Nat)
    (h : Walked q.service t (tried ++ [(server, true)]) n log)
    (hf : ∀ log, Trying q t tried n server log → Keeps (own q.service) answers (Attempted q t tried n server) (f ()) log) :
    Keeps (own q.service) answers (Attempted q t tried n server)
      ((Retrying.backoff (retrying mode { q with server := some server }) { q with server := some server } attempt).bind f)
      log := by
  refine keeps_bind.2 (keeps_bind.2 (keeps_ofExcept.2 ?_))
  cases Paths.url { q with server := some server } with
  | error failure => exact attempted_error h ⟨failure, rfl⟩
  | ok url =>
      refine keeps_perform.2 ⟨trivial, fun a ha => ?_⟩
      have h' : Walked q.service t (tried ++ [(server, true)]) n (⟨.sleep attempt, a⟩ :: log) :=
        ⟨h.turn, h.shutAt, h.reached, h.overs⟩
      cases a with
      | ok u => exact hf _ (.inr h')
      | error e => exact attempted_error h' (ha e rfl)

theorem keeps_attempting (hs : server ∈ q.service.instances) (attempt : Nat) {log : UpstreamLog}
    (h : Trying q t tried n server log) : Keeps (own q.service) answers (Attempted q t tried n server)
      (Retrying.attempting settings.retry (retrying mode { q with server := some server }) { q with server := some server }
        attempt) log := by
  rw [Retrying.attempting]
  refine keeps_bind.2 (keeps_caught.2 ((keeps_transport h hs).mono fun o log ho => ?_))
  cases o with
  | error e =>
      dsimp only
      split
      · exact ho
      · exact keeps_backoff attempt ho.1 fun log hlog => keeps_attempting hs (attempt + 1) hlog
  | ok outcome =>
      dsimp only
      split
      · exact ho
      · refine keeps_perform_bind.2 ⟨trivial, fun a ha => ?_⟩
        have h' : Walked q.service t (tried ++ [(server, true)]) n (⟨.discard mode, a⟩ :: log) :=
          ⟨ho.1.turn, ho.1.shutAt, ho.1.reached, ho.1.overs⟩
        cases a with
        | ok u => exact keeps_backoff attempt h' fun log hlog => keeps_attempting hs (attempt + 1) hlog
        | error e => exact attempted_error h' (ha e rfl)
  termination_by settings.retry.maxAttempts - attempt

theorem keeps_attempts (hs : server ∈ q.service.instances) (h : Trying q t tried n server log) :
    Keeps (own q.service) answers (Attempted q t tried n server)
      (attempts settings mode { q with server := some server }) log := by
  unfold attempts Retrying.attempts
  split
  · exact keeps_transport h hs
  · exact keeps_attempting hs 1 h

def skipped (q : OutboundRequest) : Except Error Outcome → Nat
  | .ok _ => 0
  | .error e => if passesOver q e then 1 else 0

/-- A server was tried: its circuit was open, or the request was sent to it. -/
inductive Tried (q : OutboundRequest) (t : List ServiceInstance) (tried : List (ServiceInstance × Bool)) (n : Nat)
    (server : ServiceInstance) (o : Except Error Outcome) (log : UpstreamLog) : Prop
  | shut (name : String) (ho : o = .error (.circuitOpen name)) (h : Walked q.service t (tried ++ [(server, false)]) n log)
  | sent (h : Walked q.service t (tried ++ [(server, true)]) (n + skipped q o) log)

theorem passesOver_of_not_upstream {e : Error} (he : e.isUpstream = false) (hn : ∀ name, e ≠ .circuitOpen name) :
    passesOver q e = false := by
  cases e with
  | circuitOpen name => exact absurd rfl (hn name)
  | timeout service sent | connection service sent => cases he
  | other f => rfl

theorem walked_shut (h : Walked q.service t tried n log) :
    Walked q.service t (tried ++ [(server, false)]) n (⟨.tryAcquire (targetOf q.service server), .ok false⟩ :: log) := by
  refine ⟨h.turn, fun target => ?_, fun o => (h.reached o).trans (by simp), h.overs⟩
  rw [shutAt, List.mem_cons, h.shutAt]
  constructor
  · rintro (rfl | ⟨x, hx, hb, rfl⟩)
    · exact ⟨_, List.mem_append_right _ List.mem_cons_self, rfl, rfl⟩
    · exact ⟨x, List.mem_append_left _ hx, hb, rfl⟩
  · rintro ⟨x, hx, hb, rfl⟩
    rcases List.mem_append.1 hx with hx | hx
    · exact .inr ⟨x, hx, hb, rfl⟩
    · obtain rfl := List.mem_singleton.1 hx
      exact .inl rfl

theorem keeps_guarded (hs : server ∈ q.service.instances) (h : Walked q.service t tried n log) :
    Keeps (own q.service) answers (Tried q t tried n server)
      (guarded settings mode { q with server := some server }) log := by
  refine keeps_perform_bind.2 ⟨trivial, ?_⟩
  rintro _ ⟨acquired, rfl⟩
  cases acquired with
  | false => exact .shut _ rfl (walked_shut h)
  | true =>
      have h' : Walked q.service t tried n
          (⟨.tryAcquire ({ q with server := some server } : OutboundRequest).target, .ok true⟩ :: log) :=
        ⟨h.turn, h.shutAt, h.reached, h.overs⟩
      refine keeps_bind.2 (keeps_rescue.2 ((keeps_attempts hs (.inl h')).mono ?_))
      rintro o log ⟨ho, hok, herror⟩
      cases o with
      | ok outcome =>
          dsimp only
          split
          · refine keeps_perform_bind.2 ⟨trivial, ?_⟩
            rintro _ rfl
            refine .sent ⟨ho.turn, ho.shutAt, ho.reached, ?_⟩
            simp [overs, hok outcome rfl, ho.overs, skipped]
          · refine keeps_perform_bind.2 ⟨trivial, ?_⟩
            rintro _ rfl
            exact .sent ⟨ho.turn, ho.shutAt, ho.reached, ho.overs⟩
      | error e =>
          dsimp only
          split
          · refine keeps_perform_bind.2 ⟨trivial, ?_⟩
            rintro _ rfl
            refine .sent ⟨ho.turn, ho.shutAt, ho.reached, ?_⟩
            rcases herror e rfl with ⟨hlast, _⟩ | ⟨f, rfl⟩
            · simp [overs, hlast, ho.overs, skipped]
            · cases ‹(Error.other f).isUpstream = true›
          · refine keeps_perform_bind.2 ⟨trivial, ?_⟩
            rintro _ rfl
            have hpass : passesOver q e = false := by
              rcases herror e rfl with ⟨_, hname⟩ | ⟨f, rfl⟩
              · exact passesOver_of_not_upstream (Bool.eq_false_iff.2 ‹_›) hname
              · rfl
            refine .sent ⟨ho.turn, ho.shutAt, ho.reached, ?_⟩
            simp [overs, ho.overs, skipped, hpass]

def Stopped (service : ServiceDefinition) (t : List ServiceInstance) (log : UpstreamLog) : Prop :=
  ∃ tried rest n, t = tried.map Prod.fst ++ rest ∧ Walked service t tried n log ∧
    (rest = [] ∧ n = tried.countP Prod.snd ∨ ∃ before s, tried = before ++ [(s, true)] ∧ n = before.countP Prod.snd)

theorem keeps_failover (errors : List Error) (rest : List ServiceInstance) (ht : t = tried.map Prod.fst ++ rest)
    (hs : ∀ s ∈ rest, s ∈ q.service.instances) (h : Walked q.service t tried (tried.countP Prod.snd) log) :
    Keeps (own q.service) answers (fun _ log => Stopped q.service t log) ((balancing settings mode).failover q errors rest) log := by
  induction rest generalizing errors tried log with
  | nil =>
      have hend : Stopped q.service t log := ⟨tried, [], _, ht, h, .inl ⟨rfl, rfl⟩⟩
      exact hend
  | cons server rest ih =>
      have ht' (b : Bool) : t = (tried ++ [(server, b)]).map Prod.fst ++ rest := by simp [ht]
      refine keeps_bind.2 (keeps_rescue.2 (keeps_bind.2 (keeps_bind.2
        ((keeps_guarded (hs server List.mem_cons_self) h).mono fun o log h => ?_))))
      cases o with
      | ok outcome =>
          rcases h with ⟨_, ho, _⟩ | h
          · cases ho
          · exact ⟨_, rest, _, ht' true, h, .inr ⟨tried, server, rfl, rfl⟩⟩
      | error e =>
          by_cases hp : passesOver q e = true
          · simp only [hp, if_true]
            rcases h with ⟨_, _, h⟩ | h
            · apply ih (errors ++ [e]) (ht' false) (fun s hm => hs s (List.mem_cons_of_mem _ hm))
              simpa using h
            · apply ih (errors ++ [e]) (ht' true) (fun s hm => hs s (List.mem_cons_of_mem _ hm))
              simpa [skipped, hp] using h
          · simp only [hp]
            rcases h with ⟨name, ho, _⟩ | h
            · cases ho
              exact absurd rfl hp
            · refine ⟨_, rest, _, ht' true, h, .inr ⟨tried, server, rfl, ?_⟩⟩
              simp [skipped, hp]

theorem keeps_dispatched (hq : q.server = none) :
    Keeps (own q.service) answers (fun _ log => ∃ t, t.Perm q.service.instances ∧ Stopped q.service t log)
      (dispatched settings mode q) [] := by
  unfold dispatched Balancing.balanced
  rw [hq]
  refine keeps_perform_bind.2 ⟨trivial, ?_⟩
  rintro _ ⟨t, rfl, ht⟩
  have h : Walked q.service t [] (([] : List (ServiceInstance × Bool)).countP Prod.snd) [⟨.rotation q.service, .ok t⟩] :=
    ⟨rfl, by simp [shutAt], by simp [reached, transports, made], rfl⟩
  have hall : t = ([] : List (ServiceInstance × Bool)).map Prod.fst ++ t := rfl
  exact (keeps_failover [] t hall (fun s hs => ht.mem_iff.1 hs) h).mono fun o log h => ⟨t, ht, h⟩

end Dispatching

section Walks

variable {service : ServiceDefinition} {t : List ServiceInstance} {tried : List (ServiceInstance × Bool)} {n : Nat}
  {i : ServiceInstance} {log : UpstreamLog}

theorem targetOf_inj {s s' : ServiceInstance} (h : targetOf service s = targetOf service s') : s.id = s'.id :=
  (String.append_right_inj _).1 h

theorem Walked.shut_iff (h : Walked service t tried n log) (hn : (tried.map fun x => x.1.id).Nodup)
    {x : ServiceInstance × Bool} (hx : x ∈ tried) : targetOf service x.1 ∈ Pinning.shutAt log ↔ x.2 = false := by
  rw [h.shutAt]
  constructor
  · rintro ⟨y, hy, hb, heq⟩
    obtain rfl := List.inj_on_of_nodup_map hn hy hx (targetOf_inj heq)
    exact hb
  · intro hb
    exact ⟨x, hx, hb, rfl⟩

theorem fallsTo_of_sentTo (hn : (t.map ServiceInstance.id).Nodup) (h : Stopped service t log) (hi : SentTo i log) :
    FallsTo service i log := by
  obtain ⟨hne, hall⟩ := hi
  obtain ⟨tried, rest, n, ht, hw, hend⟩ := h
  have hids : (tried.map fun x => x.1.id).Nodup := by
    rw [ht, List.map_append, List.map_map] at hn
    exact hn.of_append_left
  have hshut {x : ServiceInstance × Bool} (hx : x ∈ tried) := hw.shut_iff hids hx
  have honly {x : ServiceInstance × Bool} (hx : x ∈ tried) (hb : x.2 = true) : x.1 = i :=
    Option.some.inj (hall _ ((hw.reached _).2 ⟨x, hx, hb, rfl⟩))
  obtain ⟨o, ho⟩ := List.exists_mem_of_ne_nil _ hne
  obtain ⟨⟨s, b⟩, hx, rfl, rfl⟩ := (hw.reached o).1 ho
  obtain rfl := honly hx rfl
  obtain ⟨as, bs, hsplit⟩ := List.append_of_mem hx
  subst hsplit
  rw [List.map_append, List.map_cons, List.nodup_middle, ← List.map_append] at hids
  have hothers {x : ServiceInstance × Bool} (hm : x ∈ as ++ bs) : x.2 = false := by
    cases hb : x.2 with
    | false => rfl
    | true =>
        have hmem : x ∈ as ++ (s, true) :: bs := by
          rcases List.mem_append.1 hm with hm | hm
          · exact List.mem_append_left _ hm
          · exact List.mem_append_right _ (List.mem_cons_of_mem _ hm)
        obtain rfl := honly hmem hb
        exact absurd (List.mem_map.2 ⟨x, hm, rfl⟩) (List.nodup_cons.1 hids).1
  have hnone {l : List (ServiceInstance × Bool)} (hl : l ⊆ as ++ bs) : l.countP Prod.snd = 0 :=
    List.countP_eq_zero.2 fun x hx => by simp [hothers (hl hx)]
  have hclosed {l : List (ServiceInstance × Bool)} (hl : l ⊆ as ++ bs) (hl' : l ⊆ as ++ (s, true) :: bs) :
      ∀ u ∈ l.map Prod.fst, targetOf service u ∈ shutAt log := by
    intro u hu
    obtain ⟨x, hx, rfl⟩ := List.mem_map.1 hu
    exact (hshut (hl' hx)).2 (hothers (hl hx))
  refine ⟨as.map Prod.fst, bs.map Prod.fst ++ rest, ?_, ?_, ?_, ?_⟩
  · rw [hw.turn, ht]
    simp
  · exact hclosed (List.subset_append_left as bs) (List.subset_append_left as _)
  · intro hi
    cases (hshut hx).1 hi
  · rcases hend with ⟨rfl, _⟩ | ⟨before, u, hlast, rfl⟩
    · refine .inr ?_
      rw [List.append_nil]
      exact hclosed (List.subset_append_right as bs)
        fun x hx => List.mem_append_right _ (List.mem_cons_of_mem _ hx)
    · have hcount := congrArg (List.countP Prod.snd) hlast
      simp only [List.countP_append, List.countP_cons, List.countP_nil,
        hnone (List.subset_append_left as bs), hnone (List.subset_append_right as bs)] at hcount
      refine .inl ?_
      rw [hw.overs]
      omega

theorem sentTo_of_fallsTo (hn : (t.map ServiceInstance.id).Nodup) (h : Stopped service t log)
    (hi : FallsTo service i log) : SentTo i log := by
  obtain ⟨passed, rest', hturn, hpassed, hi, hlast⟩ := hi
  obtain ⟨tried, rest, n, ht, hw, hend⟩ := h
  have hids : (tried.map fun x => x.1.id).Nodup := by
    rw [ht, List.map_append, List.map_map] at hn
    exact hn.of_append_left
  have hshut {x : ServiceInstance × Bool} (hx : x ∈ tried) := hw.shut_iff hids hx
  have hsplit : tried.map Prod.fst ++ rest = passed ++ i :: rest' := by
    rw [← ht]
    exact Option.some.inj (hw.turn.symm.trans hturn)
  have hopen {x : ServiceInstance × Bool} (hx : x ∈ tried) (hb : x.2 = true) : x.1 ∉ passed := by
    intro hp
    rw [(hshut hx).1 (hpassed x.1 hp)] at hb
    cases hb
  have hlong {as : List ServiceInstance} (hp : passed = tried.map Prod.fst ++ as) : False := by
    rcases hend with ⟨rfl, _⟩ | ⟨before, u, rfl, _⟩
    · rw [hp] at hsplit
      simp at hsplit
    · refine absurd ?_ (hopen (x := (u, true)) (by simp) rfl)
      rw [hp]
      simp
  have htried : (i, true) ∈ tried := by
    rcases List.append_eq_append_iff.1 hsplit with ⟨as, hp, _⟩ | ⟨as, hp, hr⟩
    · exact (hlong hp).elim
    · cases as with
      | nil =>
          rw [List.append_nil] at hp
          exact (hlong (hp.symm.trans (List.append_nil _).symm)).elim
      | cons a as =>
          obtain rfl : i = a := (List.cons.inj hr).1
          have hmem : i ∈ tried.map Prod.fst := by
            rw [hp]
            exact List.mem_append_right _ List.mem_cons_self
          obtain ⟨⟨s, b⟩, hx, rfl⟩ := List.mem_map.1 hmem
          cases b with
          | true => exact hx
          | false => exact absurd ((hshut hx).2 rfl) hi
  refine ⟨List.ne_nil_of_mem ((hw.reached _).2 ⟨_, htried, rfl, rfl⟩), fun o ho => ?_⟩
  obtain ⟨x, hx, hb, rfl⟩ := (hw.reached o).1 ho
  have hmem : x.1 ∈ passed ++ i :: rest' := by
    rw [← hsplit]
    exact List.mem_append_left _ (List.mem_map.2 ⟨x, hx, rfl⟩)
  rcases List.mem_append.1 hmem with hp | hm
  · exact absurd hp (hopen hx hb)
  · rcases List.mem_cons.1 hm with hxi | hr
    · rw [hxi]
    · rcases hlast with hzero | hall
      · rw [hw.overs] at hzero
        rcases hend with ⟨_, hc⟩ | ⟨before, u, rfl, hc⟩
        · exact absurd rfl (List.countP_eq_zero.1 (hc.symm.trans hzero) _ htried)
        · have hlast {y : ServiceInstance × Bool} (hy : y ∈ before ++ [(u, true)]) (hb : y.2 = true) :
              y = (u, true) := by
            rcases List.mem_append.1 hy with hm | hm
            · exact absurd hb (List.countP_eq_zero.1 (hc.symm.trans hzero) y hm)
            · exact List.mem_singleton.1 hm
          rw [hlast hx hb, ← hlast htried rfl]
      · rw [(hshut hx).1 (hall x.1 hr)] at hb
        cases hb

end Walks

abbrev ProjectLog := Log Projects.Call Projects.Call.Answer Failure

def decorated : ((c : Projects.Call) × Except Failure c.Answer) → Option ((c : Upstreams.Call) × Except Error c.Answer)
  | ⟨.upstream c, .ok a⟩ => some ⟨c, a⟩
  | _ => none

def upstreamLog (log : ProjectLog) : UpstreamLog := log.filterMap decorated

def guard (service : ServiceDefinition) : ProjectLog → Projects.Call → Prop
  | _, .upstream c => own service [] c
  | _, _ => True

def admits : ProjectLog → (c : Projects.Call) → Except Failure c.Answer → Prop
  | _, .upstream c, a => ∃ b, a = .ok b ∧ answers [] c b
  | _, .run _, a => ∃ b, a = .ok b
  | _, .readBody, a => ∃ b, a = .ok b

theorem admits_step {w w' : Projects.World} {log : ProjectLog} {c : Projects.Call} {r : Projects.Reply}
    {a : Except Failure c.Answer} (h : w.step c r = some (a, w')) : admits log c a := by
  cases c with
  | upstream c =>
      cases r with
      | upstream r =>
          obtain ⟨⟨b, w₁⟩, hs, he⟩ := Option.map_eq_some_iff.1 h
          cases he
          exact ⟨b, rfl, answers_step hs⟩
      | _ => cases h
  | run c =>
      cases r with
      | run r =>
          simp only [Projects.World.step, Option.ite_none_left_eq_some] at h
          obtain ⟨_, hs, he⟩ := Option.map_eq_some_iff.1 h.2
          cases he
          exact ⟨_, rfl⟩
      | _ => cases h
  | readBody => cases r <;> cases h <;> exact ⟨_, rfl⟩

theorem upstreamLog_cons {x : (c : Projects.Call) × Except Failure c.Answer} (log : ProjectLog) (h : decorated x = none) :
    upstreamLog (x :: log) = upstreamLog log := List.filterMap_cons_none h

section Proxying

variable {backend : Backend} {loads : Bytes → Except String Json} {dumps : Json → Bytes} {log : ProjectLog} {α : Type}

theorem keeps_upstreamly {service : ServiceDefinition} {post : Except Error α → UpstreamLog → Prop} {p : Upstream α}
    (hp : Keeps (own service) answers post p []) (log : ProjectLog) :
    Keeps (guard service) admits (fun o log' => ∃ o' l, o = .ok o' ∧ post o' l ∧ upstreamLog log' = l ++ upstreamLog log)
      (through upstreamly p) log := by
  refine keeps_through (J := fun l log' => upstreamLog log' = l ++ upstreamLog log) ?_ hp rfl
  intro l log' c hJ hc
  refine keeps_perform.2 ⟨hc, ?_⟩
  rintro _ ⟨a, rfl, ha⟩
  refine ⟨a, rfl, ha, ?_⟩
  rw [List.cons_append, ← hJ]
  rfl

def Walk (service : ServiceDefinition) (log : UpstreamLog) : Prop :=
  log = [] ∨ ∃ t, t.Perm service.instances ∧ Stopped service t log

theorem keeps_stream (method path : String) (body : Bytes) (log : ProjectLog) :
    Keeps (guard backend.service) admits (fun _ log' => ∃ t l, t.Perm backend.service.instances ∧
      Stopped backend.service t l ∧ upstreamLog log' = l ++ upstreamLog log) (stream backend method path body) log := by
  let q : OutboundRequest := { service := backend.service, method := method, path := path, body := body }
  have hbody : stream backend method path body = (through upstreamly (dispatched backend.dispatch .stream q)).bind
      fun outcome => ofExcept (outcome.mapError asFailure) := rfl
  rw [hbody]
  refine keeps_bind.2 ((keeps_upstreamly (keeps_dispatched (q := q) rfl) log).mono ?_)
  rintro _ log' ⟨o, l, rfl, ⟨t, ht, hs⟩, hl⟩
  exact keeps_ofExcept.2 ⟨t, l, ht, hs, hl⟩

theorem restores_ask (service : ServiceDefinition) (I : UpstreamLog → Prop) {c : Projects.Call}
    (hc : ∀ a, decorated ⟨c, a⟩ = none) (hg : ∀ log, guard service log c) :
    Restores (guard service) admits (fun log => I (upstreamLog log)) (perform c) := by
  refine restores_perform (fun log _ => hg log) fun log a h _ => ?_
  rw [upstreamLog_cons log (hc a)]
  exact h

theorem decorated_run (c : Orchestration.Call) (a : Except Failure (Projects.Call.run c).Answer) :
    decorated ⟨.run c, a⟩ = none := by
  cases a <;> rfl

theorem decorated_body (a : Except Failure Projects.Call.readBody.Answer) : decorated ⟨.readBody, a⟩ = none := by
  cases a <;> rfl

theorem restores_refused {I : UpstreamLog → Prop} (outcome : Outcome) :
    Restores (guard backend.service) admits (fun log => I (upstreamLog log)) (refused loads outcome) := by
  have hread := (restores_ask backend.service I decorated_body fun _ => trivial).bind restores_ofExcept
  have hclose := (restores_ask backend.service I (decorated_run .aclose) fun _ => trivial).bind restores_ofExcept
  refine Restores.bind (hread.ensuring hclose) fun body => ?_
  dsimp only
  split
  · exact restores_raise _
  · exact restores_raise _

theorem keeps_opening (method path : String) (body : Bytes) (h : upstreamLog log = []) :
    Keeps (guard backend.service) admits (fun _ log => Walk backend.service (upstreamLog log))
      (opening backend loads method path body) log := by
  refine keeps_bind.2 ((keeps_stream method path body log).mono ?_)
  rintro o log' ⟨t, l, ht, hs, hl⟩
  rw [h, List.append_nil] at hl
  have hw : Walk backend.service (upstreamLog log') := .inr ⟨t, ht, hl ▸ hs⟩
  cases o with
  | error f => exact hw
  | ok outcome =>
      dsimp only
      split
      · exact hw
      · exact restores_refused (I := Walk backend.service) outcome log' hw

theorem keeps_artifactOf (runId : String) {f : String → Projected Outcome}
    (hf : ∀ artifact log, upstreamLog log = [] →
      Keeps (guard backend.service) admits (fun _ log => Walk backend.service (upstreamLog log)) (f artifact) log) :
    Keeps (guard backend.service) admits (fun _ log => Walk backend.service (upstreamLog log)) ((artifactOf runId).bind f) [] := by
  have hget : Restores (guard backend.service) admits (fun log => upstreamLog log = []) (artifactOf runId) := by
    refine Restores.bind (restores_ask backend.service (fun log => log = []) (decorated_run _) fun _ => trivial) fun a => ?_
    refine (restores_ofExcept a).bind fun run => ?_
    split
    · exact restores_raise _
    · exact restores_ret _
  refine keeps_bind.2 ((hget [] rfl).mono fun o log h => ?_)
  cases o with
  | error f => exact .inl h
  | ok artifact => exact hf artifact log h

theorem keeps_openConsole (runId command : String) :
    Keeps (guard backend.service) admits (fun _ log => Walk backend.service (upstreamLog log))
      (openConsole backend loads dumps runId command) [] := by
  unfold openConsole
  split
  · exact .inl rfl
  · exact keeps_artifactOf runId fun _ _ h => keeps_opening _ _ _ h

theorem keeps_openDownload (runId : String) :
    Keeps (guard backend.service) admits (fun _ log => Walk backend.service (upstreamLog log))
      (openDownload backend loads runId) [] :=
  keeps_artifactOf runId fun _ _ h => keeps_opening _ _ _ h

theorem keeps_orchestrated {settings : Orchestration.Settings} (c : Orchestration.Call) (log : ProjectLog) :
    Keeps (guard backend.service) admits (fun o _ => ∃ a, o = .ok a) (orchestrated settings backend dumps c) log := by
  have hrun (c : Orchestration.Call) (log : ProjectLog) :
      Keeps (guard backend.service) admits (fun o _ => ∃ a, o = .ok a) (runly c) log :=
    keeps_perform.2 ⟨trivial, fun a ha => ha⟩
  cases c with
  | stream question =>
      refine keeps_bind.2 (keeps_rescue.2 (keeps_bind.2 ((keeps_stream _ _ _ log).mono fun o log' _ => ?_)))
      cases o with
      | ok outcome => exact hrun _ log'
      | error f => exact ⟨_, rfl⟩
  | _ => exact hrun _ log

theorem keeps_move {settings : Orchestration.Settings} (q : Orchestration.Request) :
    Keeps (guard backend.service) admits (fun _ _ => True) (body settings backend loads dumps (.move q)) [] := by
  have hp : Keeps (fun _ _ => True) (fun _ _ _ => True) (fun _ _ => True) (Orchestration.body settings loads q) [] :=
    keeps_of_guard (fun _ _ => trivial) _
  have hmoved : Keeps (guard backend.service) admits (fun o _ => ∃ (o' : Except Failure (Option Runs.Run))
      (_ : Log Orchestration.Call Orchestration.Call.Answer Failure), o = .ok o' ∧ True ∧ True)
      (through (orchestrated settings backend dumps) (Orchestration.body settings loads q)) [] := by
    refine keeps_through (J := fun _ _ => True) ?_ hp trivial
    intro _ log' c _ _
    apply (keeps_orchestrated c log').mono
    rintro o _ ⟨a, rfl⟩
    exact ⟨a, rfl, trivial, trivial⟩
  refine keeps_bind.2 (hmoved.mono ?_)
  rintro _ log' ⟨o, _, rfl, _⟩
  exact keeps_bind.2 (keeps_ofExcept.2 (by cases o <;> trivial))

end Proxying

/-- The requests for the project of a run. -/
def opens (runId : String) : Projects.Request → Bool
  | .openConsole id _ => id = runId
  | .openDownload id => id = runId
  | _ => false

def generates (runId : String) : Projects.Request → Bool
  | .move (.generate id) => id = runId
  | _ => false

def allowed (service : ServiceDefinition) : Projects.Request → ProjectLog → Projects.Call → Prop
  | .traffic _ _ => fun _ _ => True
  | _ => guard service

abbrev Errand := View Projects.Request Projects.Call Projects.Call.Answer Failure Unit

structure Kept (service : ServiceDefinition) (v : Errand) : Prop where
  own : (∀ mode q, v.request ≠ .traffic mode q) → ∀ o ∈ reached (upstreamLog v.log), ∃ s ∈ service.instances, o = some s
  walk : v.result.isSome → ∀ runId, opens runId v.request → Walk service (upstreamLog v.log)

theorem reached_cons {service : ServiceDefinition} {log : ProjectLog} {c : Projects.Call} (a : Except Failure c.Answer)
    (hg : guard service log c) (h : ∀ o ∈ reached (upstreamLog log), ∃ s ∈ service.instances, o = some s) :
    ∀ o ∈ reached (upstreamLog (⟨c, a⟩ :: log)), ∃ s ∈ service.instances, o = some s := by
  cases c with
  | run c =>
      rw [upstreamLog_cons log (decorated_run c a)]
      exact h
  | readBody =>
      rw [upstreamLog_cons log (decorated_body a)]
      exact h
  | upstream c =>
      cases a with
      | error f =>
          rw [upstreamLog_cons log rfl]
          exact h
      | ok a =>
          have hlog : upstreamLog (⟨.upstream c, .ok a⟩ :: log) = ⟨c, a⟩ :: upstreamLog log := rfl
          rw [hlog]
          cases c with
          | transport mode request =>
              intro o ho
              obtain ⟨s, hs, hr⟩ := hg
              rcases (transport_reached mode hr a _ o).1 ho with ho | rfl
              · exact h o ho
              · exact ⟨s, hs, rfl⟩
          | _ =>
              rw [reached, transports_of_made rfl]
              exact h

def protocol (settings : Orchestration.Settings) (backend : Backend) (loads : Bytes → Except String Json)
    (dumps : Json → Bytes) : Protocol (body settings backend loads dumps) Projects.World.step anyRequest anyStep where
  inv _ vs := ∀ v ∈ vs, Kept backend.service v
  guard := allowed backend.service
  admits _ := admits
  post q _ log := ∀ runId, opens runId q → Walk backend.service (upstreamLog log)
  arrive _ h v hv := by
    rcases List.mem_append.1 hv with hv | hv
    · exact h v hv
    · obtain rfl := List.mem_singleton.1 hv
      exact ⟨fun _ o ho => (by cases ho), fun hr => (by cases hr)⟩
  follows := by
    intro q _
    cases q with
    | move q => exact (keeps_move q).mono fun _ _ _ _ ho => (by cases ho)
    | traffic mode q => exact (keeps_of_guard (fun _ _ => trivial) _).mono fun _ _ _ _ ho => (by cases ho)
    | openConsole runId command =>
        refine keeps_bind.2 ((keeps_openConsole runId command).mono fun o log h => ?_)
        cases o <;> exact fun _ _ => h
    | openDownload runId =>
        refine keeps_bind.2 ((keeps_openDownload runId).mono fun o log h => ?_)
        cases o <;> exact fun _ _ => h
  sound := by
    intro w vs n q log c r a w' hi hv hg _ hs
    refine ⟨fun u hu => ?_, admits_step hs⟩
    rcases List.mem_or_eq_of_mem_set hu with hu | rfl
    · exact hi u hu
    · refine ⟨fun hq => reached_cons a ?_ ((hi _ (List.mem_of_getElem? hv)).own hq), fun hr => (by cases hr)⟩
      cases q with
      | traffic mode q => exact absurd rfl (hq mode q)
      | _ => exact hg
  leave := by
    intro w vs n q log o hi hv hp u hu
    rcases List.mem_or_eq_of_mem_set hu with hu | rfl
    · exact hi u hu
    · exact ⟨(hi _ (List.mem_of_getElem? hv)).own, fun _ => hp⟩

theorem mem_reached_of_answerer {i : ServiceInstance} {log : UpstreamLog} (h : answerer log = some i) :
    some i ∈ reached log := by
  induction log with
  | nil => cases h
  | cons x log ih =>
      rcases x with ⟨c, a⟩
      cases c with
      | transport mode request =>
          rw [reached, transports_transport, List.map_append, List.mem_append]
          cases a with
          | ok outcome => exact .inr (List.mem_singleton.2 h.symm)
          | error e => exact .inl (ih h)
      | _ =>
          rw [reached, transports_of_made rfl]
          exact ih h

/-- Nothing that the run keeps says which server made its project. A request for
the project is sent there and nowhere else exactly if it falls there. -/
theorem sent_to_maker_iff (settings : Orchestration.Settings) (backend : Backend) (loads : Bytes → Except String Json)
    (dumps : Json → Bytes) {w : Projects.World}
    {c : Config Projects.World Projects.Request Projects.Call Projects.Call.Answer Failure Unit}
    (h : Reaches (body settings backend loads dumps) Projects.World.step anyRequest anyStep w c)
    {g v : Errand} (hg : g ∈ c.views) (hv : v ∈ c.views) {runId : String} {i : ServiceInstance}
    (hgen : generates runId g.request) (hi : answerer (upstreamLog g.log) = some i)
    (hopen : opens runId v.request) (hr : v.result.isSome) :
    i ∈ backend.service.instances ∧ (SentTo i (upstreamLog v.log) ↔ FallsTo backend.service i (upstreamLog v.log)) := by
  have hkept := (protocol settings backend loads dumps).invariant (fun _ hu => (by cases hu)) h
  constructor
  · have hown : ∀ mode q, g.request ≠ .traffic mode q := fun mode q hq => by simp [hq, generates] at hgen
    obtain ⟨s, hs, he⟩ := (hkept g hg).own hown _ (mem_reached_of_answerer hi)
    cases he
    exact hs
  · rcases (hkept v hv).walk hr runId hopen with hlog | ⟨t, ht, hs⟩
    · rw [hlog]
      constructor
      · exact fun hsent => absurd rfl hsent.1
      · rintro ⟨passed, rest, hturn, _⟩
        cases hturn
    · have hn : (t.map ServiceInstance.id).Nodup := (ht.map ServiceInstance.id).nodup_iff.2 backend.service.distinct
      exact ⟨fallsTo_of_sentTo hn hs, sentTo_of_fallsTo hn hs⟩

def twoAgents : Backend := { service := twoServers, console := true }

def doneDocument : Bytes := ascii "\x7b\"type\": \"done\", \"project\": \x7b\"id\": \"p\"\x7d\x7d"

def loadsDone (bs : Bytes) : Except String Json :=
  if bs = doneDocument then .ok (.dict [("type", .str "done"), ("project", .dict [("id", .str "p")])])
  else Turns.loadsPlan bs

def movedOn : Event Orchestration.Request Orchestration.Reply → Event Projects.Request Projects.Reply
  | .start q => .start (.move q)
  | .step n r => .step n (.run r)
  | .finish n => .finish n

def served (n : Nat) : List (Event Projects.Request Projects.Reply) :=
  [.step n (.upstream .done), .step n (.upstream (.time 0)), .step n (.upstream (.answered 200)),
    .step n (.upstream .done)]

abbrev Script := List (Event Projects.Request Projects.Reply)

def downloadedTwice : Script :=
  Turns.reviewed.map movedOn ++
    ([.start (.move (.approve "r")), .step 1 (.run (.sweptTwice [] [])), .finish 1] : Script) ++
    ([.start (.move (.generate "r")), .step 2 (.run (.sweptTwice [] []))] : Script) ++ served 2 ++
    ([.step 2 (.run (.streaming [dataPrefix ++ doneDocument ++ [newline]]))] : Script) ++
    (List.replicate 7 (.step 2 (.run .done)) : Script) ++ ([.step 2 (.run (.swept [])), .finish 2] : Script) ++
    ([.start (.openDownload "r"), .step 3 (.run (.swept []))] : Script) ++ served 3 ++ ([.finish 3] : Script) ++
    ([.start (.openDownload "r"), .step 4 (.run (.swept []))] : Script) ++ served 4 ++ ([.finish 4] : Script)

/-- A generation that one server answered, and a request for its project that
another one, or the same, was sent and answered. -/
def wentTo (maker i : ServiceInstance) (g v : Errand) : Bool :=
  generates "r" g.request && decide (answerer (upstreamLog g.log) = some maker) && opens "r" v.request &&
    v.result.any Except.isOk && decide (reached (upstreamLog v.log) = [some i])

theorem wentTo_iff {maker i : ServiceInstance} {g v : Errand} (h : wentTo maker i g v = true) :
    generates "r" g.request ∧ answerer (upstreamLog g.log) = some maker ∧ opens "r" v.request ∧
      v.result.isSome ∧ reached (upstreamLog v.log) = [some i] := by
  simp only [wentTo, Bool.and_eq_true, decide_eq_true_eq] at h
  obtain ⟨⟨⟨⟨hg, ha⟩, ho⟩, hr⟩, hi⟩ := h
  refine ⟨hg, ha, ho, ?_, hi⟩
  cases hv : v.result with
  | none => simp [hv] at hr
  | some o => rfl

def first : ServiceInstance := ⟨"http://a", "a"⟩

def second : ServiceInstance := ⟨"http://b", "b"⟩

theorem reaches_wentTo (i : ServiceInstance)
    (hrun : (run (body {} twoAgents loadsDone Documents.dumps) Projects.World.step anyRequest anyStep ⟨{}, []⟩
      downloadedTwice).any (fun c => c.views.any fun g => c.views.any (wentTo first i g)) = true) :
    ∃ c, Reaches (body {} twoAgents loadsDone Documents.dumps) Projects.World.step anyRequest anyStep {} c ∧
      ∃ g ∈ c.views, ∃ v ∈ c.views, generates "r" g.request ∧ answerer (upstreamLog g.log) = some first ∧
        opens "r" v.request ∧ v.result.isSome ∧ reached (upstreamLog v.log) = [some i] := by
  obtain ⟨c, hc, hp⟩ := reaches_of_run hrun
  obtain ⟨g, hg, hp⟩ := List.any_eq_true.1 hp
  obtain ⟨v, hv, hp⟩ := List.any_eq_true.1 hp
  exact ⟨c, hc, g, hg, v, hv, wentTo_iff hp⟩

theorem sent_to_maker_iff_second : ∃ c g v,
    Reaches (body {} twoAgents loadsDone Documents.dumps) Projects.World.step anyRequest anyStep {} c ∧ g ∈ c.views ∧
      v ∈ c.views ∧ generates "r" g.request ∧ answerer (upstreamLog g.log) = some first ∧ opens "r" v.request ∧
      v.result.isSome ∧ SentTo first (upstreamLog v.log) ∧ FallsTo twoServers first (upstreamLog v.log) := by
  obtain ⟨c, hc, g, hg, v, hv, hgen, ha, ho, hr, hi⟩ := reaches_wentTo first (by decide +kernel)
  have hsent : SentTo first (upstreamLog v.log) := by
    rw [SentTo, hi]
    simp
  have hiff := (sent_to_maker_iff {} twoAgents loadsDone Documents.dumps hc hg hv hgen ha ho hr).2
  exact ⟨c, g, v, hc, hg, hv, hgen, ha, ho, hr, hsent, hiff.1 hsent⟩

/-- The first download is asked of the other server. -/
theorem sent_elsewhere : ∃ c g v,
    Reaches (body {} twoAgents loadsDone Documents.dumps) Projects.World.step anyRequest anyStep {} c ∧ g ∈ c.views ∧
      v ∈ c.views ∧ generates "r" g.request ∧ answerer (upstreamLog g.log) = some first ∧ opens "r" v.request ∧
      v.result.isSome ∧ reached (upstreamLog v.log) = [some second] ∧ ¬ SentTo first (upstreamLog v.log) := by
  obtain ⟨c, hc, g, hg, v, hv, hgen, ha, ho, hr, hi⟩ := reaches_wentTo second (by decide +kernel)
  refine ⟨c, g, v, hc, hg, hv, hgen, ha, ho, hr, hi, fun hsent => ?_⟩
  have he := hsent.2 (some second) (by simp [hi])
  exact absurd he (by decide)

end CodeZard.Pinning
