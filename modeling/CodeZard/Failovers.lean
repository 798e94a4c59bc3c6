import CodeZard.Decorators
import Mathlib.Data.Int.CardIntervalMod
import Mathlib.Data.List.Rotate

namespace CodeZard.Failovers

open Programs Scripts Upstreams Decorators Balancing Values

inductive Call
  | rotation (service : ServiceDefinition)
  | upstream (mode : Mode) (request : OutboundRequest)

abbrev Call.Answer : Call → Type
  | .rotation _ => List ServiceInstance
  | .upstream .. => Outcome

def balancer (mode : Mode) : Balancing Call Call.Answer Outcome where
  rotation := fun service => perform (Call.rotation service)
  call := fun request => perform (Call.upstream mode request)
  tag := fun outcome id => { outcome with instanceId := some id }

/-- `send` and `stream` are balanced alike. -/
def handle (mode : Mode) (request : OutboundRequest) : Prog Call Call.Answer Error Outcome :=
  balanced (balancer mode) request

/-- The balancer's turns, and what the client inside was asked for. -/
structure World extends Upstreams.World where
  sent : List OutboundRequest := []

/-- The client inside answers each request in its own way, whatever else happens. -/
def scripted (outcomes : OutboundRequest → Except Error Outcome) : Script Call Call.Answer Error World
  | w, .rotation service => (.ok (w.rotation service).1, { w with toWorld := (w.rotation service).2 })
  | w, .upstream _ request => (outcomes request, { w with sent := w.sent ++ [request] })

section Table

variable {mode : Mode} {request : OutboundRequest} {outcomes : OutboundRequest → Except Error Outcome}

/-- The request as one server gets it. -/
def at_ (request : OutboundRequest) (server : ServiceInstance) : OutboundRequest := { request with server := some server }

def tagged (server : ServiceInstance) (result : Except Error Outcome) : Except Error Outcome :=
  result.map fun outcome => { outcome with instanceId := some server.id }

def World.asked (w : World) (request : OutboundRequest) (servers : List ServiceInstance) : World :=
  { w with sent := w.sent ++ servers.map (at_ request) }

def stops (request : OutboundRequest) : Except Error Outcome → Bool
  | .ok _ => true
  | .error e => !passesOver request e

/-- The errors of some instances, in their order. -/
def errorsOf (outcomes : OutboundRequest → Except Error Outcome) (request : OutboundRequest)
    (servers : List ServiceInstance) : List Error :=
  servers.filterMap fun server => match outcomes (at_ request server) with
    | .ok _ => none
    | .error e => some e

theorem play_sendTo (server : ServiceInstance) (w : World) :
    play (scripted outcomes) (sendTo (balancer mode) server request) w =
      (tagged server (outcomes (at_ request server)), w.asked request [server]) := by
  have hcall : play (scripted outcomes) ((balancer mode).call (at_ request server)) w =
      (outcomes (at_ request server), w.asked request [server]) := play_perform _
  cases hout : outcomes (at_ request server) with
  | ok outcome =>
      rw [hout] at hcall
      exact play_bind_ok hcall _
  | error e =>
      rw [hout] at hcall
      exact play_bind_error hcall _

theorem play_failover_stops {server : ServiceInstance} (hstops : stops request (outcomes (at_ request server)) = true)
    (errors : List Error) (servers : List ServiceInstance) (w : World) :
    play (scripted outcomes) (failover (balancer mode) request errors (server :: servers)) w =
      (tagged server (outcomes (at_ request server)), w.asked request [server]) := by
  rw [failover, bind_eq, play_bind, play_rescue, map_eq, play_bind, play_sendTo]
  cases hout : outcomes (at_ request server) with
  | ok outcome => rfl
  | error e =>
      have hraise : passesOver request e = false := by
        rw [hout] at hstops
        simpa [stops] using hstops
      simp [tagged, Except.map, hraise]

theorem play_failover_passes {server : ServiceInstance} {e : Error} (hout : outcomes (at_ request server) = .error e)
    (hpasses : passesOver request e = true) (errors : List Error) (servers : List ServiceInstance) (w : World) :
    play (scripted outcomes) (failover (balancer mode) request errors (server :: servers)) w =
      play (scripted outcomes) (failover (balancer mode) request (errors ++ [e]) servers) (w.asked request [server]) := by
  rw [failover, bind_eq, play_bind, play_rescue, map_eq, play_bind, play_sendTo, hout]
  simp [tagged, Except.map, hpasses]

theorem asked_append (w : World) (request : OutboundRequest) (servers more : List ServiceInstance) :
    (w.asked request servers).asked request more = w.asked request (servers ++ more) := by
  simp only [World.asked, List.map_append, List.append_assoc]

theorem play_failover (errors : List Error) (servers : List ServiceInstance) (w : World) :
    (∃ before server rest, servers = before ++ server :: rest ∧
      (∀ passed ∈ before, stops request (outcomes (at_ request passed)) = false) ∧
      stops request (outcomes (at_ request server)) = true ∧
      play (scripted outcomes) (failover (balancer mode) request errors servers) w =
        (tagged server (outcomes (at_ request server)), w.asked request (before ++ [server]))) ∨
    (∀ passed ∈ servers, stops request (outcomes (at_ request passed)) = false) ∧
      play (scripted outcomes) (failover (balancer mode) request errors servers) w =
        (.error (lastFailure (errors ++ errorsOf outcomes request servers)), w.asked request servers) := by
  induction servers generalizing errors w with
  | nil =>
      refine .inr ⟨fun passed h => absurd h List.not_mem_nil, ?_⟩
      simp [failover, errorsOf, World.asked]
  | cons server servers ih =>
      cases hstops : stops request (outcomes (at_ request server)) with
      | true =>
          exact .inl ⟨[], server, servers, rfl, fun passed h => absurd h List.not_mem_nil, hstops,
            play_failover_stops hstops errors servers w⟩
      | false =>
          obtain ⟨e, hout⟩ : ∃ e, outcomes (at_ request server) = .error e := by
            cases hout : outcomes (at_ request server) with
            | ok outcome =>
                rw [hout] at hstops
                exact Bool.noConfusion hstops
            | error e => exact ⟨e, rfl⟩
          have hpasses : passesOver request e = true := by
            rw [hout] at hstops
            simpa [stops] using hstops
          rw [play_failover_passes hout hpasses]
          rcases ih (errors ++ [e]) (w.asked request [server]) with
            ⟨before, last, rest, rfl, hbefore, hlast, hplay⟩ | ⟨hall, hplay⟩
          · refine .inl ⟨server :: before, last, rest, rfl, ?_, hlast, ?_⟩
            · exact List.forall_mem_cons.2 ⟨hstops, hbefore⟩
            · rw [hplay, asked_append]
              rfl
          · refine .inr ⟨List.forall_mem_cons.2 ⟨hstops, hall⟩, ?_⟩
            have herrors : errorsOf outcomes request (server :: servers) = e :: errorsOf outcomes request servers := by
              simp [errorsOf, hout]
            rw [hplay, asked_append, herrors, List.append_assoc]
            rfl

/-- The request goes no further: it was answered, or it may have been received
and is not to be repeated, or the error is not an upstream's. -/
inductive Final (request : OutboundRequest) : Except Error Outcome → Prop
  | answered (outcome : Outcome) : Final request (.ok outcome)
  | received {e : Error} (upstream : e.isUpstream = true) (sent : e.unsent = false)
      (once : request.isIdempotent = false) : Final request (.error e)
  | foreign (f : Failure) : Final request (.error (.other f))

theorem stops_iff {result : Except Error Outcome} : stops request result = true ↔ Final request result := by
  rcases result with e | outcome
  · cases e with
    | circuitOpen name =>
        refine iff_of_false Bool.false_ne_true fun h => ?_
        cases h with
        | received upstream sent once => exact Bool.noConfusion upstream
    | other f => exact iff_of_true rfl (.foreign f)
    | timeout name sent | connection name sent =>
        constructor
        · intro h
          simp only [stops, passesOver, Error.isUpstream, canFailOver, Bool.true_and, Bool.not_or, Bool.and_eq_true,
            Bool.not_eq_true'] at h
          exact .received rfl h.2 h.1
        · intro h
          cases h with
          | received upstream sent once =>
              simp only [stops, passesOver, Error.isUpstream, canFailOver, once, sent, Bool.or_self, Bool.and_false,
                Bool.not_false]
  · exact iff_of_true rfl (.answered outcome)

theorem not_final_error {e : Error} (h : stops request (.error e) = false) :
    e.isUpstream = true ∨ ∃ name, e = .circuitOpen name := by
  cases e with
  | timeout name sent | connection name sent => exact .inl rfl
  | circuitOpen name => exact .inr ⟨name, rfl⟩
  | other f => exact Bool.noConfusion h

theorem lastFailure_cases {errors : List Error} (hsome : errors ≠ [])
    (hpassed : ∀ e ∈ errors, stops request (.error e) = false) :
    (errors.filter Error.isUpstream).getLast? = some (lastFailure errors) ∨
      (∀ e ∈ errors, e.isUpstream = false) ∧ ∃ name, lastFailure errors = .circuitOpen name := by
  unfold lastFailure
  cases htried : (errors.filter Error.isUpstream).getLast? with
  | some e => exact .inl rfl
  | none =>
      have hnone : ∀ e ∈ errors, e.isUpstream = false := by
        intro e he
        by_contra hup
        have hmem := List.mem_filter.2 ⟨he, eq_true_of_ne_false hup⟩
        rw [List.getLast?_eq_none_iff.1 htried] at hmem
        exact List.not_mem_nil hmem
      refine .inr ⟨hnone, ?_⟩
      rw [Option.none_or, List.getLast?_eq_some_getLast hsome]
      have hlast := List.getLast_mem hsome
      exact (not_final_error (hpassed _ hlast)).resolve_left (by rw [hnone _ hlast]; exact Bool.false_ne_true)

theorem errorsOf_passed {servers : List ServiceInstance} (hsome : servers ≠ [])
    (hpassed : ∀ server ∈ servers, stops request (outcomes (at_ request server)) = false) :
    errorsOf outcomes request servers ≠ [] ∧
      ∀ e ∈ errorsOf outcomes request servers, stops request (.error e) = false := by
  have hfailed (server : ServiceInstance) (h : server ∈ servers) :
      ∃ e, outcomes (at_ request server) = .error e ∧ stops request (.error e) = false := by
    have hstops := hpassed server h
    rcases hout : outcomes (at_ request server) with e | outcome
    · exact ⟨e, rfl, hout ▸ hstops⟩
    · rw [hout] at hstops
      exact Bool.noConfusion hstops
  constructor
  · obtain ⟨server, rest, rfl⟩ := List.exists_cons_of_ne_nil hsome
    obtain ⟨e, hout, -⟩ := hfailed server List.mem_cons_self
    simp [errorsOf, hout]
  · intro e he
    obtain ⟨server, hserver, he⟩ := List.mem_filterMap.1 he
    obtain ⟨e', hout, hstops⟩ := hfailed server hserver
    rw [hout] at he
    rwa [← Option.some.inj he]

def World.turned (w : World) (service : ServiceDefinition) : World := { w with toWorld := (w.rotation service).2 }

theorem rotation_eq {service : ServiceDefinition} {w : World}
    (hturn : w.nextTurn service.name < service.instances.length) :
    (w.rotation service).1 = service.instances.rotate (w.nextTurn service.name) :=
  (List.rotate_eq_drop_append_take hturn.le).symm

theorem play_balanced (hserver : request.server = none) (w : World) :
    play (scripted outcomes) (handle mode request) w =
      play (scripted outcomes) (failover (balancer mode) request [] (w.rotation request.service).1)
        (w.turned request.service) := by
  have hrotation : play (scripted outcomes) ((balancer mode).rotation request.service) w =
      (.ok (w.rotation request.service).1, w.turned request.service) := play_perform _
  rw [handle, balanced, hserver]
  exact play_bind_ok hrotation _

theorem play_pinned {server : ServiceInstance} (hserver : request.server = some server) (w : World) :
    play (scripted outcomes) (handle mode request) w =
      (tagged server (outcomes request), { w with sent := w.sent ++ [request] }) := by
  have hat : at_ request server = request := by rw [at_, ← hserver]
  rw [handle, balanced, hserver]
  dsimp only
  rw [play_sendTo, hat, World.asked, List.map_singleton, hat]

end Table

section Turns

variable {α : Type}

theorem turn_iff {n t i : Nat} (ht : t < n) (hi : i < n) (k : Nat) :
    (t + k) % n = i ↔ k ≡ i + (n - t) [MOD n] := by
  have hback : i + (n - t) + t ≡ i [MOD n] := by
    have hsum : i + (n - t) + t = i + n := by omega
    rw [hsum]
    exact Nat.add_mod_right i n
  constructor
  · intro h
    have hturn : k + t ≡ i + (n - t) + t [MOD n] := by
      refine Nat.ModEq.trans ?_ hback.symm
      rw [Nat.ModEq, Nat.add_comm k t, h, Nat.mod_eq_of_lt hi]
    exact Nat.ModEq.add_right_cancel' t hturn
  · intro h
    have hturn : k + t ≡ i [MOD n] := (h.add_right t).trans hback
    rwa [Nat.ModEq, Nat.add_comm k t, Nat.mod_eq_of_lt hi] at hturn

theorem count_turns [DecidableEq α] {l : List α} (hl : l.Nodup) {t : Nat} (ht : t < l.length) (n : Nat) {a : α}
    (ha : a ∈ l) :
    n / l.length ≤ ((List.range n).filterMap fun k => l[(t + k) % l.length]?).count a ∧
      ((List.range n).filterMap fun k => l[(t + k) % l.length]?).count a ≤ n / l.length + 1 := by
  obtain ⟨i, hi, rfl⟩ := List.getElem_of_mem ha
  have hpos : 0 < l.length := Nat.zero_lt_of_lt ht
  have hcount : ((List.range n).filterMap fun k => l[(t + k) % l.length]?).count l[i] =
      n.count (· ≡ i + (l.length - t) [MOD l.length]) := by
    rw [List.count_filterMap, Nat.count]
    refine List.countP_congr fun k _ => ?_
    have hk : (t + k) % l.length < l.length := Nat.mod_lt _ hpos
    rw [List.getElem?_eq_getElem hk, beq_iff_eq, Option.some.injEq, hl.getElem_inj_iff, turn_iff ht hi, decide_eq_true_iff]
  rw [hcount, Nat.count_modEq_card n hpos]
  split
  · exact ⟨Nat.le_succ _, le_rfl⟩
  · exact ⟨le_rfl, Nat.le_succ _⟩

end Turns

/-- One request after another, each with whatever the instances do then. -/
structure Sending where
  mode : Mode
  request : OutboundRequest
  outcomes : OutboundRequest → Except Error Outcome

namespace Sending

def after (w : World) (s : Sending) : World := (play (scripted s.outcomes) (handle s.mode s.request) w).2

def firstChoice (w : World) (s : Sending) : Option ServiceInstance :=
  ((s.after w).sent.drop w.sent.length).head?.bind OutboundRequest.server

def unpinned (service : ServiceDefinition) (s : Sending) : Bool :=
  s.request.server.isNone && s.request.service.name == service.name

end Sending

def firstChoices (service : ServiceDefinition) (w : World) : List Sending → List ServiceInstance
  | [] => []
  | s :: rest =>
      (if s.unpinned service then (s.firstChoice w).toList else []) ++ firstChoices service (s.after w) rest

section Fairness

variable {service : ServiceDefinition} {w : World} {s : Sending}

/-- One name stands for one service. -/
def Registered (service : ServiceDefinition) (s : Sending) : Prop :=
  s.request.service.name = service.name → s.request.service = service

def Placed (service : ServiceDefinition) (w : World) : Prop := w.nextTurn service.name < service.instances.length

theorem length_pos (service : ServiceDefinition) : 0 < service.instances.length :=
  List.length_pos_iff.2 service.inhabited

theorem placed_start (service : ServiceDefinition) : Placed service {} := length_pos service

theorem after_unpinned (hserver : s.request.server = none) :
    (s.after w).nextTurn = (w.turned s.request.service).nextTurn ∧
      s.firstChoice w = (w.rotation s.request.service).1.head? := by
  have hafter (asked : List ServiceInstance)
      (h : s.after w = (w.turned s.request.service).asked s.request asked) :
      (s.after w).nextTurn = (w.turned s.request.service).nextTurn ∧ s.firstChoice w = asked.head? := by
    have hsent : (s.after w).sent = w.sent ++ asked.map (at_ s.request) := by rw [h]; rfl
    refine ⟨by rw [h]; rfl, ?_⟩
    rw [Sending.firstChoice, hsent, List.drop_left, List.head?_map]
    cases asked.head? with
    | none => rfl
    | some server => rfl
  rcases play_failover [] (w.rotation s.request.service).1 (w.turned s.request.service) with
    ⟨before, server, rest, horder, -, -, hplay⟩ | ⟨-, hplay⟩
  · have h := hafter (before ++ [server]) (by rw [Sending.after, play_balanced hserver w, hplay])
    rw [horder]
    cases before with
    | nil => exact h
    | cons first before => exact h
  · exact hafter _ (by rw [Sending.after, play_balanced hserver w, hplay])

theorem after_pinned {server : ServiceInstance} (hserver : s.request.server = some server) :
    (s.after w).nextTurn = w.nextTurn := by
  rw [Sending.after, play_pinned hserver]

theorem nextTurn_after (hregistered : Registered service s) :
    (s.after w).nextTurn service.name =
      if s.unpinned service then (w.nextTurn service.name + 1) % service.instances.length
      else w.nextTurn service.name := by
  cases hserver : s.request.server with
  | some server =>
      rw [after_pinned hserver, Sending.unpinned, hserver]
      rfl
  | none =>
      have hturned : (w.turned s.request.service).nextTurn = Function.update w.nextTurn s.request.service.name
          ((w.nextTurn s.request.service.name + 1) % s.request.service.instances.length) := rfl
      rw [(after_unpinned hserver).1, hturned, Sending.unpinned, hserver]
      by_cases hname : s.request.service.name = service.name
      · rw [hregistered hname, Function.update_self]
        simp
      · rw [Function.update_of_ne (Ne.symm hname)]
        simp [hname]

theorem firstChoice_eq (hregistered : Registered service s) (hunpinned : s.unpinned service = true)
    (hplaced : Placed service w) : s.firstChoice w = service.instances[w.nextTurn service.name]? := by
  rw [Sending.unpinned, Bool.and_eq_true, Option.isNone_iff_eq_none, beq_iff_eq] at hunpinned
  rw [(after_unpinned hunpinned.1).2, hregistered hunpinned.2, rotation_eq hplaced]
  rw [List.rotate_eq_drop_append_take hplaced.le, List.head?_append, List.head?_drop, List.getElem?_eq_getElem hplaced]
  rfl

theorem Placed.after (hplaced : Placed service w) (hregistered : Registered service s) :
    Placed service (s.after w) := by
  unfold Placed
  rw [nextTurn_after hregistered]
  split
  · exact Nat.mod_lt _ (length_pos service)
  · exact hplaced

theorem placed_run {run : List Sending} (hplaced : Placed service w) (hregistered : ∀ s ∈ run, Registered service s) :
    Placed service (run.foldl (fun w s => s.after w) w) := by
  induction run generalizing w with
  | nil => exact hplaced
  | cons s run ih =>
      exact ih (hplaced.after (hregistered s List.mem_cons_self))
        fun s hs => hregistered s (List.mem_cons_of_mem _ hs)

theorem firstChoices_eq {run : List Sending} (hplaced : Placed service w)
    (hregistered : ∀ s ∈ run, Registered service s) :
    firstChoices service w run = (List.range (run.countP fun s => s.unpinned service)).filterMap fun k =>
      service.instances[(w.nextTurn service.name + k) % service.instances.length]? := by
  induction run generalizing w with
  | nil => rfl
  | cons s run ih =>
      have hs := hregistered s List.mem_cons_self
      have hrest := ih (hplaced.after hs) fun s hs => hregistered s (List.mem_cons_of_mem _ hs)
      rw [firstChoices, hrest, nextTurn_after hs]
      cases hunpinned : s.unpinned service with
      | false => simp [hunpinned]
      | true =>
          have hnext (k : Nat) : ((w.nextTurn service.name + 1) % service.instances.length + k) % service.instances.length =
              (w.nextTurn service.name + (k + 1)) % service.instances.length := by
            rw [Nat.mod_add_mod, Nat.add_assoc, Nat.add_comm 1 k]
          have hhere : service.instances[(w.nextTurn service.name + 0) % service.instances.length]? =
              some service.instances[w.nextTurn service.name] := by
            rw [Nat.add_zero, Nat.mod_eq_of_lt hplaced, List.getElem?_eq_getElem hplaced]
          rw [firstChoice_eq hs hunpinned hplaced, List.countP_cons_of_pos hunpinned, List.range_succ_eq_map,
            List.filterMap_cons, List.filterMap_map, hhere, List.getElem?_eq_getElem hplaced]
          simp only [if_pos, hnext, Function.comp_def]
          rfl

end Fairness

theorem unpinned_cases (mode : Mode) {request : OutboundRequest} (outcomes : OutboundRequest → Except Error Outcome)
    {w : World} (hserver : request.server = none) (hplaced : Placed request.service w) :
    ∃ asked rest result w', play (scripted outcomes) (handle mode request) w = (result, w') ∧
      request.service.instances.rotate (w.nextTurn request.service.name) = asked ++ rest ∧
      w'.sent = w.sent ++ asked.map (at_ request) ∧
      w'.nextTurn = Function.update w.nextTurn request.service.name
        ((w.nextTurn request.service.name + 1) % request.service.instances.length) ∧
      ((∃ before server, asked = before ++ [server] ∧
          (∀ passed ∈ before, ¬ Final request (outcomes (at_ request passed))) ∧
          Final request (outcomes (at_ request server)) ∧ result = tagged server (outcomes (at_ request server))) ∨
        rest = [] ∧ (∀ passed ∈ asked, ¬ Final request (outcomes (at_ request passed))) ∧
          ∃ e, result = .error e ∧
            (((errorsOf outcomes request asked).filter Error.isUpstream).getLast? = some e ∨
              (∀ e' ∈ errorsOf outcomes request asked, e'.isUpstream = false) ∧ ∃ name, e = .circuitOpen name)) := by
  have hnot {result : Except Error Outcome} (h : stops request result = false) : ¬ Final request result := by
    rw [← stops_iff, h]
    exact Bool.false_ne_true
  rw [play_balanced hserver w, rotation_eq hplaced]
  rcases play_failover [] (request.service.instances.rotate (w.nextTurn request.service.name))
      (w.turned request.service) with ⟨before, server, rest, horder, hbefore, hlast, hplay⟩ | ⟨hall, hplay⟩
  · refine ⟨before ++ [server], rest, _, _, hplay, ?_, rfl, rfl, .inl ⟨before, server, rfl, ?_, stops_iff.1 hlast, rfl⟩⟩
    · rw [horder, List.append_assoc]
      rfl
    · exact fun passed h => hnot (hbefore passed h)
  · refine ⟨_, [], _, _, hplay, (List.append_nil _).symm, rfl, rfl,
      .inr ⟨rfl, fun passed h => hnot (hall passed h), _, rfl, ?_⟩⟩
    have hsome : request.service.instances.rotate (w.nextTurn request.service.name) ≠ [] := by
      rw [Ne, List.rotate_eq_nil_iff]
      exact request.service.inhabited
    obtain ⟨herrors, hpassed⟩ := errorsOf_passed hsome hall
    rw [List.nil_append]
    exact lastFailure_cases herrors hpassed

theorem firstChoices_fair {service : ServiceDefinition} {w : World} {run : List Sending} (hplaced : Placed service w)
    (hregistered : ∀ s ∈ run, Registered service s) :
    (firstChoices service w run).length = run.countP (fun s => s.unpinned service) ∧
      ∀ a ∈ service.instances, ∀ b ∈ service.instances,
        (firstChoices service w run).count a ≤ (firstChoices service w run).count b + 1 := by
  rw [firstChoices_eq hplaced hregistered]
  constructor
  · have hall (k : Nat) : (service.instances[(w.nextTurn service.name + k) % service.instances.length]?).isSome = true := by
      rw [List.getElem?_eq_getElem (Nat.mod_lt _ (length_pos service))]
      rfl
    rw [List.length_filterMap_eq_countP, List.countP_eq_length.2 fun k _ => hall k, List.length_range]
  · intro a ha b hb
    have hnodup : service.instances.Nodup := service.distinct.of_map _
    have hcount := fun {c} => count_turns hnodup hplaced (run.countP fun s => s.unpinned service) (a := c)
    exact (hcount ha).2.trans (Nat.add_le_add_right (hcount hb).1 1)

/-- The whole of the balancer: an unpinned request, a pinned one, and the first
choices of any stretch of a run. -/
theorem follows_table (mode : Mode) (request : OutboundRequest) (outcomes : OutboundRequest → Except Error Outcome)
    (w : World) :
    (request.server = none → Placed request.service w →
      ∃ asked rest result w', play (scripted outcomes) (handle mode request) w = (result, w') ∧
        request.service.instances.rotate (w.nextTurn request.service.name) = asked ++ rest ∧
        w'.sent = w.sent ++ asked.map (at_ request) ∧
        w'.nextTurn = Function.update w.nextTurn request.service.name
          ((w.nextTurn request.service.name + 1) % request.service.instances.length) ∧
        ((∃ before server, asked = before ++ [server] ∧
            (∀ passed ∈ before, ¬ Final request (outcomes (at_ request passed))) ∧
            Final request (outcomes (at_ request server)) ∧ result = tagged server (outcomes (at_ request server))) ∨
          rest = [] ∧ (∀ passed ∈ asked, ¬ Final request (outcomes (at_ request passed))) ∧
            ∃ e, result = .error e ∧
              (((errorsOf outcomes request asked).filter Error.isUpstream).getLast? = some e ∨
                (∀ e' ∈ errorsOf outcomes request asked, e'.isUpstream = false) ∧ ∃ name, e = .circuitOpen name))) ∧
    (∀ server, request.server = some server →
      ∃ w', play (scripted outcomes) (handle mode request) w = (tagged server (outcomes request), w') ∧
        w'.sent = w.sent ++ [request] ∧ w'.nextTurn = w.nextTurn) ∧
    ∀ (service : ServiceDefinition) (before stretch : List Sending),
      (∀ s ∈ before ++ stretch, Registered service s) →
      let choices := firstChoices service (before.foldl (fun w s => s.after w) {}) stretch
      choices.length = stretch.countP (fun s => s.unpinned service) ∧
        ∀ a ∈ service.instances, ∀ b ∈ service.instances, choices.count a ≤ choices.count b + 1 := by
  refine ⟨fun hserver hplaced => unpinned_cases mode outcomes hserver hplaced, ?_, ?_⟩
  · intro server hserver
    exact ⟨_, play_pinned hserver w, rfl, rfl⟩
  · intro service before stretch hregistered
    have hbefore : ∀ s ∈ before, Registered service s := fun s hs => hregistered s (List.mem_append_left _ hs)
    have hstretch : ∀ s ∈ stretch, Registered service s := fun s hs => hregistered s (List.mem_append_right _ hs)
    exact firstChoices_fair (placed_run (placed_start service) hbefore) hstretch

def agent : ServiceDefinition where
  name := "agent"
  instances := [⟨"http://agent-1:8001", "0a1b2c3d"⟩, ⟨"http://agent-2:8001", "4e5f6a7b"⟩]
  inhabited := by decide
  distinct := by decide

def posted : OutboundRequest where
  service := agent
  method := "POST"
  path := "api/v1/chat"

theorem follows_table_posted :
    ∃ asked rest result w', play (scripted fun _ => .error (.circuitOpen "agent")) (handle .send posted) {} = (result, w') ∧
      agent.instances = asked ++ rest ∧ w'.sent = asked.map (at_ posted) := by
  obtain ⟨asked, rest, result, w', hplay, horder, hsent, -⟩ :=
    (follows_table .send posted (fun _ => .error (.circuitOpen "agent")) {}).1 rfl (placed_start agent)
  exact ⟨asked, rest, result, w', hplay, (List.rotate_zero _).symm.trans horder, hsent⟩

end CodeZard.Failovers
