import CodeZard.Relays

namespace CodeZard.Connections

open Programs Interleaving RunLogs HeaderPolicies Values Endings Proxying Relays
open Upstreams (Error OutboundRequest ServiceInstance)

abbrev RelayView := View Asked Call Call.Answer Error Answer

/-- How often the calls together were given a connection. -/
def allOpens (handle : Nat) (vs : List RelayView) : Nat := (vs.map fun v => opens handle v.log).sum

def allCloses (handle : Nat) (vs : List RelayView) : Nat := (vs.map fun v => closes handle v.log).sum

/-- The call was given the connection and has not let go of it. -/
def Holding (handle : Nat) (log : ProxyLog) : Prop := opens handle log = closes handle log + 1

section Steps

variable {w w' : World} {c : Call} {a : Except Error c.Answer} {r : Reply} {log : ProxyLog} {T : Outbound → Prop}
  {D : ProxyLog → List Part → Prop}

theorem step_cases (log : ProxyLog) (hs : World.step w c r = some (a, w')) :
    (w'.fresh = w.fresh ∧ w'.opened = w.opened ∧ (∀ handle, opens handle (⟨c, a⟩ :: log) = opens handle log) ∧
      ∀ handle, closes handle (⟨c, a⟩ :: log) = closes handle log) ∨
    (w'.fresh = w.fresh + 1 ∧ w'.opened = w.fresh :: w.opened ∧
      (∀ handle, opens handle (⟨c, a⟩ :: log) = opens handle log + if w.fresh = handle then 1 else 0) ∧
      ∀ handle, closes handle (⟨c, a⟩ :: log) = closes handle log) ∨
    ∃ handle, c = .aclose handle ∧ w'.fresh = w.fresh ∧ w'.opened = w.opened.erase handle ∧
      (∀ handle', opens handle' (⟨c, a⟩ :: log) = opens handle' log) ∧
      ∀ handle', closes handle' (⟨c, a⟩ :: log) = closes handle' log + if handle = handle' then 1 else 0 := by
  cases c with
  | aclose handle =>
      cases r with
      | done | raised f =>
          cases hs
          exact .inr (.inr ⟨handle, rfl, rfl, rfl, fun _ => rfl, fun _ => rfl⟩)
      | _ => cases hs
  | transport request =>
      cases r with
      | answered status headers chunks =>
          cases hs
          exact .inr (.inl ⟨rfl, rfl, fun _ => rfl, fun _ => rfl⟩)
      | broken e | raised f =>
          cases hs
          exact .inl ⟨rfl, rfl, fun _ => rfl, fun _ => rfl⟩
      | _ => cases hs
  | _ =>
      cases r <;> cases hs <;> exact .inl ⟨rfl, rfl, fun _ => rfl, fun _ => rfl⟩

theorem admits_step (hs : World.step w c r = some (a, w')) : admits log c a := by
  cases c with
  | onSuccess | onFailure | onAbort | finalise =>
      cases r with
      | _ => cases hs <;> rfl
  | rotation service =>
      cases r with
      | done =>
          cases hs
          exact ⟨_, rfl, List.append_subset.2 ⟨List.drop_subset _ _, List.take_subset _ _⟩⟩
      | _ => cases hs
  | _ => trivial

theorem holds_step (a : Except Error c.Answer) (hg : guard T D log c)
    (h : ∃ held, Holds held (sent log) log) : ∃ held, Holds held (sent (⟨c, a⟩ :: log)) (⟨c, a⟩ :: log) := by
  have hown {held : Option Nat} {passed : List Part} {log : ProxyLog} (h : Holds held passed log) :
      ∃ held, Holds held (sent log) log := ⟨held, h.count, rfl⟩
  obtain ⟨held, hheld⟩ := h
  cases c with
  | transport request =>
      cases a with
      | ok s => exact hown hg.2.opened
      | error e => exact hown hg.2.refused
  | aclose handle =>
      obtain ⟨passed, hholds⟩ := hg
      exact hown hholds.closed
  | head status headers =>
      cases a with
      | ok u => exact hown hheld.told
      | error e => exact hown hheld.untold
  | send handle bytes =>
      cases a with
      | ok u => exact hown hheld.taken
      | error e => exact hown hheld.untaken
  | _ => exact hown (hheld.quiet rfl a)

end Steps

section Sums

variable {vs : List RelayView} {i handle : Nat} {v v' : RelayView}

theorem opens_le_allOpens (handle : Nat) (hv : v ∈ vs) : opens handle v.log ≤ allOpens handle vs :=
  List.single_le_sum (by simp) _ (List.mem_map_of_mem hv)

theorem allCloses_eq_zero (hle : ∀ u ∈ vs, closes handle u.log ≤ opens handle u.log) (hi : vs[i]? = some v)
    (hheld : Holding handle v.log) (honce : allOpens handle vs ≤ 1) : allCloses handle vs = 0 := by
  have hopens := sum_set (f := fun u : RelayView => opens handle u.log) hi ⟨v.request, [], none⟩
  have hcloses := sum_set (f := fun u : RelayView => closes handle u.log) hi ⟨v.request, [], none⟩
  have hrest : allCloses handle (vs.set i ⟨v.request, [], none⟩) ≤ allOpens handle (vs.set i ⟨v.request, [], none⟩) := by
    refine List.sum_le_sum fun u hu => ?_
    rcases List.mem_or_eq_of_mem_set hu with hu | rfl
    · exact hle u hu
    · exact le_refl 0
  simp only [allOpens, allCloses, opens, closes, Holding] at *
  omega

end Sums

section Runs

variable (settings : Settings) (lower : String → String) (starlette : MutableHeaders)
  (registry : String → Except Failure Service)

/-- What is true of a call at any time: it holds at most one connection, its
requests went where they may go, and its client was told of one answer only. -/
structure Going (q : Asked) (log : ProxyLog) : Prop where
  holds : ∃ held, Holds held (sent log) log
  went : ∀ r a, ⟨.transport r, a⟩ ∈ log → Goes lower registry q r
  told : sent log = [] ∨ Stands lower starlette registry q log (sent log)

/-- The open connections are those that were opened and that nobody let go, and
none was opened twice. -/
structure Kept (w : World) (vs : List RelayView) : Prop where
  balance : ∀ handle, w.opened.count handle + allCloses handle vs = allOpens handle vs
  once : ∀ handle, allOpens handle vs ≤ 1
  unused : ∀ handle, w.fresh ≤ handle → allOpens handle vs = 0
  going : ∀ v ∈ vs, Going lower starlette registry v.request v.log
  ended : ∀ v ∈ vs, ∀ o, v.result = some o → Fate lower starlette registry v.request v.log o

variable {lower starlette registry} {w w' : World} {vs : List RelayView} {i : Nat} {q : Asked} {log : ProxyLog} {c : Call}
  {a : Except Error c.Answer} {r : Reply}

theorem Stands.cons {parts : List Part} {x : (c : Call) × Except Error c.Answer}
    (h : Stands lower starlette registry q log parts) : Stands lower starlette registry q (x :: log) parts := by
  obtain ⟨server, s, headers, hs, hh, hparts⟩ := h
  exact ⟨server, s, headers, hs.cons, hh, hparts⟩

theorem going_step (a : Except Error c.Answer) (hg : guard (Goes lower registry q) (Stands lower starlette registry q) log c)
    (h : Going lower starlette registry q log) : Going lower starlette registry q (⟨c, a⟩ :: log) := by
  refine ⟨holds_step a hg h.holds, fun r b hmem => ?_, ?_⟩
  · rcases List.mem_cons.1 hmem with heq | hmem
    · cases heq
      exact hg.1
    · exact h.went r b hmem
  · have hsame (hsent : sent (⟨c, a⟩ :: log) = sent log) :
        sent (⟨c, a⟩ :: log) = [] ∨ Stands lower starlette registry q (⟨c, a⟩ :: log) (sent (⟨c, a⟩ :: log)) := by
      rw [hsent]
      exact h.told.imp_right Stands.cons
    cases c with
    | head status headers =>
        cases a with
        | ok u => exact .inr (Stands.cons hg)
        | error e => exact hsame rfl
    | send handle bytes =>
        cases a with
        | ok u => exact .inr (Stands.cons hg.2)
        | error e => exact hsame rfl
    | transport request =>
        cases a with
        | _ => exact hsame rfl
    | _ => exact hsame rfl

theorem kept_step (h : Kept lower starlette registry w vs) (hi : vs[i]? = some ⟨q, log, none⟩)
    (hg : guard (Goes lower registry q) (Stands lower starlette registry q) log c) (hs : World.step w c r = some (a, w')) :
    Kept lower starlette registry w' (vs.set i ⟨q, ⟨c, a⟩ :: log, none⟩) := by
  have hgoing : ∀ v ∈ vs.set i ⟨q, ⟨c, a⟩ :: log, none⟩, Going lower starlette registry v.request v.log := by
    intro v hv
    rcases List.mem_or_eq_of_mem_set hv with hv | rfl
    · exact h.going v hv
    · exact going_step a hg (h.going _ (List.mem_of_getElem? hi))
  have hended : ∀ v ∈ vs.set i ⟨q, ⟨c, a⟩ :: log, none⟩, ∀ o, v.result = some o →
      Fate lower starlette registry v.request v.log o := by
    intro v hv o ho
    rcases List.mem_or_eq_of_mem_set hv with hv | rfl
    · exact h.ended v hv o ho
    · cases ho
  have hopens (handle : Nat) : allOpens handle (vs.set i ⟨q, ⟨c, a⟩ :: log, none⟩) + opens handle log =
      allOpens handle vs + opens handle (⟨c, a⟩ :: log) :=
    sum_set (f := fun u : RelayView => opens handle u.log) hi ⟨q, ⟨c, a⟩ :: log, none⟩
  have hcloses (handle : Nat) : allCloses handle (vs.set i ⟨q, ⟨c, a⟩ :: log, none⟩) + closes handle log =
      allCloses handle vs + closes handle (⟨c, a⟩ :: log) :=
    sum_set (f := fun u : RelayView => closes handle u.log) hi ⟨q, ⟨c, a⟩ :: log, none⟩
  rcases step_cases log hs with ⟨hfresh, hopened, ho, hc⟩ | ⟨hfresh, hopened, ho, hc⟩ | ⟨handle, rfl, hfresh, hopened, ho, hc⟩
  · simp only [ho, Nat.add_right_cancel_iff] at hopens
    simp only [hc, Nat.add_right_cancel_iff] at hcloses
    refine ⟨fun handle => ?_, fun handle => ?_, fun handle hlt => ?_, hgoing, hended⟩
    · rw [hopened, hopens, hcloses]
      exact h.balance handle
    · rw [hopens]
      exact h.once handle
    · rw [hopens]
      exact h.unused handle (hfresh ▸ hlt)
  · simp only [hc, Nat.add_right_cancel_iff] at hcloses
    have hnew (handle : Nat) : allOpens handle (vs.set i ⟨q, ⟨c, a⟩ :: log, none⟩) =
        allOpens handle vs + if w.fresh = handle then 1 else 0 := by
      have := hopens handle
      rw [ho] at this
      omega
    refine ⟨fun handle => ?_, fun handle => ?_, fun handle hlt => ?_, hgoing, hended⟩
    · have := h.balance handle
      rw [hnew, hcloses, hopened, List.count_cons]
      simp only [beq_iff_eq]
      omega
    · have := h.once handle
      have := h.unused handle
      rw [hnew]
      split
      · omega
      · omega
    · have := h.unused handle
      rw [hnew, if_neg (by omega)]
      omega
  · simp only [ho, Nat.add_right_cancel_iff] at hopens
    obtain ⟨passed, hholds⟩ := hg
    have hheld : Holding handle log := by simpa [Holding] using hholds.count handle
    have hle : ∀ u ∈ vs, closes handle u.log ≤ opens handle u.log := by
      intro u hu
      obtain ⟨held, hholds⟩ := (h.going u hu).holds
      have := hholds.count handle
      omega
    have hzero := allCloses_eq_zero hle hi hheld (h.once handle)
    refine ⟨fun handle' => ?_, fun handle' => ?_, fun handle' hlt => ?_, hgoing, hended⟩
    · have hclose := hcloses handle'
      have := h.balance handle'
      rw [hc] at hclose
      rw [hopened, hopens]
      by_cases hsame : handle = handle'
      · subst hsame
        have hone : opens handle log ≤ allOpens handle vs := opens_le_allOpens handle (List.mem_of_getElem? hi)
        unfold Holding at hheld
        rw [List.count_erase_self]
        simp only [if_true] at hclose
        omega
      · rw [List.count_erase_of_ne (Ne.symm hsame)]
        simp only [hsame, if_false] at hclose
        omega
    · rw [hopens]
      exact h.once handle'
    · rw [hopens]
      exact h.unused handle' (hfresh ▸ hlt)

variable (lower starlette registry) in
/-- The calls keep the connections in order, whatever the services and the
clients do. -/
def relays : Protocol (forward settings lower starlette registry) World.step anyRequest anyStep where
  inv := Kept lower starlette registry
  guard q := guard (Goes lower registry q) (Stands lower starlette registry q)
  admits _ := admits
  post q o log := Fate lower starlette registry q log o
  arrive {q w vs} _ h := by
    have hopens (handle : Nat) : allOpens handle (vs ++ [⟨q, [], none⟩]) = allOpens handle vs := by
      simp [allOpens, opens]
    have hcloses (handle : Nat) : allCloses handle (vs ++ [⟨q, [], none⟩]) = allCloses handle vs := by
      simp [allCloses, closes]
    refine ⟨fun handle => ?_, fun handle => ?_, fun handle hlt => ?_, fun v hv => ?_, fun v hv o ho => ?_⟩
    · rw [hopens, hcloses]
      exact h.balance handle
    · rw [hopens]
      exact h.once handle
    · rw [hopens]
      exact h.unused handle hlt
    · rcases mem_concat hv with hv | rfl
      · exact h.going v hv
      · exact ⟨⟨none, holds_nil⟩, fun r a hmem => (nomatch hmem), .inl rfl⟩
    · rcases mem_concat hv with hv | rfl
      · exact h.ended v hv o ho
      · cases ho
  follows _ := keeps_forward
  sound h hi hg _ hs := ⟨kept_step h hi hg hs, admits_step hs⟩
  leave {w vs i q log o} h hi hp := by
    have hopens (handle : Nat) : allOpens handle (vs.set i ⟨q, log, some o⟩) = allOpens handle vs :=
      Nat.add_right_cancel (sum_set (f := fun u : RelayView => opens handle u.log) hi ⟨q, log, some o⟩)
    have hcloses (handle : Nat) : allCloses handle (vs.set i ⟨q, log, some o⟩) = allCloses handle vs :=
      Nat.add_right_cancel (sum_set (f := fun u : RelayView => closes handle u.log) hi ⟨q, log, some o⟩)
    refine ⟨fun handle => ?_, fun handle => ?_, fun handle hlt => ?_, fun v hv => ?_, fun v hv o' ho => ?_⟩
    · rw [hopens, hcloses]
      exact h.balance handle
    · rw [hopens]
      exact h.once handle
    · rw [hopens]
      exact h.unused handle hlt
    · rcases List.mem_or_eq_of_mem_set hv with hv | rfl
      · exact h.going v hv
      · exact h.going ⟨q, log, none⟩ (List.mem_of_getElem? hi)
    · rcases List.mem_or_eq_of_mem_set hv with hv | rfl
      · exact h.ended v hv o' ho
      · cases ho
        exact hp

variable {settings : Settings} {p : Pool}

theorem kept_of_reaches (h : Reaches (forward settings lower starlette registry) World.step anyRequest anyStep w p)
    (hw : w.opened = []) : Kept lower starlette registry p.world p.views := by
  refine (relays settings lower starlette registry).invariant ⟨fun handle => ?_, ?_, ?_, ?_, ?_⟩ h
  · rw [hw]
    rfl
  · exact fun handle => Nat.zero_le 1
  · exact fun handle _ => rfl
  · exact fun v hv => nomatch hv
  · exact fun v hv => nomatch hv

/-- The client of a call that holds on to its connection could not be told the
head of the answer: Starlette would not make it up, or the client was gone. -/
def Untold (lower : String → String) (starlette : MutableHeaders) (registry : String → Except Failure Service) (q : Asked)
    (handle : Nat) (log : ProxyLog) (o : Except Error Answer) : Prop :=
  sent log = [] ∧ ∃ server s, Served lower registry q server s log ∧ s.handle = handle ∧
    ((∃ f, responseHeaders starlette (labelled lower server s) = .error f ∧ Refuses (.other f) o) ∨
      ∃ headers e, responseHeaders starlette (labelled lower server s) = .ok headers ∧
        ⟨.head s.status headers, .error e⟩ ∈ log ∧ o = .error e)

theorem not_holding {passed : List Part} {handle : Nat} (h : Holds none passed log) : ¬ Holding handle log := by
  have := h.count handle
  simp only [reduceCtorEq, if_false] at this
  unfold Holding
  omega

theorem handle_of_holding {handle held : Nat} {passed : List Part} (h : Holds (some held) passed log)
    (hheld : Holding handle log) : held = handle := by
  have := h.count handle
  unfold Holding at hheld
  by_contra hne
  simp only [Option.some.injEq, hne, if_false] at this
  omega

theorem untold_of_holding {o : Except Error Answer} {handle : Nat} (h : Fate lower starlette registry q log o)
    (hheld : Holding handle log) : Untold lower starlette registry q handle log o := by
  cases h with
  | relayed hs hh hp | cut hs hh hp =>
      obtain ⟨passed, hholds, -⟩ := hp
      exact absurd hheld (not_holding hholds)
  | unanswered ho hp => exact absurd hheld (not_holding hp)
  | untold hs hh hl hp => exact ⟨hp.sent_eq, _, _, hs, handle_of_holding hp hheld, .inr ⟨_, _, hh, hl, rfl⟩⟩
  | unencodable hs hh ho hp => exact ⟨hp.sent_eq, _, _, hs, handle_of_holding hp hheld, .inl ⟨_, hh, ho⟩⟩

/-- The head of a relayed answer names the server that answered, whatever the
service says, and has the rest of what the service sent. -/
structure Labels (lower : String → String) (starlette : MutableHeaders) (server : ServiceInstance) (s : Stream)
    (headers : Headers) : Prop where
  named : headers.filter (fun h => h.1 = INSTANCE_HEADER) = [(INSTANCE_HEADER, server.id)]
  others : ∃ begun, starlette.setItem "x-accel-buffering" "no" starlette.initial = .ok begun ∧
    headers.filter (fun h => h.1 ≠ INSTANCE_HEADER) =
      (begun ++ (forClient lower s.headers).map fun h => (lower h.1, h.2)).filter fun h => h.1 ≠ INSTANCE_HEADER

theorem labels_of_ok (hd : starlette.Documented lower) {server : ServiceInstance} {s : Stream} {headers : Headers}
    (h : responseHeaders starlette (labelled lower server s) = .ok headers) : Labels lower starlette server s headers := by
  obtain ⟨begun, copied, hbegun, hcopied, hset⟩ := responseHeaders_ok h
  have hcopied : copied = begun ++ (forClient lower s.headers).map fun h => (lower h.1, h.2) := copyHeaders_ok hd hcopied
  have hset : starlette.setItem INSTANCE_HEADER server.id copied = .ok headers := hset
  have hnamed := hd.replaced hset
  have hothers := hd.retained hset
  rw [hd.lowered] at hnamed hothers
  refine ⟨hnamed, begun, hbegun, ?_⟩
  rw [hothers, hcopied]

theorem sent_of_refused {status : Nat} {code message : String}
    (h : Fate lower starlette registry q log (.ok (.refused status code message))) : sent log = [] := by
  cases h with
  | unencodable _ _ _ hp => exact hp.sent_eq
  | unanswered _ hp => exact hp.sent_eq

theorem relayed_of_fate (hd : starlette.Documented lower) {status : Nat} {headers : Headers}
    (h : Fate lower starlette registry q log (.ok (.relayed status headers))) :
    ∃ server s, Served lower registry q server s log ∧ status = s.status ∧ Labels lower starlette server s headers ∧
      (sent log = transcript s headers ∨ sent log <+: transcript s headers ∧
        ∃ r e, ⟨.read s.handle r, .error e⟩ ∈ log ∧ e.isUpstream = true) := by
  have hrefuses {e : Error} (ho : Refuses e (.ok (.relayed status headers))) : False := by
    unfold Refuses at ho
    split at ho
    · cases ho
    · cases ho
  cases h with
  | relayed hs hh hp =>
      obtain ⟨passed, hholds, hbegin, hwhole⟩ := hp
      refine ⟨_, _, hs, rfl, labels_of_ok hd hh, ?_⟩
      rw [hholds.sent_eq]
      exact (hwhole rfl).imp_right fun hcut => ⟨hbegin, hcut⟩
  | unencodable _ _ ho _ => exact (hrefuses ho).elim
  | unanswered ho _ => exact (hrefuses ho).elim

def agents : Upstreams.ServiceDefinition where
  name := "agents"
  instances := [⟨"http://one", "3fa1c2d0"⟩, ⟨"http://two", "8b1be0c7"⟩]
  inhabited := by decide
  distinct := by decide

def registered (name : String) : Except Failure Service :=
  if name = "agents" then .ok { toServiceDefinition := agents }
  else .error (.exception "ServiceNotFoundError" ("Unknown service '" ++ name ++ "'"))

def download (serviceName : String) : Asked := ⟨serviceName, { method := "GET", path := "export" }⟩

/-- One answer is relayed, and the server that gave it is asked again; its second
answer has a header that does not fit. -/
def askedAgain : List (Event Asked Reply) := [
  .start (download "agents"), .step 0 .done, .step 0 (.time 0),
  .step 0 (.answered 200 [("X-Gateway-Instance", "8b1be0c7"), ("content-type", "text/plain")] [[1], [2]]), .step 0 .done,
  .start (download "agents@3fa1c2d0"), .step 1 (.time 0), .step 0 .done, .step 0 .done, .step 0 .done,
  .step 1 (.answered 200 [("x-title", "名")] []), .step 0 .done, .step 0 .done, .step 0 .done, .step 1 .done, .finish 1,
  .step 0 .done, .finish 0]

def lowered (name : String) : String := if name = "X-Gateway-Instance" then "x-gateway-instance" else name

def setFirst (name value : String) : Headers → Headers
  | [] => [(name, value)]
  | h :: headers =>
      if h.1 = name then (name, value) :: headers.filter (fun h => h.1 ≠ name)
      else h :: setFirst name value headers

def latinHeaders : MutableHeaders where
  setItem name value headers := .ok (setFirst (lowered name) value headers)
  append name value headers :=
    if value.toList.all fun c => c.toNat < 256 then .ok (headers ++ [(lowered name, value)])
    else .error (.exception "UnicodeEncodeError"
      "'latin-1' codec can't encode character '\\u540d' in position 0: ordinal not in range(256)")

section Latin

variable {name value : String} {headers : Headers}

theorem filter_setFirst : (setFirst name value headers).filter (fun h => h.1 = name) = [(name, value)] := by
  induction headers with
  | nil => simp [setFirst]
  | cons h headers ih =>
      by_cases hname : h.1 = name
      · have hnone : (headers.filter fun h => h.1 ≠ name).filter (fun h => h.1 = name) = [] := by
          simp [List.filter_filter]
        rw [setFirst, if_pos hname, List.filter_cons_of_pos (by simp), hnone]
      · rw [setFirst, if_neg hname, List.filter_cons_of_neg (by simpa using hname), ih]

theorem filter_setFirst_ne :
    (setFirst name value headers).filter (fun h => h.1 ≠ name) = headers.filter fun h => h.1 ≠ name := by
  induction headers with
  | nil => simp [setFirst]
  | cons h headers ih =>
      by_cases hname : h.1 = name
      · rw [setFirst, if_pos hname, List.filter_cons_of_neg (by simp), List.filter_cons_of_neg (by simpa using hname),
          List.filter_filter]
        simp only [Bool.and_self]
      · rw [setFirst, if_neg hname, List.filter_cons_of_pos (by simpa using hname), ih,
          List.filter_cons_of_pos (by simpa using hname)]

theorem documented_latin : latinHeaders.Documented lowered where
  lowered := by decide
  replaced h := by
    cases h
    exact filter_setFirst
  retained h := by
    cases h
    exact filter_setFirst_ne
  appended {name value headers headers'} h := by
    unfold latinHeaders at h
    dsimp only at h
    split at h
    · cases h
      rfl
    · cases h

end Latin

def textHead : Headers := [("x-accel-buffering", "no"), ("x-gateway-instance", "3fa1c2d0"), ("content-type", "text/plain")]

theorem run_askedAgain : ∃ (settings : Settings) (p : Pool),
    Reaches (forward settings lowered latinHeaders registered) World.step anyRequest anyStep {} p ∧
    p.world.opened = [1] ∧ ∃ v ∈ p.views, v.result = some (.ok (.relayed 200 textHead)) ∧
      v.request.serviceName = "agents" ∧ ∃ u ∈ p.views, u.request.serviceName = "agents@3fa1c2d0" := by
  have hrun : (run (forward { retry := {} } lowered latinHeaders registered) World.step anyRequest anyStep ⟨{}, []⟩
      askedAgain).any
      (fun p => p.world.opened = [1] && p.views.any fun v => v.result = some (.ok (.relayed 200 textHead)) &&
        (v.request.serviceName = "agents" && p.views.any fun u => u.request.serviceName = "agents@3fa1c2d0")) = true := by
    decide +kernel
  obtain ⟨p, hp, hc⟩ := reaches_of_run hrun
  simp only [Bool.and_eq_true, List.any_eq_true, decide_eq_true_eq] at hc
  exact ⟨{ retry := {} }, p, hp, hc⟩

/-- At every moment the open connections are those that some call was given and
has not let go of; each is given to one call once, and that call lets go of it at
most once. A call that has ended, its body finalised where the client had left it,
has let go of what it was given, unless the client could not be told the head of
the answer. -/
theorem connections_released (settings : Settings) (lower : String → String) (starlette : MutableHeaders)
    (registry : String → Except Failure Service) {w : World} (hw : w.opened = []) {p : Pool}
    (h : Reaches (forward settings lower starlette registry) World.step anyRequest anyStep w p) :
    p.world.opened.Nodup ∧
      (∀ handle, handle ∈ p.world.opened ↔ ∃ v ∈ p.views, Holding handle v.log) ∧
      (∀ handle, allOpens handle p.views ≤ 1 ∧ ∀ v ∈ p.views, closes handle v.log ≤ opens handle v.log) ∧
      (∀ v ∈ p.views, ∀ handle handle', Holding handle v.log → Holding handle' v.log → handle = handle') ∧
      ∀ v ∈ p.views, ∀ o, v.result = some o → ∀ handle, Holding handle v.log →
        Untold lower starlette registry v.request handle v.log o := by
  have hkept := kept_of_reaches h hw
  have hle (handle : Nat) (v : RelayView) (hv : v ∈ p.views) : closes handle v.log ≤ opens handle v.log := by
    obtain ⟨held, hholds⟩ := (hkept.going v hv).holds
    have := hholds.count handle
    omega
  refine ⟨?_, fun handle => ?_, fun handle => ⟨hkept.once handle, hle handle⟩, fun v hv handle handle' hh hh' => ?_, ?_⟩
  · rw [List.nodup_iff_count_le_one]
    intro handle
    have := hkept.balance handle
    have := hkept.once handle
    omega
  · rw [← List.count_pos_iff]
    constructor
    · intro hpos
      by_contra! hnone
      have hsame : allCloses handle p.views = allOpens handle p.views := by
        refine congrArg List.sum (List.map_congr_left fun v hv => ?_)
        obtain ⟨held, hholds⟩ := (hkept.going v hv).holds
        have := hholds.count handle
        have := hnone v hv
        unfold Holding at this
        split at *
        · omega
        · omega
      have := hkept.balance handle
      omega
    · rintro ⟨v, hv, hheld⟩
      obtain ⟨i, hi⟩ := List.mem_iff_getElem?.1 hv
      have hzero := allCloses_eq_zero (hle handle) hi hheld (hkept.once handle)
      have hone := opens_le_allOpens handle hv
      have := hkept.balance handle
      unfold Holding at hheld
      omega
  · obtain ⟨held, hholds⟩ := (hkept.going v hv).holds
    cases held with
    | none => exact absurd hh (not_holding hholds)
    | some held => rw [← handle_of_holding hholds hh, ← handle_of_holding hholds hh']
  · exact fun v hv o ho handle hheld => untold_of_holding (hkept.ended v hv o ho) hheld

theorem connections_released_askedAgain : ∃ p : Pool, p.world.opened = [1] ∧
    (∀ handle, handle ∈ p.world.opened ↔ ∃ v ∈ p.views, Holding handle v.log) ∧
    ∀ v ∈ p.views, ∀ o, v.result = some o → ∀ handle, Holding handle v.log →
      Untold lowered latinHeaders registered v.request handle v.log o := by
  obtain ⟨settings, p, hp, hopened, -⟩ := run_askedAgain
  obtain ⟨-, hheld, -, -, huntold⟩ := connections_released settings lowered latinHeaders registered rfl hp
  exact ⟨p, hopened, hheld, huntold⟩

/-- Whatever the calls do, the requests of each go to servers of the service that
it names, and what its client is told is the beginning of one answer of one of
them, under the name of that server. A call that ends well has passed on all of
it, or as much as there was, and a refusal comes before anything is passed on. -/
theorem answers_relayed (settings : Settings) (lower : String → String) (starlette : MutableHeaders)
    (hd : starlette.Documented lower) (registry : String → Except Failure Service) {w : World} (hw : w.opened = [])
    {p : Pool} (h : Reaches (forward settings lower starlette registry) World.step anyRequest anyStep w p)
    {v : RelayView} (hv : v ∈ p.views) :
    (∀ r a, ⟨.transport r, a⟩ ∈ v.log →
        ∃ request server, Routed lower registry v.request request server ∧ r = sentTo request server) ∧
      (sent v.log = [] ∨ ∃ server s headers, Served lower registry v.request server s v.log ∧
        Labels lower starlette server s headers ∧ sent v.log <+: transcript s headers) ∧
      (∀ status headers, v.result = some (.ok (.relayed status headers)) →
        ∃ server s, Served lower registry v.request server s v.log ∧ status = s.status ∧
          Labels lower starlette server s headers ∧ (sent v.log = transcript s headers ∨ sent v.log <+: transcript s headers ∧
            ∃ r e, ⟨.read s.handle r, .error e⟩ ∈ v.log ∧ e.isUpstream = true)) ∧
      ∀ status code message, v.result = some (.ok (.refused status code message)) → sent v.log = [] := by
  have hkept := kept_of_reaches h hw
  refine ⟨(hkept.going v hv).went, (hkept.going v hv).told.imp_right ?_, ?_, ?_⟩
  · rintro ⟨server, s, headers, hs, hh, hbegin⟩
    exact ⟨server, s, headers, hs, labels_of_ok hd hh, hbegin⟩
  · exact fun status headers ho => relayed_of_fate hd (hkept.ended v hv _ ho)
  · exact fun status code message ho => sent_of_refused (hkept.ended v hv _ ho)

theorem answers_relayed_askedAgain : ∃ p : Pool, ∃ v ∈ p.views, v.result = some (.ok (.relayed 200 textHead)) ∧
    ∃ server s, Served lowered registered v.request server s v.log ∧ 200 = s.status ∧
      Labels lowered latinHeaders server s textHead ∧
      (sent v.log = transcript s textHead ∨ sent v.log <+: transcript s textHead ∧
        ∃ r e, ⟨.read s.handle r, .error e⟩ ∈ v.log ∧ e.isUpstream = true) := by
  obtain ⟨settings, p, hp, -, v, hv, hresult, -⟩ := run_askedAgain
  obtain ⟨-, -, hrelayed, -⟩ := answers_relayed settings lowered latinHeaders documented_latin registered rfl hp hv
  exact ⟨p, v, hv, hresult, hrelayed 200 textHead hresult⟩

theorem Labels.id_eq {server : ServiceInstance} {s : Stream} {headers : Headers} {id : String}
    (h : Labels lower starlette server s headers) (hid : (INSTANCE_HEADER, id) ∈ headers) : id = server.id := by
  have hmem : (INSTANCE_HEADER, id) ∈ headers.filter fun h => h.1 = INSTANCE_HEADER :=
    List.mem_filter.2 ⟨hid, decide_eq_true rfl⟩
  rw [h.named] at hmem
  exact congrArg Prod.snd (List.mem_singleton.1 hmem)

theorem server_of_id {service : Upstreams.ServiceDefinition} {server server' : ServiceInstance}
    (h : server ∈ service.instances) (h' : server' ∈ service.instances) (hid : server'.id = server.id) : server' = server :=
  List.inj_on_of_nodup_map service.distinct h' h hid

end Runs

end CodeZard.Connections
