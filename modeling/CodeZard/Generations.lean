import CodeZard.Turns

namespace CodeZard.Generations

open Amounts Programs Interleaving RunLogs Runs StreamScans Values Orchestration Turns

variable {α β : Type}

/-- Nothing is raised but an `Exception`. -/
def Excepts (x : Except Failure α) : Prop := ∀ f, x = .error f → f.isException = true

theorem Excepts.bind {x : Except Failure α} {g : α → Except Failure β} (hx : Excepts x) (hg : ∀ a, Excepts (g a)) :
    Excepts (x.bind g) := by
  intro f h
  cases x with
  | error e =>
      cases h
      exact hx f rfl
  | ok a => exact hg a f h

theorem excepts_ok (a : α) : Excepts (.ok a) := fun _ h => nomatch h

theorem excepts_intOf (value : Json) : Excepts (intOf value) := by
  intro f h
  unfold intOf at h
  split at h
  · cases h
  · cases h
  · split at h
    · cases h
    · split at h <;> cases h
      rfl
  · cases h
  · cases h

theorem excepts_moneyOf (value : Json) : Excepts (moneyOf value) := by
  intro f h
  unfold moneyOf at h
  split at h <;> cases h
  rfl

theorem excepts_fromAgent (panel : Fields) : Excepts (Usage.fromAgent panel) := by
  apply (excepts_intOf _).bind
  intro tokens
  apply (excepts_intOf _).bind
  intro calls
  apply (excepts_moneyOf _).bind
  intro cost
  exact excepts_ok _

theorem excepts_read (loads : Bytes → Option Json) (s : Scan) (line : Bytes) : Excepts (s.read loads line) := by
  rw [read_eq]
  unfold usageAfter
  cases doneCost loads line with
  | none => exact excepts_ok _
  | some cost =>
      intro f h
      cases hu : Usage.fromAgent cost with
      | error e =>
          rw [Option.elim_some, hu] at h
          cases h
          exact excepts_fromAgent cost _ hu
      | ok usage =>
          rw [Option.elim_some, hu] at h
          cases h

theorem excepts_feed (loads : Bytes → Option Json) (s : Scan) (chunk : Bytes) : Excepts (s.feed loads chunk) := by
  have hlines (lines : List Bytes) (s : Scan) : Excepts (lines.foldlM (Scan.read loads) s) := by
    induction lines generalizing s with
    | nil => exact excepts_ok s
    | cons line lines ih => exact (excepts_read loads s line).bind ih
  exact hlines _ _

def storedBy : ((c : Call) × Except Failure c.Answer) → Option Run
  | ⟨.put _, .ok run⟩ => some run
  | ⟨.approve _, .ok run⟩ => some run
  | ⟨.generating _, .ok run⟩ => some run
  | _ => none

/-- The version that a request has stored last. -/
def lastStored (log : TurnLog) : Option Run := log.findSome? storedBy

def concluded (run : Run) : Prop := run.state = .zipReady ∨ run.state = .failed

/-- The last version says that the run is over, and whoever follows its log is
let go. -/
def Settled (log : TurnLog) (runId : String) : Prop :=
  (∃ run, lastStored log = some run ∧ concluded run) ∧ (⟨.logStart runId, .ok ()⟩ ∈ log → ⟨.logEnd runId, .ok ()⟩ ∈ log)

/-- What a generation gets through: any end of the stream it has opened, a
cancellation while it reads and a failure to bill. -/
def handled : ((c : Call) × Except Failure c.Answer) → Prop
  | ⟨.stream _, .error _⟩ => False
  | ⟨.anext, .error f⟩ => f ≠ .generatorExit
  | ⟨.yield _, .error f⟩ => f ≠ .generatorExit
  | ⟨.aclose, .error _⟩ => False
  | ⟨.charge .., .error f⟩ => f.isException = true
  | _ => True

def Graceful (log : TurnLog) : Prop := ∀ x ∈ log, handled x

/-- What the world may answer. -/
def answers (_ : TurnLog) (c : Call) (a : Except Failure c.Answer) : Prop :=
  match c, a with
  | .generating runId, .ok r => r.id = runId ∧ r.state = .backendGeneration
  | .put run, a => a = .ok run
  | .logStart _, a => a = .ok ()
  | .logAppend _ _, a => a = .ok ()
  | .logEnd _, a => a = .ok ()
  | _, _ => True

theorem answers_step {w w' : World} {log : TurnLog} {c : Call} {r : Reply} {a : Except Failure c.Answer}
    (h : w.step c r = some (a, w')) : answers log c a := by
  cases c with
  | generating runId =>
      cases a with
      | error f => trivial
      | ok run =>
          rcases World.step_cases h with ⟨_, _, hquiet⟩ | ⟨x, hst, _, _⟩
          · exact absurd hquiet not_false
          · cases hst with
            | generating _ ha =>
                obtain ⟨_, rfl⟩ := Run.generating_ok ha
                exact ⟨rfl, rfl⟩
  | put run =>
      obtain ⟨_, rfl, _⟩ := World.step_put h
      rfl
  | logStart | logAppend | logEnd =>
      cases r <;> cases h
      rfl
  | _ => cases a <;> trivial

section Programs

variable {settings : Settings} {loads : Bytes → Except String Json} {log : TurnLog} {r run : Run}

theorem lastStored_cons {x : (c : Call) × Except Failure c.Answer} (h : storedBy x = none) :
    lastStored (x :: log) = lastStored log := by
  simp only [lastStored, List.findSome?_cons, h]

theorem graceful_cons {x : (c : Call) × Except Failure c.Answer} : Graceful (x :: log) ↔ handled x ∧ Graceful log :=
  List.forall_mem_cons

theorem settled_iff (hend : ⟨.logEnd r.id, .ok ()⟩ ∈ log) (hs : lastStored log = some run) :
    Settled log r.id ↔ concluded run := by
  constructor
  · rintro ⟨⟨run', hs', ho⟩, _⟩
    rw [hs] at hs'
    cases hs'
    exact ho
  · exact fun ho => ⟨⟨run, hs, ho⟩, fun _ => hend⟩

theorem not_settled {runId : String} (hs : lastStored log = some r) (hr : r.state = .backendGeneration) :
    ¬ Settled log runId := by
  rintro ⟨⟨run, hs', ho⟩, _⟩
  rw [hs] at hs'
  cases hs'
  rcases ho with ho | ho <;> rw [hr] at ho <;> cases ho

/-- The log of the run is open, and this is its last version. -/
structure Going (r run : Run) (log : TurnLog) : Prop where
  stored : lastStored log = some run
  started : ⟨.logStart r.id, .ok ()⟩ ∈ log
  opened : ∀ a, ⟨.logEnd r.id, a⟩ ∉ log

theorem Going.cons {c : Call} {a : Except Failure c.Answer} (h : Going r run log) (hs : storedBy ⟨c, a⟩ = none)
    (hc : c ≠ .logEnd r.id) : Going r run (⟨c, a⟩ :: log) := by
  refine ⟨(lastStored_cons hs).trans h.stored, List.mem_cons_of_mem _ h.started, fun b hb => ?_⟩
  rcases List.mem_cons.1 hb with he | hb
  · cases he
    exact hc rfl
  · exact h.opened b hb

theorem keeps_feeding (chunks : List Bytes) (scan : Scan) (h : Going r r log) (hg : Graceful log) :
    Keeps (fun _ _ => True) answers (fun o log => Going r r log ∧ match o with
      | .ok _ => Graceful log
      | .error f => Graceful log ↔ f ≠ .generatorExit) (feeding loads r chunks scan) log := by
  induction chunks generalizing scan log with
  | nil =>
      refine keeps_perform_bind.2 ⟨trivial, fun a _ => ?_⟩
      cases a with
      | error f => exact ⟨h.cons rfl (by simp), graceful_cons.trans (and_iff_left hg)⟩
      | ok _ => exact ⟨h.cons rfl (by simp), graceful_cons.2 ⟨trivial, hg⟩⟩
  | cons chunk chunks ih =>
      refine keeps_perform_bind.2 ⟨trivial, fun a _ => ?_⟩
      cases a with
      | error f => exact ⟨h.cons rfl (by simp), graceful_cons.trans (and_iff_left hg)⟩
      | ok _ =>
          have h := h.cons (c := .anext) (a := .ok ()) rfl (by simp)
          have hg : Graceful (⟨.anext, .ok ()⟩ :: log) := graceful_cons.2 ⟨trivial, hg⟩
          refine keeps_perform_bind.2 ⟨trivial, fun a ha => ?_⟩
          cases ha
          have h := h.cons (c := .logAppend r.id chunk) (a := .ok ()) rfl (by simp)
          have hg := graceful_cons (x := ⟨.logAppend r.id chunk, .ok ()⟩).2 ⟨trivial, hg⟩
          refine keeps_perform_bind.2 ⟨trivial, fun a _ => ?_⟩
          cases a with
          | error f => exact ⟨h.cons rfl (by simp), graceful_cons.trans (and_iff_left hg)⟩
          | ok _ =>
              have h := h.cons (c := .yield chunk) (a := .ok ()) rfl (by simp)
              have hg := graceful_cons (x := ⟨.yield chunk, .ok ()⟩).2 ⟨trivial, hg⟩
              refine keeps_bind.2 (keeps_ofExcept.2 ?_)
              cases hf : scan.feed (fun line => (loads line).toOption) chunk with
              | error f =>
                  refine ⟨h, iff_of_true hg ?_⟩
                  rintro rfl
                  exact nomatch excepts_feed _ scan chunk _ hf
              | ok scan => exact ih scan h hg

theorem keeps_failed (f : Failure) (h : Going r r log) (hr : r.state = .backendGeneration)
    (hg : Graceful log ↔ f ≠ .generatorExit) :
    Keeps (fun _ _ => True) answers (fun o log => (∀ scan, o ≠ .ok scan) ∧
      ∃ run, Going r run log ∧ (concluded run ↔ Graceful log)) (failing r f) log := by
  have hf (error : String) : r.failed error = .ok { r with state := .failed, error := error } := by
    simp [Run.failed, Run.moved, moves, RunState.failable, hr]
  have hstore (error : String) (hne : f ≠ .generatorExit) :
      Keeps (fun _ _ => True) answers (fun o log => (∀ scan, o ≠ .ok scan) ∧
        ∃ run, Going r run log ∧ (concluded run ↔ Graceful log))
        ((ofExcept (r.failed error)).bind fun run => (ask (.put run)).bind fun _ => (.raise f : Orchestrated Scan))
        log := by
    rw [hf]
    refine keeps_perform_bind.2 ⟨trivial, fun a ha => ?_⟩
    cases ha
    refine ⟨by simp, _, ⟨rfl, List.mem_cons_of_mem _ h.started, fun a ha => ?_⟩, ?_⟩
    · rcases List.mem_cons.1 ha with he | ha
      · cases he
      · exact h.opened a ha
    · exact iff_of_true (.inr rfl) (graceful_cons.2 ⟨trivial, hg.2 hne⟩)
  cases f with
  | cancelled => exact hstore _ (by simp)
  | exception name message => exact hstore _ (by simp)
  | generatorExit =>
      refine ⟨by simp, r, h, iff_of_false ?_ fun h => hg.1 h rfl⟩
      rintro (ho | ho) <;> rw [hr] at ho <;> cases ho

theorem keeps_over (scan : Scan) (hs : lastStored log = some r) (hr : r.state = .backendGeneration)
    (hend : ⟨.logEnd r.id, .ok ()⟩ ∈ log) (hg : Graceful log) :
    Keeps (fun _ _ => True) answers (fun _ log => Settled log r.id ↔ Graceful log)
      (if scan.artifact = "" then
        (ofExcept (r.failed "the agent produced no artifact")).bind fun failed =>
          (ask (.put failed)).bind fun _ => .ret ()
      else (ofExcept (r.delivered scan.artifact)).bind fun delivered =>
        (charge settings delivered scan.usage).bind fun billed =>
          (ask (.put billed)).bind fun _ => .ret ()) log := by
  have hput {run : Run} {log : TurnLog} (ho : concluded run) (hend : ⟨.logEnd r.id, .ok ()⟩ ∈ log) (hg : Graceful log) :
      Keeps (fun _ _ => True) answers (fun _ log => Settled log r.id ↔ Graceful log)
        ((ask (.put run)).bind fun _ => .ret ()) log := by
    refine keeps_perform_bind.2 ⟨trivial, fun a ha => ?_⟩
    cases ha
    exact (settled_iff (List.mem_cons_of_mem _ hend) rfl).trans (iff_of_true ho (graceful_cons.2 ⟨trivial, hg⟩))
  split
  · have hf (error : String) : r.failed error = .ok { r with state := .failed, error := error } := by
      simp [Run.failed, Run.moved, moves, RunState.failable, hr]
    rw [hf]
    exact hput (.inr rfl) hend hg
  · have hd (artifact : String) :
        r.delivered artifact = .ok { r with state := .zipReady, artifactId := artifact } := by
      simp [Run.delivered, Run.moved, moves, transitions, hr]
    rw [hd]
    simp only [ofExcept_ok, ret_bind]
    refine keeps_bind.2 ?_
    unfold charge
    split
    · exact hput (.inl rfl) hend hg
    · refine keeps_bind.2 (keeps_rescue.2 (keeps_perform.2 ⟨trivial, fun a _ => ?_⟩))
      cases a with
      | ok tokens =>
          cases tokens <;> exact hput (.inl rfl) (List.mem_cons_of_mem _ hend) (graceful_cons.2 ⟨trivial, hg⟩)
      | error f =>
          simp only
          split
          · rename_i hf
            exact hput (.inl rfl) (List.mem_cons_of_mem _ hend) (graceful_cons.2 ⟨hf, hg⟩)
          · rename_i hf
            exact iff_of_false (not_settled ((lastStored_cons rfl).trans hs) hr) fun h => hf (graceful_cons.1 h).1

theorem keeps_started (chunks : List Bytes) (h : Going r r log) (hr : r.state = .backendGeneration)
    (hg : Graceful log) :
    Keeps (fun _ _ => True) answers (fun o log => match o with
      | .ok _ => lastStored log = some r ∧ ⟨.logEnd r.id, .ok ()⟩ ∈ log ∧ Graceful log
      | .error _ => Settled log r.id ↔ Graceful log)
      (((feeding loads r chunks {}).rescue (failing r)).ensuring do
        ask .aclose
        ask (.logEnd r.id)) log := by
  have hclose {run : Run} {log : TurnLog} {post : Except Failure Unit → TurnLog → Prop} (h : Going r run log)
      (herror : ∀ f log, (Settled log r.id ↔ Graceful log) → post (.error f) log)
      (hok : ∀ log', lastStored log' = some run → ⟨.logEnd r.id, .ok ()⟩ ∈ log' → (Graceful log' ↔ Graceful log) →
        post (.ok ()) log') :
      Keeps (fun _ _ => True) answers post ((ask .aclose).bind fun _ => ask (.logEnd r.id)) log := by
    refine keeps_perform_bind.2 ⟨trivial, fun a _ => ?_⟩
    cases a with
    | error f =>
        have h := h.cons (c := .aclose) (a := .error f) rfl (by simp)
        refine herror f _ (iff_of_false (fun hs => ?_) fun hg => (graceful_cons.1 hg).1)
        exact h.opened _ (hs.2 h.started)
    | ok _ =>
        refine (keeps_perform (c := Call.logEnd r.id)).2 ⟨trivial, fun a ha => ?_⟩
        cases ha
        refine hok _ ((lastStored_cons rfl).trans ((lastStored_cons rfl).trans h.stored)) List.mem_cons_self ?_
        exact graceful_cons.trans ((and_iff_right trivial).trans (graceful_cons.trans (and_iff_right trivial)))
  refine keeps_ensuring.2 (keeps_rescue.2 ((keeps_feeding chunks {} h hg).mono fun o log ho => ?_))
  cases o with
  | ok scan =>
      obtain ⟨h, hg⟩ := ho
      exact hclose h (fun f log hs => hs) fun log' hs hend hg' => ⟨hs, hend, hg'.2 hg⟩
  | error f =>
      refine (keeps_failed f ho.1 hr ho.2).mono fun o log hfail => ?_
      obtain ⟨hno, run, h, hover⟩ := hfail
      cases o with
      | ok scan => exact absurd rfl (hno scan)
      | error f =>
          exact hclose h (fun f log hs => hs) fun log' hs hend hg' => (settled_iff hend hs).trans (hover.trans hg'.symm)

theorem keeps_ending (runId : String) :
    Keeps (fun _ _ => True) answers (fun _ log => (∃ r, ⟨.generating runId, .ok r⟩ ∈ log) →
      (Settled log runId ↔ Graceful log)) (generate settings loads runId) [] := by
  refine keeps_perform_bind.2 ⟨trivial, fun a ha => ?_⟩
  cases a with
  | error f =>
      rintro ⟨r, hr⟩
      simp at hr
  | ok r =>
      obtain ⟨hid, hr⟩ := ha
      suffices h : Keeps (fun _ _ => True) answers (fun _ log => Settled log r.id ↔ Graceful log) _ _ from
        h.mono fun _ _ h _ => hid ▸ h
      have hg : Graceful [⟨.generating runId, .ok r⟩] := graceful_cons.2 ⟨trivial, fun _ h => nomatch h⟩
      refine keeps_perform_bind.2 ⟨trivial, fun a _ => ?_⟩
      cases a with
      | error f => exact iff_of_false (not_settled (r := r) rfl hr) fun h => (graceful_cons.1 h).1
      | ok chunks =>
          refine keeps_perform_bind.2 ⟨trivial, fun a ha => ?_⟩
          cases ha
          have h : Going r r (⟨.logStart r.id, .ok ()⟩ :: ⟨.stream (promptFor (r.plan.getD [])), .ok chunks⟩ ::
              [⟨.generating runId, .ok r⟩]) :=
            ⟨rfl, List.mem_cons_self, fun a ha => by simp at ha⟩
          have hg := graceful_cons (x := ⟨.stream (promptFor (r.plan.getD [])), .ok chunks⟩).2 ⟨trivial, hg⟩
          have hg := graceful_cons (x := ⟨.logStart r.id, .ok ()⟩).2 ⟨trivial, hg⟩
          refine keeps_bind.2 ((keeps_started chunks h hr hg).mono fun o log ho => ?_)
          cases o with
          | error f => exact ho
          | ok scan => exact keeps_over scan ho.1 hr ho.2.1 ho.2.2

end Programs

def Finished (q : Request) (log : TurnLog) : Prop :=
  ∀ runId, q = .generate runId → (∃ r, ⟨.generating runId, .ok r⟩ ∈ log) → (Settled log runId ↔ Graceful log)

variable {settings : Settings} {loads : Bytes → Except String Json}

theorem keeps_finished (q : Request) :
    Keeps (fun _ _ => True) answers (fun _ log => Finished q log) (body settings loads q) [] := by
  cases q with
  | generate runId =>
      refine keeps_bind.2 ((keeps_ending runId).mono fun o log h => ?_)
      have hfinished : Finished (.generate runId) log := by
        intro id hq
        cases hq
        exact h
      cases o <;> exact hfinished
  | _ =>
      apply Keeps.mono (keeps_of_guard (fun _ _ => trivial) _)
      intro _ _ _ id hq
      cases hq

def protocol : Protocol (body settings loads) World.step anyRequest anyStep where
  inv _ vs := ∀ v ∈ vs, v.result.isSome → Finished v.request v.log
  guard _ _ _ := True
  admits _ := answers
  post q _ log := Finished q log
  arrive _ h v hv hr := by
    rcases List.mem_append.1 hv with hv | hv
    · exact h v hv hr
    · obtain rfl := List.mem_singleton.1 hv
      cases hr
  follows _ := keeps_finished _
  sound h hn _ _ hs := by
    refine ⟨fun v hv hr => ?_, answers_step hs⟩
    rcases List.mem_or_eq_of_mem_set hv with hv | rfl
    · exact h v hv hr
    · cases hr
  leave h hn hp v hv hr := by
    rcases List.mem_or_eq_of_mem_set hv with hv | rfl
    · exact h v hv hr
    · exact hp

/-- However a generation ends and whatever goes on beside it, its run is left
ready or failed and its log is closed exactly if it ended gracefully. -/
theorem generation_settled (settings : Settings) (loads : Bytes → Except String Json) {w : World} {c : Desk}
    (h : Reaches (body settings loads) World.step anyRequest anyStep w c) {v : InTurn} (hv : v ∈ c.views)
    {runId : String} (hq : v.request = .generate runId) (hr : v.result.isSome) {r : Run}
    (hg : ⟨.generating runId, .ok r⟩ ∈ v.log) : Settled v.log runId ↔ Graceful v.log := by
  have hinv := protocol.invariant (fun v hv => nomatch hv) h
  exact hinv v hv hr runId hq ⟨r, hg⟩

def begun : List (Event Request Reply) :=
  reviewed ++ ([.start (.approve "r"), .step 1 (.sweptTwice [] []), .finish 1, .start (.generate "r"),
    .step 2 (.sweptTwice [] [])] : List (Event Request Reply))

def began (runId : String) (log : TurnLog) : Bool := log.any fun
  | ⟨.generating id, .ok _⟩ => id = runId
  | _ => false

def left (runId : String) (state : RunState) (v : InTurn) : Bool :=
  decide (v.request = .generate runId) && v.result.isSome && began runId v.log &&
    decide ((lastStored v.log).map Run.state = some state)

theorem left_iff {runId : String} {state : RunState} {v : InTurn} (h : left runId state v = true) :
    v.request = .generate runId ∧ v.result.isSome ∧ (∃ r, ⟨.generating runId, .ok r⟩ ∈ v.log) ∧
      ∃ run, lastStored v.log = some run ∧ run.state = state := by
  simp only [left, Bool.and_eq_true, decide_eq_true_eq, Option.map_eq_some_iff] at h
  obtain ⟨⟨⟨hq, hr⟩, hb⟩, hs⟩ := h
  refine ⟨hq, hr, ?_, hs⟩
  obtain ⟨x, hx, hb⟩ := List.any_eq_true.1 hb
  split at hb
  · cases of_decide_eq_true hb
    exact ⟨_, hx⟩
  · cases hb

def brokenOff : List (Event Request Reply) :=
  begun ++ ([.step 2 (.streaming [ascii "data: "]), .step 2 .done, .step 2 .done, .step 2 .done, .step 2 .done,
    .step 2 (.raised .cancelled), .step 2 (.swept []), .step 2 .done, .step 2 .done,
    .finish 2] : List (Event Request Reply))

def closed (runId : String) (log : TurnLog) : Bool := log.any fun
  | ⟨.logEnd id, .ok _⟩ => id = runId
  | _ => false

theorem generation_settled_brokenOff : ∃ c, Reaches (body {} loadsPlan) World.step anyRequest anyStep {} c ∧
    ∃ v ∈ c.views, v.request = .generate "r" ∧ Settled v.log "r" ∧ (Settled v.log "r" ↔ Graceful v.log) := by
  have hrun : (run (body {} loadsPlan) World.step anyRequest anyStep ⟨{}, []⟩ brokenOff).any (fun c =>
      c.views.any fun v => left "r" .failed v && closed "r" v.log) = true := by decide +kernel
  obtain ⟨c, hc, hp⟩ := reaches_of_run hrun
  obtain ⟨v, hv, hp⟩ := List.any_eq_true.1 hp
  obtain ⟨hl, he⟩ := Bool.and_eq_true_iff.1 hp
  obtain ⟨hq, hr, ⟨r, hg⟩, run, hs, hf⟩ := left_iff hl
  obtain ⟨x, hx, he⟩ := List.any_eq_true.1 he
  split at he
  · cases of_decide_eq_true he
    exact ⟨c, hc, v, hv, hq, ⟨⟨run, hs, .inr hf⟩, fun _ => hx⟩, generation_settled {} loadsPlan hc hv hq hr hg⟩
  · cases he

def unreachable : List (Event Request Reply) :=
  begun ++ [.step 2 (.raised (.exception "CircuitOpenError" "Service 'backend' is temporarily unavailable")), .finish 2]

theorem generation_left_running : ∃ c, Reaches (body {} loadsPlan) World.step anyRequest anyStep {} c ∧
    ∃ v ∈ c.views, v.request = .generate "r" ∧ v.result.isSome ∧ (∃ r, ⟨.generating "r", .ok r⟩ ∈ v.log) ∧
      (∃ run, lastStored v.log = some run ∧ run.state = .backendGeneration) ∧ ¬ Settled v.log "r" := by
  have hrun : (run (body {} loadsPlan) World.step anyRequest anyStep ⟨{}, []⟩ unreachable).any (fun c =>
      c.views.any (left "r" .backendGeneration)) = true := by decide +kernel
  obtain ⟨c, hc, hp⟩ := reaches_of_run hrun
  obtain ⟨v, hv, hp⟩ := List.any_eq_true.1 hp
  obtain ⟨hq, hr, hg, run, hs, hb⟩ := left_iff hp
  exact ⟨c, hc, v, hv, hq, hr, hg, ⟨run, hs, hb⟩, not_settled hs hb⟩

end CodeZard.Generations
