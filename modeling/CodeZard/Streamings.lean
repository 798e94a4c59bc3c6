import CodeZard.Endings
import CodeZard.Generations

namespace CodeZard.Streamings

open Programs Interleaving RunLogs Runs StreamScans Values Orchestration Turns Endings
open Generations (answers answers_step lastStored)

/-- The chunks that a request has put into the log of its run. -/
def logged : TurnLog → List Bytes
  | [] => []
  | ⟨.logAppend _ chunk, .ok _⟩ :: log => logged log ++ [chunk]
  | _ :: log => logged log

/-- The chunks that its caller has taken. -/
def yielded : TurnLog → List Bytes
  | [] => []
  | ⟨.yield chunk, .ok _⟩ :: log => yielded log ++ [chunk]
  | _ :: log => yielded log

def Open (runId : String) (log : TurnLog) : Prop := ⟨.logStart runId, .ok ()⟩ ∈ log ∧ ∀ id a, ⟨.logEnd id, a⟩ ∉ log

/-- What the agent says, if nothing goes wrong. -/
def Streams (log : TurnLog) (chunks : List Bytes) : Prop := ∃ question, ⟨.stream question, .ok chunks⟩ ∈ log

/-- A log is started once. A chunk of the stream is put into it before the caller
gets it, and nothing else is, until it is closed. -/
def guard (log : TurnLog) : Call → Prop
  | .logStart _ => (∀ id a, ⟨.logStart id, a⟩ ∉ log) ∧ (∀ id a, ⟨.logEnd id, a⟩ ∉ log) ∧ logged log = [] ∧ yielded log = []
  | .logAppend runId chunk => Open runId log ∧ yielded log = logged log ∧
      ∃ chunks, Streams log chunks ∧ logged log ++ [chunk] <+: chunks
  | .yield chunk => yielded log ++ [chunk] = logged log
  | .logEnd runId => Open runId log
  | _ => True

/-- What is stored of a run whose stream was read to its end. -/
inductive Came (r : Run) (scan : Scan) (log : TurnLog) : Run → Prop
  | failed {run : Run} (ha : scan.artifact = "") (hf : r.failed "the agent produced no artifact" = .ok run) :
      Came r scan log run
  | delivered {run : Run} (ha : scan.artifact ≠ "") (hd : r.delivered scan.artifact = .ok run) : Came r scan log run
  | billed {run : Run} {tokens : Int} (ha : scan.artifact ≠ "") (hd : r.delivered scan.artifact = .ok run)
      (hc : ⟨.charge run.account run.id scan.usage, .ok (some tokens)⟩ ∈ log) :
      Came r scan log (run.billed tokens.natAbs)

/-- Everything that the agent said was logged, passed on and read, and what was
read of it is what is kept. -/
def Complete (loads : Bytes → Except String Json) (runId : String) (log : TurnLog) : Prop :=
  ∃ r chunks scan run, ⟨.generating runId, .ok r⟩ ∈ log ∧ Streams log chunks ∧ logged log = chunks ∧ yielded log = chunks ∧
    feedAll (fun line => (loads line).toOption) chunks = .ok scan ∧ lastStored log = some run ∧ Came r scan log run

section Programs

variable {settings : Settings} {loads : Bytes → Except String Json} {log : TurnLog} {α : Type}

/-- The program neither logs anything nor passes anything on. -/
abbrev Silent (p : Orchestrated α) : Prop := Restores guard answers (fun _ => True) p

theorem silent_ask {c : Call} (hg : ∀ log, guard log c) : Silent (ask c) :=
  restores_perform (fun log _ => hg log) fun _ _ _ _ => trivial

theorem silent_askPm (operation : String) (payload : Fields) : Silent (askPm settings loads operation payload) := by
  refine Restores.bind (silent_ask fun _ => trivial) fun response => ?_
  dsimp only
  split
  · exact restores_raise _
  · split
    · exact (restores_ofExcept _).bind fun _ => restores_raise _
    · exact restores_ret _
  · exact restores_raise _

theorem silent_plan (run : Run) : Silent (plan settings loads run) := by
  obtain ⟨payload, hplan⟩ := plan_eq settings loads run
  rw [hplan]
  exact (silent_askPm _ _).bind fun _ => restores_ofExcept _

theorem silent_put (run : Run) : Silent (ask (.put run)) := silent_ask fun _ => trivial

theorem silent_start (idea account : String) : Silent (start settings loads idea account) := by
  have hauth : Silent (authorized settings account) := by
    unfold authorized
    split
    · exact silent_ask fun _ => trivial
    · exact restores_ret _
  refine hauth.bind fun _ => (restores_ofExcept _).bind fun text => ?_
  refine Restores.bind (silent_ask fun _ => trivial) fun id => ?_
  refine (restores_ofExcept _).bind fun run => (silent_askPm _ _).bind fun answer => ?_
  dsimp only
  split
  · exact (restores_ofExcept _).bind silent_put
  · exact (restores_ofExcept _).bind fun run => (silent_plan run).bind silent_put

theorem silent_answer (runId : String) (answers : List Answer) : Silent (answer settings loads runId answers) :=
  Restores.bind (silent_ask fun _ => trivial) fun _ => (silent_plan _).bind silent_put

theorem silent_reject (runId feedback : String) : Silent (reject settings loads runId feedback) := by
  unfold reject
  dsimp only
  split
  · exact restores_raise _
  · refine Restores.bind (silent_ask fun _ => trivial) fun run => (restores_ofExcept _).bind fun run => ?_
    refine (restores_ofExcept _).bind fun run => (silent_askPm _ _).bind fun answer => ?_
    split
    · exact restores_raise _
    · exact (restores_ofExcept _).bind silent_put

/-- Between the start of the log and its end, so much has been logged, passed on
and read. -/
structure Reading (runId : String) (r : Run) (chunks before : List Bytes) (log : TurnLog) : Prop where
  stored : lastStored log = some r
  began : ⟨.generating runId, .ok r⟩ ∈ log
  opened : Open r.id log
  streams : Streams log chunks
  logged : logged log = before
  yielded : yielded log = before

def still : Call → Bool
  | .put _ | .approve _ | .generating _ | .logStart _ | .logAppend .. | .logEnd _ | .yield _ => false
  | _ => true

variable {runId : String} {r : Run} {chunks before : List Bytes}

theorem logged_cons {c : Call} (hc : still c = true) (a : Except Failure c.Answer) : logged (⟨c, a⟩ :: log) = logged log := by
  cases c <;> cases hc <;> rfl

theorem yielded_cons {c : Call} (hc : still c = true) (a : Except Failure c.Answer) :
    yielded (⟨c, a⟩ :: log) = yielded log := by
  cases c <;> cases hc <;> rfl

theorem lastStored_still {c : Call} (hc : still c = true) (a : Except Failure c.Answer) :
    lastStored (⟨c, a⟩ :: log) = lastStored log := by
  apply Generations.lastStored_cons
  cases c <;> cases hc <;> rfl

theorem Open.cons {runId : String} {c : Call} (h : Open runId log) (hc : ∀ id, c ≠ .logEnd id) (a : Except Failure c.Answer) :
    Open runId (⟨c, a⟩ :: log) := by
  refine ⟨List.mem_cons_of_mem _ h.1, fun id b hb => ?_⟩
  rcases List.mem_cons.1 hb with he | hb
  · cases he
    exact hc id rfl
  · exact h.2 id b hb

theorem Streams.cons {x : (c : Call) × Except Failure c.Answer} (h : Streams log chunks) : Streams (x :: log) chunks := by
  obtain ⟨question, hq⟩ := h
  exact ⟨question, List.mem_cons_of_mem _ hq⟩

theorem Reading.still {c : Call} (h : Reading runId r chunks before log) (hc : still c = true) (a : Except Failure c.Answer) :
    Reading runId r chunks before (⟨c, a⟩ :: log) := by
  refine ⟨(lastStored_still hc a).trans h.stored, List.mem_cons_of_mem _ h.began, h.opened.cons ?_ a, h.streams.cons,
    (logged_cons hc a).trans h.logged, (yielded_cons hc a).trans h.yielded⟩
  rintro id rfl
  cases hc

theorem Reading.next (chunk : Bytes) (h : Reading runId r chunks before log) : Reading runId r chunks (before ++ [chunk])
    (⟨.yield chunk, .ok ()⟩ :: ⟨.logAppend r.id chunk, .ok ()⟩ :: log) := by
  refine ⟨h.stored, List.mem_cons_of_mem _ (List.mem_cons_of_mem _ h.began),
    (h.opened.cons ?_ _).cons ?_ _, h.streams.cons.cons, congrArg (· ++ [chunk]) h.logged, congrArg (· ++ [chunk]) h.yielded⟩
  · exact fun id he => nomatch he
  · exact fun id he => nomatch he

theorem keeps_feeding {scan : Scan} {rest : List Bytes} (h : Reading runId r chunks before log) (hrest : before ++ rest = chunks)
    (hscan : feedAll (fun line => (loads line).toOption) before = .ok scan) :
    Keeps guard answers (fun o log => lastStored log = some r ∧ Open r.id log ∧
      ∀ scan, o = .ok scan → Reading runId r chunks chunks log ∧ feedAll (fun line => (loads line).toOption) chunks = .ok scan)
      (feeding loads r rest scan) log := by
  induction rest generalizing before scan log with
  | nil =>
      obtain rfl : before = chunks := by simpa using hrest
      refine keeps_perform_bind.2 ⟨trivial, fun a _ => ?_⟩
      have h := h.still (c := .anext) rfl a
      cases a with
      | error f => exact ⟨h.stored, h.opened, fun _ he => nomatch he⟩
      | ok _ =>
          refine ⟨h.stored, h.opened, fun scan' he => ?_⟩
          cases he
          exact ⟨h, hscan⟩
  | cons chunk rest ih =>
      refine keeps_perform_bind.2 ⟨trivial, fun a _ => ?_⟩
      have h := h.still (c := .anext) rfl a
      cases a with
      | error f => exact ⟨h.stored, h.opened, fun _ he => nomatch he⟩
      | ok _ =>
          have hguard : guard (⟨.anext, .ok ()⟩ :: log) (.logAppend r.id chunk) := by
            refine ⟨h.opened, h.yielded.trans h.logged.symm, chunks, h.streams, rest, ?_⟩
            rw [h.logged, List.append_assoc]
            exact hrest
          refine keeps_perform_bind.2 ⟨hguard, fun a ha => ?_⟩
          cases ha
          have hyield : guard (⟨.logAppend r.id chunk, .ok ()⟩ :: ⟨.anext, .ok ()⟩ :: log) (.yield chunk) :=
            congrArg (· ++ [chunk]) (h.yielded.trans h.logged.symm)
          refine keeps_perform_bind.2 ⟨hyield, fun a _ => ?_⟩
          cases a with
          | error f =>
              refine ⟨h.stored, (h.opened.cons ?_ _).cons ?_ _, fun _ he => nomatch he⟩
              · exact fun id he => nomatch he
              · exact fun id he => nomatch he
          | ok _ =>
              have h := h.next chunk
              refine keeps_bind.2 (keeps_ofExcept.2 ?_)
              cases hf : scan.feed (fun line => (loads line).toOption) chunk with
              | error f => exact ⟨h.stored, h.opened, fun _ he => nomatch he⟩
              | ok scan' =>
                  have hone : [chunk].foldlM (Scan.feed fun line => (loads line).toOption) scan = .ok scan' := by
                    rw [List.foldlM_cons, hf]
                    rfl
                  refine ih h (by simpa using hrest) ?_
                  rw [feedAll, List.foldlM_append, ← feedAll, hscan]
                  exact hone

theorem keeps_failing (f : Failure) (h : Open r.id log) : Keeps guard answers (fun o log => (∀ scan, o ≠ .ok scan) ∧ Open r.id log)
    (failing r f) log := by
  unfold failing
  cases lost f with
  | none => exact ⟨by simp, h⟩
  | some error =>
      refine keeps_bind.2 (keeps_ofExcept.2 ?_)
      cases r.failed error with
      | error f => exact ⟨by simp, h⟩
      | ok run =>
          refine keeps_perform_bind.2 ⟨trivial, fun a _ => ?_⟩
          have h := h.cons (c := .put run) (fun id he => nomatch he) a
          cases a with
          | ok _ => exact ⟨by simp, h⟩
          | error f => exact ⟨by simp, h⟩

/-- The stream has been read to its end, and the log is closed. -/
structure Over (runId : String) (r : Run) (chunks : List Bytes) (log : TurnLog) : Prop where
  stored : lastStored log = some r
  began : ⟨.generating runId, .ok r⟩ ∈ log
  streams : Streams log chunks
  logged : logged log = chunks
  yielded : yielded log = chunks

theorem Over.still {c : Call} (h : Over runId r chunks log) (hc : still c = true) (a : Except Failure c.Answer) :
    Over runId r chunks (⟨c, a⟩ :: log) := by
  exact ⟨(lastStored_still hc a).trans h.stored, List.mem_cons_of_mem _ h.began, h.streams.cons,
    (logged_cons hc a).trans h.logged, (yielded_cons hc a).trans h.yielded⟩

theorem keeps_charge {d : Run} {usage : Amounts.Usage} (h : Over runId r chunks log) :
    Keeps guard answers (fun o log => Over runId r chunks log ∧ ∀ run, o = .ok run → run = d ∨
      ∃ tokens : Int, run = d.billed tokens.natAbs ∧ ⟨.charge d.account d.id usage, .ok (some tokens)⟩ ∈ log)
      (charge settings d usage) log := by
  unfold charge
  split
  · refine ⟨h, fun run he => .inl ?_⟩
    cases he
    rfl
  refine keeps_bind.2 (keeps_rescue.2 (keeps_perform.2 ⟨trivial, fun a _ => ?_⟩))
  have h := h.still (c := .charge d.account d.id usage) rfl a
  match a with
  | .ok none =>
      refine ⟨h, fun run he => .inl ?_⟩
      cases he
      rfl
  | .ok (some tokens) =>
      refine ⟨h, fun run he => .inr ⟨tokens, ?_, List.mem_cons_self⟩⟩
      cases he
      rfl
  | .error f =>
      dsimp only
      split
      · refine ⟨h, fun run he => .inl ?_⟩
        cases he
        rfl
      · exact ⟨h, fun run he => nomatch he⟩

theorem keeps_over {scan : Scan} (h : Over runId r chunks log)
    (hscan : feedAll (fun line => (loads line).toOption) chunks = .ok scan) :
    Keeps guard answers (fun o log => ∀ x, o = .ok x → Complete loads runId log)
      (if scan.artifact = "" then
        (ofExcept (r.failed "the agent produced no artifact")).bind fun failed =>
          (ask (.put failed)).bind fun _ => .ret ()
      else (ofExcept (r.delivered scan.artifact)).bind fun delivered =>
        (charge settings delivered scan.usage).bind fun billed =>
          (ask (.put billed)).bind fun _ => .ret ()) log := by
  have hput {run : Run} {log : TurnLog} (h : Over runId r chunks log) (hcame : Came r scan (⟨.put run, .ok run⟩ :: log) run) :
      Keeps guard answers (fun o log => ∀ x, o = .ok x → Complete loads runId log)
        ((ask (.put run)).bind fun _ => .ret ()) log := by
    refine keeps_perform_bind.2 ⟨trivial, fun a ha => ?_⟩
    cases ha
    intro _ _
    exact ⟨r, chunks, scan, run, List.mem_cons_of_mem _ h.began, h.streams.cons, h.logged, h.yielded, hscan, rfl, hcame⟩
  split
  · rename_i ha
    refine keeps_bind.2 (keeps_ofExcept.2 ?_)
    cases hf : r.failed "the agent produced no artifact" with
    | error f => exact fun _ he => nomatch he
    | ok run => exact hput h (.failed ha hf)
  · rename_i ha
    refine keeps_bind.2 (keeps_ofExcept.2 ?_)
    cases hd : r.delivered scan.artifact with
    | error f => exact fun _ he => nomatch he
    | ok run =>
        refine keeps_bind.2 ((keeps_charge h).mono fun o log ho => ?_)
        obtain ⟨h, hcharge⟩ := ho
        cases o with
        | error f => exact fun _ he => nomatch he
        | ok billed =>
            rcases hcharge billed rfl with rfl | ⟨tokens, rfl, hc⟩
            · exact hput h (.delivered ha hd)
            · exact hput h (.billed ha hd (List.mem_cons_of_mem _ hc))

theorem keeps_started (h : Reading runId r chunks [] log) :
    Keeps guard answers (fun o log => ∀ scan, o = .ok scan → Over runId r chunks log ∧
        feedAll (fun line => (loads line).toOption) chunks = .ok scan)
      (((feeding loads r chunks {}).rescue (failing r)).ensuring do
        ask .aclose
        ask (.logEnd r.id)) log := by
  have hclose {log : TurnLog} {post : Except Failure Unit → TurnLog → Prop} (h : Open r.id log)
      (herror : ∀ f log, post (.error f) log)
      (hok : post (.ok ()) (⟨.logEnd r.id, .ok ()⟩ :: ⟨.aclose, .ok ()⟩ :: log)) :
      Keeps guard answers post ((ask .aclose).bind fun _ => ask (.logEnd r.id)) log := by
    refine keeps_perform_bind.2 ⟨trivial, fun a _ => ?_⟩
    cases a with
    | error f => exact herror f _
    | ok _ =>
        refine (keeps_perform (c := Call.logEnd r.id)).2 ⟨h.cons (c := .aclose) (fun id he => nomatch he) _, fun a ha => ?_⟩
        cases ha
        exact hok
  refine keeps_ensuring.2 (keeps_rescue.2 ((keeps_feeding h rfl rfl).mono fun o log ho => ?_))
  obtain ⟨hstored, hopen, hread⟩ := ho
  cases o with
  | ok scan =>
      obtain ⟨h, hscan⟩ := hread scan rfl
      refine hclose hopen (fun f log _ he => nomatch he) fun scan' he => ?_
      cases he
      exact ⟨⟨h.stored, by simp [h.began], h.streams.cons.cons, h.logged, h.yielded⟩, hscan⟩
  | error f =>
      refine (keeps_failing f hopen).mono fun o log hfail => ?_
      obtain ⟨hno, hopen⟩ := hfail
      cases o with
      | ok scan => exact absurd rfl (hno scan)
      | error f =>
          refine hclose hopen (fun f log _ he => nomatch he) fun scan he => ?_
          cases he

theorem keeps_generate (runId : String) : Keeps guard answers (fun o log => ∀ x, o = .ok x → Complete loads runId log)
    (generate settings loads runId) [] := by
  refine keeps_perform_bind.2 ⟨trivial, fun a _ => ?_⟩
  cases a with
  | error f => exact fun _ he => nomatch he
  | ok r =>
      refine keeps_perform_bind.2 ⟨trivial, fun a _ => ?_⟩
      cases a with
      | error f => exact fun _ he => nomatch he
      | ok chunks =>
          have hstart : guard (⟨.stream (promptFor (r.plan.getD [])), .ok chunks⟩ :: [⟨.generating runId, .ok r⟩])
              (.logStart r.id) := by
            refine ⟨fun id a ha => ?_, fun id a ha => ?_, rfl, rfl⟩
            · simp at ha
            · simp at ha
          refine keeps_perform_bind.2 ⟨hstart, fun a ha => ?_⟩
          cases ha
          have hreading : Reading runId r chunks [] (⟨.logStart r.id, .ok ()⟩ ::
              ⟨.stream (promptFor (r.plan.getD [])), .ok chunks⟩ :: [⟨.generating runId, .ok r⟩]) := by
            refine ⟨rfl, by simp, ⟨List.mem_cons_self, by simp⟩, ⟨promptFor (r.plan.getD []), by simp⟩, rfl, rfl⟩
          refine keeps_bind.2 ((keeps_started hreading).mono fun o log ho => ?_)
          cases o with
          | error f => exact fun _ he => nomatch he
          | ok scan =>
              obtain ⟨h, hscan⟩ := ho scan rfl
              exact keeps_over h hscan

/-- A generation that ends well has passed on and read all that the agent said. -/
def Whole (loads : Bytes → Except String Json) (q : Request) (o : Except Failure (Option Run)) (log : TurnLog) : Prop :=
  ∀ runId, q = .generate runId → ∀ x, o = .ok x → Complete loads runId log

theorem keeps_body (q : Request) : Keeps guard (fun _ => answers []) (Whole loads q) (body settings loads q) [] := by
  have hother {α : Type} {p : Orchestrated α} (hp : Silent p) (f : α → Option Run) (hq : ∀ runId, q ≠ .generate runId) :
      Keeps guard answers (Whole loads q) (f <$> p) [] :=
    (hp.map f [] trivial).mono fun _ _ _ runId he => absurd he (hq runId)
  cases q with
  | start idea account => exact hother (silent_start idea account) _ (by simp)
  | answer runId answers => exact hother (silent_answer runId answers) _ (by simp)
  | reject runId feedback => exact hother (silent_reject runId feedback) _ (by simp)
  | approve runId => exact hother (silent_ask (c := .approve runId) fun _ => trivial) _ (by simp)
  | generate runId =>
      refine keeps_bind.2 ((keeps_generate runId).mono fun o log h => ?_)
      cases o with
      | error f => exact fun _ _ _ he => nomatch he
      | ok x =>
          intro id hq y _
          cases hq
          exact h x rfl

end Programs

section Logs

variable {log : TurnLog}

theorem started_once (h : Traced guard log) {id id' : String} {a a' : Except Failure Unit} (hid : ⟨.logStart id, a⟩ ∈ log)
    (hid' : ⟨.logStart id', a'⟩ ∈ log) : id = id' := by
  induction log with
  | nil => cases hid
  | cons x log ih =>
      rcases List.mem_cons.1 hid with rfl | hold
      · rcases List.mem_cons.1 hid' with he | hold'
        · cases he
          rfl
        · exact absurd hold' (h.1.1 id' a')
      · rcases List.mem_cons.1 hid' with rfl | hold'
        · exact absurd hold (h.1.1 id a)
        · exact ih h.2 hold hold'

theorem yielded_cases (h : Traced guard log) :
    logged log = yielded log ∨ ∃ chunk, logged log = yielded log ++ [chunk] := by
  induction log with
  | nil => exact .inl rfl
  | cons x log ih =>
      obtain ⟨c, a⟩ := x
      have ih := ih h.2
      cases c with
      | logAppend id chunk =>
          cases a with
          | error f => exact ih
          | ok _ => exact .inr ⟨chunk, congrArg (· ++ [chunk]) h.1.2.1.symm⟩
      | yield chunk =>
          cases a with
          | error f => exact ih
          | ok _ => exact .inl h.1.symm
      | _ => exact ih

theorem logged_cases (h : Traced guard log) : logged log = [] ∨ ∃ chunks, Streams log chunks ∧ logged log <+: chunks := by
  induction log with
  | nil => exact .inl rfl
  | cons x log ih =>
      obtain ⟨c, a⟩ := x
      have ih := (ih h.2).imp_right fun ⟨chunks, hs, hl⟩ =>
        (⟨chunks, hs.cons, hl⟩ : ∃ chunks, Streams (⟨c, a⟩ :: log) chunks ∧ logged log <+: chunks)
      cases c with
      | logAppend id chunk =>
          cases a with
          | error f => exact ih
          | ok _ =>
              obtain ⟨-, -, chunks, hs, hl⟩ := h.1
              exact .inr ⟨chunks, hs.cons, hl⟩
      | _ => exact ih

end Logs

section Runs

variable {settings : Settings} {loads : Bytes → Except String Json} {w : World} {c : Desk} {v : InTurn}

theorem follows {q : Request} (_ : anyRequest q) :
    Keeps guard (fun _ => answers []) (Whole loads q) (body settings loads q) [] := keeps_body q

theorem traced_of_reaches (h : Reaches (body settings loads) World.step anyRequest anyStep w c) (hv : v ∈ c.views) :
    Traced guard v.log :=
  of_traced h follows (fun _ hs => answers_step hs) hv

/-- Whoever generates a run beside whatever else goes on, what the agent says is
logged as it comes and then passed on, one chunk at a time. A generation that
ends well has passed on all of it, and has stored what is to be read in it. -/
theorem generations_whole (settings : Settings) (loads : Bytes → Except String Json) {w : World} {c : Desk}
    (h : Reaches (body settings loads) World.step anyRequest anyStep w c) {v : InTurn} (hv : v ∈ c.views) :
    (logged v.log = yielded v.log ∨ ∃ chunk, logged v.log = yielded v.log ++ [chunk]) ∧
      (logged v.log = [] ∨ ∃ chunks, Streams v.log chunks ∧ logged v.log <+: chunks) ∧
      ∀ runId, v.request = .generate runId → ∀ x, v.result = some (.ok x) → Complete loads runId v.log := by
  have htraced := traced_of_reaches h hv
  refine ⟨yielded_cases htraced, logged_cases htraced, fun runId hq x hx => ?_⟩
  exact of_keeps (Whole loads) follows (fun _ hs => answers_step hs) h hv hx runId hq x rfl

/-- What `json.loads` makes of the end of a stream, which names a project. -/
def loadsDone (bs : Bytes) : Except String Json :=
  if bs = ascii "done" then .ok (.dict [("type", .str "done"), ("project", .dict [("id", .str "3fa1c2d0")])])
  else loadsPlan bs

def spoken : List Bytes := [ascii "data: do", ascii "ne\n"]

/-- The plan is generated. -/
def generated : List (Event Request Reply) :=
  Generations.begun ++ ([.step 2 (.streaming spoken), .step 2 .done, .step 2 .done, .step 2 .done, .step 2 .done,
    .step 2 .done, .step 2 .done, .step 2 .done, .step 2 .done, .step 2 .done, .step 2 .done, .step 2 (.swept []),
    .finish 2] : List (Event Request Reply))

theorem generations_whole_generated : ∃ c, Reaches (body {} loadsDone) World.step anyRequest anyStep {} c ∧
    ∃ v ∈ c.views, logged v.log = spoken ∧ (lastStored v.log).map Run.artifactId = some "3fa1c2d0" ∧
      Complete loadsDone "r" v.log := by
  have hrun : (run (body {} loadsDone) World.step anyRequest anyStep ⟨{}, []⟩ generated).any (fun c => c.views.any fun v =>
      decide (v.request = .generate "r" ∧ logged v.log = spoken ∧ (lastStored v.log).map Run.artifactId = some "3fa1c2d0") &&
        v.result.any Except.isOk) = true := by decide +kernel
  obtain ⟨c, hc, hp⟩ := reaches_of_run hrun
  obtain ⟨v, hv, hp⟩ := List.any_eq_true.1 hp
  obtain ⟨hp, hok⟩ := Bool.and_eq_true_iff.1 hp
  obtain ⟨hq, hlogged, hartifact⟩ := of_decide_eq_true hp
  refine ⟨c, hc, v, hv, hlogged, hartifact, ?_⟩
  obtain ⟨o, ho, hok⟩ := (Option.any_eq_true _ _).1 hok
  cases o with
  | ok x => exact (generations_whole {} loadsDone hc hv).2.2 "r" hq x ho
  | error f => cases hok

end Runs

end CodeZard.Streamings
