import CodeZard.Interleaving
import CodeZard.RunLogs
import CodeZard.Runs
import CodeZard.StreamScans

namespace CodeZard.Orchestration

open Amounts Programs RunLogs Runs StreamScans Values

def HEADER : String := "Generá un proyecto completo, con su estructura de archivos, README y tests."

def listOf : Json → List Json
  | .list items => items
  | _ => []

def items (value : Json) : List Fields := (listOf value).filterMap fun
  | .dict fields => some fields
  | _ => none

/-- `str(fields.get(key) or "")`. -/
def textOf (fields : Fields) (key : String) : String := ((Json.get fields key).or (.str "")).text

def entity (e : Fields) : String :=
  let fields := ", ".intercalate ((listOf (Json.get e "fields")).map Json.text)
  let detail := if fields = "" then stripped (textOf e "description") else fields
  if detail = "" then textOf e "name" else textOf e "name" ++ " (" ++ detail ++ ")"

def flow (f : Fields) : String :=
  (Json.get f "name").text ++ ": " ++ " → ".intercalate ((listOf (Json.get f "steps")).map Json.text)

def titled (title : String) (parts : List String) : List String :=
  if parts = [] then [] else [title ++ "; ".intercalate parts]

def promptFor (plan : Fields) : String :=
  let sections :=
    titled "Entidades: " ((items (Json.get plan "entities")).map entity) ++
    titled "Roles: " ((items (Json.get plan "roles")).map fun r => textOf r "name") ++
    titled "Flujos: " ((items (Json.get plan "flows")).map flow) ++
    titled "Restricciones: " ((items (Json.get plan "constraints")).map fun c => textOf c "statement") ++
    titled ("Decisiones que el plan deja abiertas (resolvelas y dejá dicho qué " ++ "asumiste): ")
      ((listOf (Json.get plan "openQuestions")).map Json.text)
  "\n".intercalate ([HEADER, "", textOf plan "purpose"] ++ if sections = [] then [] else "" :: sections)

def worded (question : Fields) : Bool := stripped (textOf question "text") ≠ ""

/-- The questions in an answer, at its top or under `questionnaire`. -/
def questions : Json → List Fields
  | .dict answer =>
      let source := match Json.get answer "questionnaire" with
        | .dict nested => nested
        | _ => answer
      (items (Json.get source "questions")).filter worded
  | _ => []

def isPlan (answer : Fields) : Bool :=
  stripped (textOf answer "purpose") ≠ "" &&
    ["entities", "roles", "flows", "constraints"].any fun field => !(items (Json.get answer field)).isEmpty

structure Settings where
  pmService : String := "pm"
  locale : String := "es"
  /-- Whether there is a meter. -/
  metered : Bool := true

structure Response where
  status : Nat
  body : Bytes
  deriving DecidableEq, Repr

/-- What the orchestrator asks of the meter, the agents, the store, the log and
whoever consumes its stream. `get`, a move and `put` that nothing can come
between are one call. -/
inductive Call
  | authorize (account : String)
  | tokenHex
  | forward (operation : String) (payload : Fields)
  | get (runId : String)
  | put (run : Run)
  | approve (runId : String)
  | generating (runId : String)
  | stream (question : String)
  | anext
  | yield (chunk : Bytes)
  | aclose
  | logStart (runId : String)
  | logAppend (runId : String) (chunk : Bytes)
  | logEnd (runId : String)
  | charge (account runId : String) (usage : Usage)

/-- A stream is known by the chunks it will carry if nothing goes wrong. -/
abbrev Call.Answer : Call → Type
  | .tokenHex => String
  | .forward .. => Response
  | .get _ | .put _ | .approve _ | .generating _ => Run
  | .stream _ => List Bytes
  | .charge .. => Option Int
  | _ => Unit

/-- What the outside contributes to one call: for a store call the runs that
have expired, once for each time the store is swept. -/
inductive Reply
  | raised (f : Failure)
  | done
  | text (s : String)
  | response (r : Response)
  | swept (expired : List String)
  | sweptTwice (expired late : List String)
  | streaming (chunks : List Bytes)
  | charged (tokens : Option Int)
  deriving DecidableEq, Repr

/-- `trail` is every version that was ever stored, the newest first. -/
structure World where
  store : RunStore := {}
  log : RunLog := {}
  trail : List Run := []

namespace World

def put (w : World) (run : Run) (expired : List String) : World :=
  { w with store := (w.store.sweep expired).put run, trail := run :: w.trail }

def exchange (w : World) (runId : String) (move : Run → Except Failure Run) (expired late : List String) :
    Except Failure Run × World :=
  let w := { w with store := w.store.sweep expired }
  match (w.store.get runId).bind move with
  | .ok run => (.ok run, w.put run late)
  | .error f => (.error f, w)

def step : Step Call Call.Answer Failure World Reply
  | w, .tokenHex, .text s => some (.ok s, w)
  | w, .get runId, .swept expired =>
      some ((w.store.sweep expired).get runId, { w with store := w.store.sweep expired })
  | w, .put run, .swept expired => some (.ok run, w.put run expired)
  | w, .approve runId, .sweptTwice expired late => some (w.exchange runId Run.approved expired late)
  | w, .generating runId, .sweptTwice expired late => some (w.exchange runId Run.generating expired late)
  | w, .logStart runId, .done => some (.ok (), { w with log := w.log.start runId })
  | w, .logAppend runId chunk, .done => some (.ok (), { w with log := w.log.append runId chunk })
  | w, .logEnd runId, .done => some (.ok (), { w with log := w.log.end_ runId })
  | w, .authorize _, .done => some (.ok (), w)
  | w, .authorize _, .raised f => some (.error f, w)
  | w, .forward .., .response r => some (.ok r, w)
  | w, .forward .., .raised f => some (.error f, w)
  | w, .stream _, .streaming chunks => some (.ok chunks, w)
  | w, .stream _, .raised f => some (.error f, w)
  | w, .anext, .done => some (.ok (), w)
  | w, .anext, .raised f => some (.error f, w)
  | w, .yield _, .done => some (.ok (), w)
  | w, .yield _, .raised f => some (.error f, w)
  | w, .aclose, .done => some (.ok (), w)
  | w, .aclose, .raised f => some (.error f, w)
  | w, .charge .., .charged tokens => some (.ok tokens, w)
  | w, .charge .., .raised f => some (.error f, w)
  | _, _, _ => none

section Steps

variable {w w' : World} {r : Reply} {runId : String} {a : Except Failure Run}

theorem step_get (h : w.step (.get runId) r = some (a, w')) :
    ∃ expired, a = (w.store.sweep expired).get runId ∧ w' = { w with store := w.store.sweep expired } := by
  cases r with
  | swept expired => cases h; exact ⟨expired, rfl, rfl⟩
  | _ => cases h

theorem step_put {run : Run} (h : w.step (.put run) r = some (a, w')) :
    ∃ expired, a = .ok run ∧ w' = w.put run expired := by
  cases r with
  | swept expired => cases h; exact ⟨expired, rfl, rfl⟩
  | _ => cases h

theorem exchange_cases (w : World) (runId : String) (move : Run → Except Failure Run) (expired late : List String) :
    (∃ f, w.exchange runId move expired late = (.error f, { w with store := w.store.sweep expired })) ∨
      ∃ old run, (w.store.sweep expired).find runId = some old ∧ move old = .ok run ∧
        w.exchange runId move expired late =
          (.ok run, ({ w with store := w.store.sweep expired } : World).put run late) := by
  unfold exchange
  cases hg : (w.store.sweep expired).get runId with
  | error f => exact .inl ⟨f, by simp [Except.bind, hg]⟩
  | ok old =>
      cases hm : move old with
      | error f => exact .inl ⟨f, by simp [Except.bind, hg, hm]⟩
      | ok run => exact .inr ⟨old, run, RunStore.get_ok hg, hm, by simp [Except.bind, hg, hm]⟩

theorem step_approve (h : w.step (.approve runId) r = some (a, w')) :
    ∃ expired late, w.exchange runId Run.approved expired late = (a, w') := by
  cases r with
  | sweptTwice expired late => exact ⟨expired, late, Option.some.inj h⟩
  | _ => cases h

theorem step_generating (h : w.step (.generating runId) r = some (a, w')) :
    ∃ expired late, w.exchange runId Run.generating expired late = (a, w') := by
  cases r with
  | sweptTwice expired late => exact ⟨expired, late, Option.some.inj h⟩
  | _ => cases h

end Steps

end World

def Call.stores : Call → Bool
  | .get _ | .put _ | .approve _ | .generating _ => true
  | _ => false

/-- The ways in which a call stores a version of a run. -/
inductive Stores (w : World) : ((c : Call) × Except Failure c.Answer) → Run → Prop
  | put (run : Run) : Stores w ⟨.put run, .ok run⟩ run
  | approve {old run : Run} (hm : old ∈ w.store.runs) (ha : old.approved = .ok run) :
      Stores w ⟨.approve old.id, .ok run⟩ run
  | generating {old run : Run} (hm : old ∈ w.store.runs) (ha : old.generating = .ok run) :
      Stores w ⟨.generating old.id, .ok run⟩ run

def Quiet : ((c : Call) × Except Failure c.Answer) → Prop
  | ⟨.put _, _⟩ | ⟨.approve _, .ok _⟩ | ⟨.generating _, .ok _⟩ => False
  | _ => True

theorem World.step_other {w w' : World} {c : Call} {r : Reply} {a : Except Failure c.Answer}
    (h : w.step c r = some (a, w')) (hc : c.stores = false) : w'.store = w.store ∧ w'.trail = w.trail := by
  cases c with
  | get | put | approve | generating => cases hc
  | _ => cases r <;> cases h <;> exact ⟨rfl, rfl⟩

theorem World.mem_put {w : World} {run x : Run} {expired : List String} (h : x ∈ (w.put run expired).store.runs) :
    x = run ∨ (x ∈ w.store.runs ∧ x.id ≠ run.id) :=
  (RunStore.mem_put h).imp_right fun h => ⟨RunStore.mem_sweep h.1, h.2⟩

theorem World.step_cases {w w' : World} {c : Call} {r : Reply} {a : Except Failure c.Answer}
    (h : w.step c r = some (a, w')) :
    (w'.trail = w.trail ∧ (∀ x ∈ w'.store.runs, x ∈ w.store.runs) ∧ Quiet ⟨c, a⟩) ∨
      ∃ run, Stores w ⟨c, a⟩ run ∧ w'.trail = run :: w.trail ∧
        ∀ x ∈ w'.store.runs, x = run ∨ (x ∈ w.store.runs ∧ x.id ≠ run.id) := by
  cases c with
  | get runId =>
      obtain ⟨expired, _, rfl⟩ := step_get h
      exact .inl ⟨rfl, fun x hx => RunStore.mem_sweep hx, trivial⟩
  | put run =>
      obtain ⟨expired, rfl, rfl⟩ := step_put h
      exact .inr ⟨run, .put run, rfl, fun x hx => mem_put hx⟩
  | approve runId =>
      obtain ⟨expired, late, he⟩ := step_approve h
      rcases w.exchange_cases runId Run.approved expired late with ⟨f, hx⟩ | ⟨old, run, hold, hm, hx⟩ <;>
        rw [he] at hx <;> cases hx
      · exact .inl ⟨rfl, fun x hx => RunStore.mem_sweep hx, trivial⟩
      · obtain ⟨hmem, rfl⟩ := RunStore.find_mem hold
        exact .inr ⟨run, .approve (RunStore.mem_sweep hmem) hm, rfl, fun x hx =>
          (mem_put hx).imp_right fun h => ⟨RunStore.mem_sweep h.1, h.2⟩⟩
  | generating runId =>
      obtain ⟨expired, late, he⟩ := step_generating h
      rcases w.exchange_cases runId Run.generating expired late with ⟨f, hx⟩ | ⟨old, run, hold, hm, hx⟩ <;>
        rw [he] at hx <;> cases hx
      · exact .inl ⟨rfl, fun x hx => RunStore.mem_sweep hx, trivial⟩
      · obtain ⟨hmem, rfl⟩ := RunStore.find_mem hold
        exact .inr ⟨run, .generating (RunStore.mem_sweep hmem) hm, rfl, fun x hx =>
          (mem_put hx).imp_right fun h => ⟨RunStore.mem_sweep h.1, h.2⟩⟩
  | _ =>
      obtain ⟨hs, ht⟩ := step_other h rfl
      exact .inl ⟨ht, fun x hx => hs ▸ hx, trivial⟩

theorem World.trail_step {w w' : World} {c : Call} {r : Reply} {a : Except Failure c.Answer}
    (h : w.step c r = some (a, w')) : ∀ run ∈ w.trail, run ∈ w'.trail := by
  intro run hr
  rcases World.step_cases h with ⟨ht, _⟩ | ⟨x, _, ht, _⟩ <;> rw [ht]
  · exact hr
  · exact List.mem_cons_of_mem _ hr

theorem World.step_read {w w' : World} {runId : String} {r : Reply} {run : Run}
    (h : w.step (.get runId) r = some (.ok run, w')) : run ∈ w.store.runs ∧ run.id = runId := by
  obtain ⟨expired, ha, rfl⟩ := step_get h
  obtain ⟨hm, hid⟩ := RunStore.find_mem (RunStore.get_ok ha.symm)
  exact ⟨RunStore.mem_sweep hm, hid⟩

abbrev Orchestrated := Prog Call Call.Answer Failure

def ask (c : Call) : Orchestrated c.Answer := perform c

def orchestrationError (message : String) : Failure := .exception "OrchestrationError" message

def typeName : Json → String
  | .null => "NoneType"
  | .bool _ => "bool"
  | .int _ => "int"
  | .float _ => "float"
  | .str _ => "str"
  | .list _ => "list"
  | .dict _ => "dict"

def errorMessage (answer : Fields) : Except Failure Json :=
  match (Json.get answer "error").or (.dict []) with
  | .dict error => .ok (Json.get error "message")
  | other => .error (.exception "AttributeError" ("'" ++ typeName other ++ "' object has no attribute 'get'"))

variable (settings : Settings) (loads : Bytes → Except String Json)

def askPm (operation : String) (payload : Fields) : Orchestrated Fields := do
  let response ← ask (.forward operation (payload ++ [("locale", .str settings.locale)]))
  let answered := operation ++ " answered " ++ toString response.status
  match loads (if response.body = [] then [123, 125] else response.body) with
  | .error text => .raise (orchestrationError (operation ++ " did not answer JSON: " ++ text))
  | .ok (.dict answer) =>
      if 400 ≤ response.status then do
        let detail ← ofExcept (errorMessage answer)
        .raise (orchestrationError (detail.or (.str answered)).text)
      else return answer
  | .ok _ => .raise (orchestrationError answered)

/-- One planning turn: a plan, or another questionnaire if rounds remain. -/
def plan (run : Run) : Orchestrated Run := do
  let answer ← askPm settings loads "plan" [
    ("idea", .str run.idea),
    ("answers", .list (run.answers.map fun a => .dict [("questionId", .str a.questionId), ("value", .str a.value)])),
    ("round", .int run.rounds),
    ("maxRounds", .int MAX_ROUNDS)]
  match questions (.dict answer) with
  | q :: qs =>
      if run.roundsLeft ≤ 0 then
        .raise (orchestrationError
          ("the PM asked for round " ++ toString (run.rounds + 1) ++ " of " ++ toString MAX_ROUNDS))
      else ofExcept (run.asked run.summary ⟨textOf answer "reason", q :: qs⟩)
  | [] =>
      if !isPlan answer then .raise (orchestrationError "the PM returned neither a plan nor questions")
      else ofExcept (run.proposed answer)

def reasonOf : Json → String
  | .dict questionnaire => textOf questionnaire "reason"
  | _ => ""

def authorized (account : String) : Orchestrated Unit :=
  if settings.metered && account ≠ "" then ask (.authorize account) else return ()

def start (idea account : String) : Orchestrated Run := do
  authorized settings account
  let text ← ofExcept (ideaText idea)
  let id ← ask .tokenHex
  let run ← ofExcept (Run.start id text account).describing
  let answer ← askPm settings loads "analyze" [("idea", .str run.idea)]
  let questionnaire := Json.get answer "questionnaire"
  match questions questionnaire with
  | q :: qs => do
      let run ← ofExcept (run.asked (textOf answer "summary") ⟨reasonOf questionnaire, q :: qs⟩)
      ask (.put run)
  | [] => do
      let run ← ofExcept (run.asked (textOf answer "summary") {})
      let run ← plan settings loads run
      ask (.put run)

def answer (runId : String) (answers : List Answer) : Orchestrated Run := do
  let run ← ask (.get runId)
  let run ← plan settings loads (run.answering answers)
  ask (.put run)

def reject (runId feedback : String) : Orchestrated Run :=
  let text := stripped feedback
  if text = "" then .raise (.exception "ValueError" "a rejection needs a reason")
  else do
    let run ← ask (.get runId)
    let run ← ofExcept run.rejected
    let run ← ofExcept run.revising
    let answer ← askPm settings loads "revise"
      [("plan", run.plan.elim .null .dict), ("feedback", .str text)]
    if !isPlan answer then .raise (orchestrationError "the PM did not return a revised plan")
    else do
      let run ← ofExcept (run.proposed answer)
      ask (.put run)

def approve (runId : String) : Orchestrated Run := ask (.approve runId)

/-- The loop of `generate`: every chunk is kept before it is yielded and read
after that. -/
def feeding (run : Run) : List Bytes → Scan → Orchestrated Scan
  | [], scan => do
      ask .anext
      return scan
  | chunk :: chunks, scan => do
      ask .anext
      ask (.logAppend run.id chunk)
      ask (.yield chunk)
      let scan ← ofExcept (scan.feed (fun line => (loads line).toOption) chunk)
      feeding run chunks scan

/-- What is written on the run before the error goes on, for the errors that
are caught. -/
def lost : Failure → Option String
  | .cancelled => some "the connection was lost during generation"
  | .exception name message => some (name ++ ": " ++ message)
  | .generatorExit => none

def failing (run : Run) (f : Failure) : Orchestrated Scan :=
  match lost f with
  | some error => do
      let run ← ofExcept (run.failed error)
      let _ ← ask (.put run)
      .raise f
  | none => .raise f

def charge (run : Run) (usage : Usage) : Orchestrated Run :=
  if !settings.metered || run.account = "" || usage.isEmpty then return run
  else do
    let tokens ← (ask (.charge run.account run.id usage)).rescue fun f =>
      if f.isException then .ret none else .raise f
    return tokens.elim run fun tokens => run.billed tokens.natAbs

def generate (runId : String) : Orchestrated Unit := do
  let run ← ask (.generating runId)
  let chunks ← ask (.stream (promptFor (run.plan.getD [])))
  ask (.logStart run.id)
  let scan ← ((feeding loads run chunks {}).rescue (failing run)).ensuring do
    ask .aclose
    ask (.logEnd run.id)
  if scan.artifact = "" then do
    let failed ← ofExcept (run.failed "the agent produced no artifact")
    let _ ← ask (.put failed)
    return ()
  else do
    let delivered ← ofExcept (run.delivered scan.artifact)
    let billed ← charge settings delivered scan.usage
    let _ ← ask (.put billed)
    return ()

inductive Request
  | start (idea account : String)
  | answer (runId : String) (answers : List Answer)
  | reject (runId feedback : String)
  | approve (runId : String)
  | generate (runId : String)
  deriving DecidableEq

def body : Request → Orchestrated (Option Run)
  | .start idea account => some <$> start settings loads idea account
  | .answer runId answers => some <$> answer settings loads runId answers
  | .reject runId feedback => some <$> reject settings loads runId feedback
  | .approve runId => some <$> approve runId
  | .generate runId => (fun _ => none) <$> generate settings loads runId

end CodeZard.Orchestration
