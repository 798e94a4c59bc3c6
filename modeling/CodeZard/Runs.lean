import CodeZard.Tables
import CodeZard.Values
import Mathlib.Data.List.Nodup

namespace CodeZard.Runs

open Tables Values

def MAX_ROUNDS : Nat := 2

def MAX_IDEA_CHARS : Nat := 4000

inductive RunState
  | idea
  | pmAnalysis
  | questionnaire
  | planReview
  | planRejected
  | pmRevision
  | planApproved
  | backendGeneration
  | zipReady
  | failed
  deriving DecidableEq, Repr

def RunState.value : RunState → String
  | .idea => "IDEA"
  | .pmAnalysis => "PM_ANALYSIS"
  | .questionnaire => "QUESTIONNAIRE"
  | .planReview => "PLAN_REVIEW"
  | .planRejected => "PLAN_REJECTED"
  | .pmRevision => "PM_REVISION"
  | .planApproved => "PLAN_APPROVED"
  | .backendGeneration => "BACKEND_GENERATION"
  | .zipReady => "ZIP_READY"
  | .failed => "FAILED"

inductive RunEvent
  | describe
  | ask
  | propose
  | reject
  | revise
  | approve
  | generate
  | deliver
  | fail
  | reset
  deriving DecidableEq, Repr

def RunEvent.value : RunEvent → String
  | .describe => "DESCRIBE"
  | .ask => "ASK"
  | .propose => "PROPOSE"
  | .reject => "REJECT"
  | .revise => "REVISE"
  | .approve => "APPROVE"
  | .generate => "GENERATE"
  | .deliver => "DELIVER"
  | .fail => "FAIL"
  | .reset => "RESET"

/-- The table `TRANSITIONS`. -/
def transitions : RunState → RunEvent → Option RunState
  | .idea, .describe => some .pmAnalysis
  | .pmAnalysis, .ask => some .questionnaire
  | .pmAnalysis, .propose => some .planReview
  | .questionnaire, .describe => some .pmAnalysis
  | .questionnaire, .ask => some .questionnaire
  | .questionnaire, .propose => some .planReview
  | .planReview, .reject => some .planRejected
  | .planReview, .approve => some .planApproved
  | .planRejected, .revise => some .pmRevision
  | .pmRevision, .propose => some .planReview
  | .planApproved, .generate => some .backendGeneration
  | .backendGeneration, .deliver => some .zipReady
  | .zipReady, .reset => some .idea
  | .failed, .reset => some .idea
  | _, _ => none

/-- The states in `FAILABLE`. -/
def RunState.failable : RunState → Bool
  | .zipReady | .failed => false
  | _ => true

def moves (state : RunState) : RunEvent → Option RunState
  | .fail => if state.failable then some .failed else none
  | event => transitions state event

def Edge (s : RunState) (event : RunEvent) (t : RunState) : Prop :=
  match event with
  | .describe => (s = .idea ∨ s = .questionnaire) ∧ t = .pmAnalysis
  | .ask => (s = .pmAnalysis ∨ s = .questionnaire) ∧ t = .questionnaire
  | .propose => (s = .pmAnalysis ∨ s = .questionnaire ∨ s = .pmRevision) ∧ t = .planReview
  | .reject => s = .planReview ∧ t = .planRejected
  | .revise => s = .planRejected ∧ t = .pmRevision
  | .approve => s = .planReview ∧ t = .planApproved
  | .generate => s = .planApproved ∧ t = .backendGeneration
  | .deliver => s = .backendGeneration ∧ t = .zipReady
  | .fail => s.failable = true ∧ t = .failed
  | .reset => (s = .zipReady ∨ s = .failed) ∧ t = .idea

theorem edge_of_moves {s t : RunState} {event : RunEvent} (h : moves s event = some t) : Edge s event t := by
  cases event with
  | fail =>
      simp only [moves] at h
      split at h
      · cases h
        exact ⟨‹_›, rfl⟩
      · cases h
  | _ =>
      cases s <;> simp only [moves, transitions, reduceCtorEq, Option.some.injEq] at h
      all_goals subst h; simp [Edge]

structure Answer where
  questionId : String
  value : String
  deriving DecidableEq, Repr

/-- What a questionnaire holds: why it is asked, and its questions. -/
structure Questionnaire where
  reason : String := ""
  questions : List Fields := []

structure Run where
  id : String
  idea : String
  state : RunState := .idea
  rounds : Nat := 0
  answers : List Answer := []
  plan : Option Fields := none
  summary : String := ""
  questionnaire : Option Questionnaire := none
  artifactId : String := ""
  error : String := ""
  account : String := ""
  charged : Int := 0

def ideaText (idea : String) : Except Failure String :=
  let text := stripped idea
  if text = "" then .error (.exception "ValueError" "a run needs an idea")
  else if MAX_IDEA_CHARS < text.length then
    .error (.exception "ValueError" ("the idea is longer than " ++ toString MAX_IDEA_CHARS ++ " characters"))
  else .ok text

namespace Run

def start (id text account : String) : Run := { id := id, idea := text, account := account }

def billed (r : Run) (tokens : Int) : Run := { r with charged := tokens }

def may (r : Run) (event : RunEvent) : Bool := (moves r.state event).isSome

def moved (r : Run) (event : RunEvent) (changes : Run → Run := fun r => r) : Except Failure Run :=
  match moves r.state event with
  | some state => .ok { changes r with state := state }
  | none => .error (.exception "IllegalTransitionError"
      (event.value ++ " is not allowed from " ++ r.state.value))

def describing (r : Run) : Except Failure Run := r.moved .describe

/-- A questionnaire was served. This is the only place where the rounds grow. -/
def asked (r : Run) (summary : String) (questionnaire : Questionnaire) : Except Failure Run :=
  r.moved .ask fun r => { r with
    summary := if summary = "" then r.summary else summary
    questionnaire := some questionnaire
    rounds := r.rounds + 1 }

def merged (answers : List Answer) : List Answer :=
  answers.foldl (fun merged a => upsert Answer.questionId (fun _ new => new) a merged) []

def answering (r : Run) (answers : List Answer) : Run := { r with answers := merged (r.answers ++ answers) }

def proposed (r : Run) (plan : Fields) : Except Failure Run :=
  r.moved .propose fun r => { r with plan := some plan, questionnaire := none }

def rejected (r : Run) : Except Failure Run := r.moved .reject

def revising (r : Run) : Except Failure Run := r.moved .revise

def approved (r : Run) : Except Failure Run := r.moved .approve

def generating (r : Run) : Except Failure Run := r.moved .generate

def delivered (r : Run) (artifactId : String) : Except Failure Run :=
  r.moved .deliver fun r => { r with artifactId := artifactId }

def failed (r : Run) (error : String) : Except Failure Run :=
  r.moved .fail fun r => { r with error := error }

def roundsLeft (r : Run) : Nat := MAX_ROUNDS - r.rounds

theorem moved_ok {r r' : Run} {event : RunEvent} {changes : Run → Run} (h : r.moved event changes = .ok r') :
    ∃ state, moves r.state event = some state ∧ r' = { changes r with state := state } := by
  unfold moved at h
  cases hm : moves r.state event with
  | none => simp [hm] at h
  | some state =>
      simp only [hm, Except.ok.injEq] at h
      exact ⟨state, rfl, h.symm⟩

section Moves

variable {r r' : Run}

theorem describing_ok (h : r.describing = .ok r') :
    (r.state = .idea ∨ r.state = .questionnaire) ∧ r' = { r with state := .pmAnalysis } := by
  obtain ⟨state, hm, rfl⟩ := moved_ok h
  obtain ⟨hs, rfl⟩ := edge_of_moves hm
  exact ⟨hs, rfl⟩

theorem asked_ok {summary : String} {q : Questionnaire} (h : r.asked summary q = .ok r') :
    (r.state = .pmAnalysis ∨ r.state = .questionnaire) ∧ r' = { r with
      state := .questionnaire
      summary := if summary = "" then r.summary else summary
      questionnaire := some q
      rounds := r.rounds + 1 } := by
  obtain ⟨state, hm, rfl⟩ := moved_ok h
  obtain ⟨hs, rfl⟩ := edge_of_moves hm
  exact ⟨hs, rfl⟩

theorem proposed_ok {plan : Fields} (h : r.proposed plan = .ok r') :
    (r.state = .pmAnalysis ∨ r.state = .questionnaire ∨ r.state = .pmRevision) ∧
      r' = { r with state := .planReview, plan := some plan, questionnaire := none } := by
  obtain ⟨state, hm, rfl⟩ := moved_ok h
  obtain ⟨hs, rfl⟩ := edge_of_moves hm
  exact ⟨hs, rfl⟩

theorem rejected_ok (h : r.rejected = .ok r') :
    r.state = .planReview ∧ r' = { r with state := .planRejected } := by
  obtain ⟨state, hm, rfl⟩ := moved_ok h
  obtain ⟨hs, rfl⟩ := edge_of_moves hm
  exact ⟨hs, rfl⟩

theorem revising_ok (h : r.revising = .ok r') :
    r.state = .planRejected ∧ r' = { r with state := .pmRevision } := by
  obtain ⟨state, hm, rfl⟩ := moved_ok h
  obtain ⟨hs, rfl⟩ := edge_of_moves hm
  exact ⟨hs, rfl⟩

theorem approved_ok (h : r.approved = .ok r') :
    r.state = .planReview ∧ r' = { r with state := .planApproved } := by
  obtain ⟨state, hm, rfl⟩ := moved_ok h
  obtain ⟨hs, rfl⟩ := edge_of_moves hm
  exact ⟨hs, rfl⟩

theorem generating_ok (h : r.generating = .ok r') :
    r.state = .planApproved ∧ r' = { r with state := .backendGeneration } := by
  obtain ⟨state, hm, rfl⟩ := moved_ok h
  obtain ⟨hs, rfl⟩ := edge_of_moves hm
  exact ⟨hs, rfl⟩

theorem delivered_ok {artifactId : String} (h : r.delivered artifactId = .ok r') :
    r.state = .backendGeneration ∧ r' = { r with state := .zipReady, artifactId := artifactId } := by
  obtain ⟨state, hm, rfl⟩ := moved_ok h
  obtain ⟨hs, rfl⟩ := edge_of_moves hm
  exact ⟨hs, rfl⟩

theorem failed_ok {error : String} (h : r.failed error = .ok r') :
    r.state.failable = true ∧ r' = { r with state := .failed, error := error } := by
  obtain ⟨state, hm, rfl⟩ := moved_ok h
  obtain ⟨hs, rfl⟩ := edge_of_moves hm
  exact ⟨hs, rfl⟩

end Moves

end Run

def MAX_RUNS : Nat := 500

/-- The runs kept in this process, in the order of the dictionary. -/
structure RunStore where
  maxRuns : Nat := MAX_RUNS
  runs : List Run := []

namespace RunStore

/-- `expired` are the ids that have not been written for too long. -/
def sweep (s : RunStore) (expired : List String) : RunStore :=
  { s with runs := s.runs.filter fun r => !expired.contains r.id }

def find (s : RunStore) (runId : String) : Option Run := row Run.id runId s.runs

def get (s : RunStore) (runId : String) : Except Failure Run :=
  match s.find runId with
  | some run => .ok run
  | none => .error (.exception "RunNotFoundError" "That run does not exist, or it expired")

def put (s : RunStore) (run : Run) : RunStore :=
  let runs := (s.runs.filter fun r => r.id ≠ run.id) ++ [run]
  { s with runs := runs.drop (runs.length - s.maxRuns) }

variable {s : RunStore} {run : Run} {runId : String}

theorem find_mem (h : s.find runId = some run) : run ∈ s.runs ∧ run.id = runId :=
  ⟨List.mem_of_find?_eq_some h, row_key h⟩

theorem get_ok (h : s.get runId = .ok run) : s.find runId = some run := by
  unfold get at h
  split at h
  · cases h
    assumption
  · cases h

theorem mem_sweep {expired : List String} (h : run ∈ (s.sweep expired).runs) : run ∈ s.runs :=
  List.mem_of_mem_filter h

theorem mem_put {r : Run} (h : r ∈ (s.put run).runs) : r = run ∨ (r ∈ s.runs ∧ r.id ≠ run.id) := by
  have h := List.mem_of_mem_drop h
  rcases List.mem_append.1 h with h | h
  · obtain ⟨hr, hid⟩ := List.mem_filter.1 h
    exact .inr ⟨hr, of_decide_eq_true hid⟩
  · exact .inl (List.mem_singleton.1 h)

end RunStore

end CodeZard.Runs
