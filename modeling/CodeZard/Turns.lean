import CodeZard.Orchestration

namespace CodeZard.Turns

open Programs Interleaving RunLogs Runs StreamScans Values Orchestration

abbrev TurnLog := Log Call Call.Answer Failure

abbrev InTurn := View Request Call Call.Answer Failure (Option Run)

abbrev Desk := Config World Request Call Call.Answer Failure (Option Run)

abbrev Rule := Condition World Request Call Call.Answer Failure (Option Run) Reply

def prompt (run : Run) : String := promptFor (run.plan.getD [])

def Asked (r run : Run) : Prop :=
  ∃ summary q, q.questions ≠ [] ∧ (∀ x ∈ q.questions, worded x = true) ∧ r.rounds < MAX_ROUNDS ∧
    r.asked summary q = .ok run

def Planned (r run : Run) : Prop := Asked r run ∨ ∃ p, isPlan p = true ∧ r.proposed p = .ok run

def Ended (r run : Run) : Prop :=
  (∃ error, error ≠ "" ∧ r.failed error = .ok run) ∨
    ∃ artifactId d, artifactId ≠ "" ∧ r.delivered artifactId = .ok d ∧ (run = d ∨ ∃ tokens, run = d.billed tokens)

def Writes (q : Request) (log : TurnLog) (run : Run) : Prop :=
  match q with
  | .start idea account => ∃ token text r, ⟨.tokenHex, .ok token⟩ ∈ log ∧ ideaText idea = .ok text ∧
      (Run.start token text account).describing = .ok r ∧
      (Asked r run ∨ ∃ summary r', r.asked summary {} = .ok r' ∧ Planned r' run)
  | .answer runId answers => ∃ r, ⟨.get runId, .ok r⟩ ∈ log ∧ Planned (r.answering answers) run
  | .reject runId _ => ∃ r r' r'' p, ⟨.get runId, .ok r⟩ ∈ log ∧ r.rejected = .ok r' ∧ r'.revising = .ok r'' ∧
      isPlan p = true ∧ r''.proposed p = .ok run
  | .approve _ => False
  | .generate runId => ∃ r, ⟨.generating runId, .ok r⟩ ∈ log ∧ (∀ x a, ⟨.put x, a⟩ ∉ log) ∧ Ended r run

def guard (q : Request) (log : TurnLog) : Call → Prop
  | .put run => Writes q log run
  | .get runId => (∃ answers, q = .answer runId answers) ∨ ∃ feedback, q = .reject runId feedback
  | .approve runId => q = .approve runId
  | .generating runId => q = .generate runId ∧ ∀ x a, ⟨.put x, a⟩ ∉ log
  | .stream question => ∃ runId r, q = .generate runId ∧ ⟨.generating runId, .ok r⟩ ∈ log ∧ question = prompt r ∧
      ∀ p a, ⟨.stream p, a⟩ ∉ log
  | _ => True

def admits (_ : TurnLog) (c : Call) (_ : Except Failure c.Answer) : Prop := True

theorem state_of_planned {r run : Run} (h : Planned r run) : run.state = .questionnaire ∨ run.state = .planReview := by
  rcases h with ⟨_, _, _, _, _, h⟩ | ⟨_, _, h⟩
  · obtain ⟨_, rfl⟩ := Run.asked_ok h
    exact .inl rfl
  · obtain ⟨_, rfl⟩ := Run.proposed_ok h
    exact .inr rfl

theorem state_of_ended {r run : Run} (h : Ended r run) : run.state = .failed ∨ run.state = .zipReady := by
  rcases h with ⟨_, _, h⟩ | ⟨_, _, _, h, rfl | ⟨_, rfl⟩⟩
  · obtain ⟨_, rfl⟩ := Run.failed_ok h
    exact .inl rfl
  · obtain ⟨_, rfl⟩ := Run.delivered_ok h
    exact .inr rfl
  · obtain ⟨_, rfl⟩ := Run.delivered_ok h
    exact .inr rfl

theorem state_of_writes {q : Request} {log : TurnLog} {run : Run} (h : Writes q log run) :
    (run.state = .questionnaire ∨ run.state = .planReview) ∨ run.state = .failed ∨ run.state = .zipReady := by
  cases q with
  | start idea account =>
      obtain ⟨_, _, _, _, _, _, h | ⟨_, _, _, h⟩⟩ := h
      · exact .inl (state_of_planned (.inl h))
      · exact .inl (state_of_planned h)
  | answer runId answers =>
      obtain ⟨_, _, h⟩ := h
      exact .inl (state_of_planned h)
  | reject runId feedback =>
      obtain ⟨_, _, _, p, _, _, _, hp, h⟩ := h
      exact .inl (state_of_planned (.inr ⟨p, hp, h⟩))
  | approve runId => exact absurd h id
  | generate runId =>
      obtain ⟨_, _, _, h⟩ := h
      exact .inr (state_of_ended h)

section Programs

variable {settings : Settings} {loads : Bytes → Except String Json} {q : Request} {log : TurnLog} {α : Type}

theorem restores_ask {I : TurnLog → Prop} {c : Call} (hg : ∀ log, guard q log c)
    (hI : ∀ log a, I log → I (⟨c, a⟩ :: log)) : Restores (guard q) admits I (ask c) :=
  restores_perform (fun log _ => hg log) fun log a h _ => hI log a h

theorem restores_askPm {I : TurnLog → Prop} (operation : String) (payload : Fields)
    (hI : ∀ log payload a, I log → I (⟨.forward operation payload, a⟩ :: log)) :
    Restores (guard q) admits I (askPm settings loads operation payload) := by
  refine Restores.bind (restores_ask (fun _ => trivial) fun log a h => hI log _ a h) fun response => ?_
  simp only
  split
  · exact restores_raise _
  · split
    · exact (restores_ofExcept _).bind fun _ => restores_raise _
    · exact restores_ret _
  · exact restores_raise _

theorem worded_of_mem (answer : Json) {x : Fields} (h : x ∈ questions answer) : worded x = true := by
  unfold questions at h
  split at h
  · exact (List.mem_filter.1 h).2
  · cases h

def turned (run : Run) (answer : Fields) : Except Failure Run :=
  match questions (.dict answer) with
  | q :: qs =>
      if run.roundsLeft ≤ 0 then
        .error (orchestrationError
          ("the PM asked for round " ++ toString (run.rounds + 1) ++ " of " ++ toString MAX_ROUNDS))
      else run.asked run.summary ⟨textOf answer "reason", q :: qs⟩
  | [] =>
      if !isPlan answer then .error (orchestrationError "the PM returned neither a plan nor questions")
      else run.proposed answer

theorem plan_eq (settings : Settings) (loads : Bytes → Except String Json) (run : Run) :
    ∃ payload, plan settings loads run =
      (askPm settings loads "plan" payload).bind fun answer => ofExcept (turned run answer) := by
  refine ⟨_, congrArg (Prog.bind _) (funext fun answer => ?_)⟩
  unfold turned
  cases questions (.dict answer) with
  | nil => dsimp only; split <;> rfl
  | cons x xs => dsimp only; split <;> rfl

theorem turned_ok {r run : Run} {answer : Fields} (h : turned r answer = .ok run) : Planned r run := by
  unfold turned at h
  split at h
  · rename_i x xs hq
    split at h
    · cases h
    · rename_i hleft
      have hrounds : r.rounds < MAX_ROUNDS := by
        unfold Run.roundsLeft at hleft
        omega
      refine .inl ⟨_, _, List.cons_ne_nil x xs, fun y hy => worded_of_mem (.dict answer) ?_, hrounds, h⟩
      rw [hq]
      exact hy
  · split at h
    · cases h
    · rename_i hp
      exact .inr ⟨answer, by simpa using hp, h⟩

theorem keeps_plan {I : TurnLog → Prop} (hI : ∀ log payload a, I log → I (⟨.forward "plan" payload, a⟩ :: log))
    (r : Run) (h : I log) :
    Keeps (guard q) admits (fun o log => I log ∧ ∀ run, o = .ok run → Planned r run) (plan settings loads r) log := by
  obtain ⟨payload, hplan⟩ := plan_eq settings loads r
  rw [hplan]
  refine keeps_bind.2 ((restores_askPm "plan" _ hI log h).mono fun o log h => ?_)
  cases o with
  | error f => exact ⟨h, fun _ hr => nomatch hr⟩
  | ok answer => exact keeps_ofExcept.2 ⟨h, fun run hr => turned_ok hr⟩

theorem keeps_put {run : Run} (h : Writes q log run) :
    Keeps (guard q) admits (fun _ _ => True) (ask (.put run)) log :=
  keeps_perform.2 ⟨h, fun _ _ => trivial⟩

theorem keeps_start (idea account : String) :
    Keeps (guard (.start idea account)) admits (fun _ _ => True) (start settings loads idea account) [] := by
  have hauth : Restores (guard (.start idea account)) admits (fun _ => True) (authorized settings account) := by
    unfold authorized
    split
    · exact restores_ask (fun _ => trivial) fun _ _ _ => trivial
    · exact restores_ret _
  refine keeps_bind.2 ((hauth [] trivial).mono fun o log _ => ?_)
  cases o with
  | error f => trivial
  | ok _ =>
      refine keeps_bind.2 (keeps_ofExcept.2 ?_)
      cases ht : ideaText idea with
      | error f => trivial
      | ok text =>
          refine keeps_perform_bind.2 ⟨trivial, fun a _ => ?_⟩
          cases a with
          | error f => trivial
          | ok token =>
              have hforward (operation : String) (log : TurnLog) (payload : Fields) (a : Except Failure Response)
                  (h : (⟨.tokenHex, .ok token⟩ : (c : Call) × Except Failure c.Answer) ∈ log) :
                  ⟨.tokenHex, .ok token⟩ ∈ (⟨.forward operation payload, a⟩ :: log : TurnLog) :=
                List.mem_cons_of_mem _ h
              refine keeps_bind.2 (keeps_ofExcept.2 ?_)
              cases hd : (Run.start token text account).describing with
              | error f => trivial
              | ok r =>
                  refine keeps_bind.2 ((restores_askPm "analyze" _ (hforward "analyze") _
                    List.mem_cons_self).mono fun o log hlog => ?_)
                  cases o with
                  | error f => trivial
                  | ok answer =>
                      simp only
                      split
                      · rename_i x xs hq
                        refine keeps_bind.2 (keeps_ofExcept.2 ?_)
                        cases ha : r.asked (textOf answer "summary")
                            ⟨reasonOf (Json.get answer "questionnaire"), x :: xs⟩ with
                        | error f => trivial
                        | ok run =>
                            refine keeps_put ⟨token, text, r, hlog, ht, hd, .inl ⟨_, _, List.cons_ne_nil x xs,
                              fun y hy => worded_of_mem (Json.get answer "questionnaire") ?_, ?_, ha⟩⟩
                            · rw [hq]
                              exact hy
                            · obtain ⟨_, _, rfl⟩ := Run.moved_ok hd
                              exact Nat.zero_lt_two
                      · refine keeps_bind.2 (keeps_ofExcept.2 ?_)
                        cases ha : r.asked (textOf answer "summary") {} with
                        | error f => trivial
                        | ok r' =>
                            refine keeps_bind.2 ((keeps_plan (hforward "plan") r' hlog).mono fun o log h => ?_)
                            cases o with
                            | error f => trivial
                            | ok run =>
                                exact keeps_put ⟨token, text, r, h.1, ht, hd, .inr ⟨_, r', ha, h.2 run rfl⟩⟩

theorem keeps_answer (runId : String) (answers : List Answer) :
    Keeps (guard (.answer runId answers)) admits (fun _ _ => True) (answer settings loads runId answers) [] := by
  refine keeps_perform_bind.2 ⟨.inl ⟨answers, rfl⟩, fun a _ => ?_⟩
  cases a with
  | error f => trivial
  | ok r =>
      refine keeps_bind.2 ((keeps_plan (I := fun log => ⟨.get runId, .ok r⟩ ∈ log)
        (fun _ _ _ h => List.mem_cons_of_mem _ h) _ List.mem_cons_self).mono fun o log h => ?_)
      cases o with
      | error f => trivial
      | ok run => exact keeps_put ⟨r, h.1, h.2 run rfl⟩

theorem keeps_reject (runId feedback : String) :
    Keeps (guard (.reject runId feedback)) admits (fun _ _ => True) (reject settings loads runId feedback) [] := by
  unfold reject
  simp only
  split
  · trivial
  refine keeps_perform_bind.2 ⟨.inr ⟨feedback, rfl⟩, fun a _ => ?_⟩
  cases a with
  | error f => trivial
  | ok r =>
      refine keeps_bind.2 (keeps_ofExcept.2 ?_)
      cases hr : r.rejected with
      | error f => trivial
      | ok r' =>
          refine keeps_bind.2 (keeps_ofExcept.2 ?_)
          cases hv : r'.revising with
          | error f => trivial
          | ok r'' =>
              refine keeps_bind.2 ((restores_askPm (I := fun log => ⟨.get runId, .ok r⟩ ∈ log) "revise" _
                (fun _ _ _ h => List.mem_cons_of_mem _ h) _ List.mem_cons_self).mono fun o log h => ?_)
              cases o with
              | error f => trivial
              | ok answer =>
                  simp only
                  split
                  · trivial
                  · rename_i hp
                    refine keeps_bind.2 (keeps_ofExcept.2 ?_)
                    cases ha : r''.proposed answer with
                    | error f => trivial
                    | ok run => exact keeps_put ⟨r, r', r'', answer, h, hr, hv, by simpa using hp, ha⟩

theorem put_notMem_cons {c : Call} {a : Except Failure c.Answer} (h : ∀ x b, ⟨.put x, b⟩ ∉ log) (hc : ∀ x, c ≠ .put x) :
    ∀ x b, ⟨.put x, b⟩ ∉ (⟨c, a⟩ :: log : TurnLog) := by
  intro x b hm
  rcases List.mem_cons.1 hm with he | hm
  · cases he
    exact hc x rfl
  · exact h x b hm

def Generating (runId : String) (r : Run) (log : TurnLog) : Prop :=
  ⟨.generating runId, .ok r⟩ ∈ log ∧ ∀ x a, ⟨.put x, a⟩ ∉ log

theorem Generating.cons {runId : String} {r : Run} {c : Call} {a : Except Failure c.Answer}
    (h : Generating runId r log) (hc : ∀ x, c ≠ .put x) : Generating runId r (⟨c, a⟩ :: log) :=
  ⟨List.mem_cons_of_mem _ h.1, put_notMem_cons h.2 hc⟩

theorem restores_feeding {I : TurnLog → Prop} (r : Run) (chunks : List Bytes) (scan : Scan)
    (hI : ∀ log c a, (∀ x, c ≠ .put x) → I log → I (⟨c, a⟩ :: log)) :
    Restores (guard q) admits I (feeding loads r chunks scan) := by
  induction chunks generalizing scan with
  | nil =>
      refine Restores.bind (restores_ask (fun _ => trivial) fun log a => hI log _ a (by simp)) fun _ => restores_ret _
  | cons chunk chunks ih =>
      refine Restores.bind (restores_ask (fun _ => trivial) fun log a => hI log _ a (by simp)) fun _ => ?_
      refine Restores.bind (restores_ask (fun _ => trivial) fun log a => hI log _ a (by simp)) fun _ => ?_
      refine Restores.bind (restores_ask (fun _ => trivial) fun log a => hI log _ a (by simp)) fun _ => ?_
      exact (restores_ofExcept _).bind fun scan => ih scan

theorem lost_ne {f : Failure} {error : String} (h : lost f = some error) : error ≠ "" := by
  cases f with
  | cancelled => cases h; decide
  | exception name message =>
      cases h
      intro he
      have := congrArg String.length he
      simp only [String.length_append] at this
      have hsep : (": " : String).length = 2 := rfl
      have hnil : ("" : String).length = 0 := rfl
      omega
  | generatorExit => cases h

theorem keeps_failing {runId : String} {r : Run} (f : Failure) (h : Generating runId r log) :
    Keeps (guard (.generate runId)) admits (fun o _ => ∀ scan, o ≠ .ok scan) (failing r f) log := by
  unfold failing
  cases hl : lost f with
  | none => exact fun _ h => nomatch h
  | some error =>
      refine keeps_bind.2 (keeps_ofExcept.2 ?_)
      cases hf : r.failed error with
      | error f => exact fun _ h => nomatch h
      | ok run =>
          refine keeps_perform_bind.2 ⟨⟨r, h.1, h.2, .inl ⟨error, lost_ne hl, hf⟩⟩, fun a _ => ?_⟩
          cases a <;> exact fun _ h => nomatch h

theorem keeps_charge {runId : String} {r : Run} (d : Run) (usage : Amounts.Usage) (h : Generating runId r log) :
    Keeps (guard q) admits (fun o log => Generating runId r log ∧
      ∀ run, o = .ok run → run = d ∨ ∃ tokens, run = d.billed tokens) (charge settings d usage) log := by
  unfold charge
  split
  · exact ⟨h, fun run hr => .inl (Except.ok.inj hr).symm⟩
  refine keeps_bind.2 (keeps_rescue.2 (keeps_perform.2 ⟨trivial, fun a _ => ?_⟩))
  have h' {a : Except Failure (Option Int)} : Generating runId r (⟨.charge d.account d.id usage, a⟩ :: log) :=
    h.cons (by simp)
  cases a with
  | ok tokens =>
      refine ⟨h', fun run hr => ?_⟩
      cases tokens with
      | none => exact .inl (Except.ok.inj hr).symm
      | some t => exact .inr ⟨_, (Except.ok.inj hr).symm⟩
  | error f =>
      simp only
      split
      · exact ⟨h', fun run hr => .inl (Except.ok.inj hr).symm⟩
      · exact ⟨h', fun _ hr => nomatch hr⟩

theorem keeps_tail {runId : String} {r : Run} (scan : Scan) (h : Generating runId r log) :
    Keeps (guard (.generate runId)) admits (fun _ _ => True)
      (if scan.artifact = "" then
        (ofExcept (r.failed "the agent produced no artifact")).bind fun failed =>
          (ask (.put failed)).bind fun _ => .ret ()
      else (ofExcept (r.delivered scan.artifact)).bind fun delivered =>
        (charge settings delivered scan.usage).bind fun billed =>
          (ask (.put billed)).bind fun _ => .ret ()) log := by
  have hput {run : Run} {log : TurnLog} (hw : Writes (.generate runId) log run) :
      Keeps (guard (.generate runId)) admits (fun _ _ => True) ((ask (.put run)).bind fun _ => .ret ()) log := by
    refine keeps_perform_bind.2 ⟨hw, fun a _ => ?_⟩
    cases a <;> trivial
  split
  · refine keeps_bind.2 (keeps_ofExcept.2 ?_)
    cases hf : r.failed "the agent produced no artifact" with
    | error f => trivial
    | ok run => exact hput ⟨r, h.1, h.2, .inl ⟨_, by decide, hf⟩⟩
  · rename_i ha
    refine keeps_bind.2 (keeps_ofExcept.2 ?_)
    cases hd : r.delivered scan.artifact with
    | error f => trivial
    | ok d =>
        refine keeps_bind.2 ((keeps_charge d scan.usage h).mono fun o log ho => ?_)
        cases o with
        | error f => trivial
        | ok run => exact hput ⟨r, ho.1.1, ho.1.2, .inr ⟨_, d, ha, hd, ho.2 run rfl⟩⟩

theorem keeps_generate (runId : String) :
    Keeps (guard (.generate runId)) admits (fun _ _ => True) (generate settings loads runId) [] := by
  refine keeps_perform_bind.2 ⟨⟨rfl, fun _ _ h => nomatch h⟩, fun a _ => ?_⟩
  cases a with
  | error f => trivial
  | ok r =>
      have h₀ : Generating runId r [⟨.generating runId, .ok r⟩] :=
        ⟨List.mem_cons_self, fun x a hm => by simp at hm⟩
      refine keeps_perform_bind.2 ⟨⟨runId, r, rfl, List.mem_cons_self, rfl, fun p a hm => by simp at hm⟩, fun a _ => ?_⟩
      cases a with
      | error f => trivial
      | ok chunks =>
          refine keeps_perform_bind.2 ⟨trivial, fun a _ => ?_⟩
          cases a with
          | error f => trivial
          | ok _ =>
              refine keeps_bind.2 (keeps_ensuring.2 (keeps_rescue.2 ?_))
              have hfeed : Restores (guard (.generate runId)) admits (Generating runId r)
                  (feeding loads r chunks {}) :=
                restores_feeding r chunks {} fun log c a hc h => h.cons hc
              refine (hfeed _ ((h₀.cons (by simp)).cons (by simp))).mono fun o log h => ?_
              cases o with
              | ok scan =>
                  refine keeps_perform_bind.2 ⟨trivial, fun a _ => ?_⟩
                  cases a with
                  | error f => trivial
                  | ok _ =>
                      refine keeps_perform.2 ⟨trivial, fun a _ => ?_⟩
                      cases a with
                      | error f => trivial
                      | ok _ => exact keeps_tail scan ((h.cons (by simp)).cons (by simp))
              | error f =>
                  refine (keeps_failing f h).mono fun o log ho => ?_
                  cases o with
                  | ok scan => exact absurd rfl (ho scan)
                  | error f =>
                      refine keeps_perform_bind.2 ⟨trivial, fun a _ => ?_⟩
                      cases a with
                      | error f => trivial
                      | ok _ =>
                          refine keeps_perform.2 ⟨trivial, fun a _ => ?_⟩
                          cases a <;> trivial

theorem keeps_body (q : Request) : Keeps (guard q) admits (fun _ _ => True) (body settings loads q) [] := by
  have hmap {α : Type} {p : Orchestrated α} {f : α → Option Run}
      (h : Keeps (guard q) admits (fun _ _ => True) p []) :
      Keeps (guard q) admits (fun _ _ => True) (f <$> p) [] := by
    refine keeps_bind.2 (h.mono fun o _ _ => ?_)
    cases o <;> trivial
  cases q with
  | start idea account => exact hmap (keeps_start idea account)
  | answer runId answers => exact hmap (keeps_answer runId answers)
  | reject runId feedback => exact hmap (keeps_reject runId feedback)
  | approve runId => exact hmap (keeps_perform.2 ⟨rfl, fun _ _ => trivial⟩)
  | generate runId => exact hmap (keeps_generate runId)

end Programs

def planOf (purpose : String) : Fields :=
  [("purpose", .str purpose), ("entities", .list [.dict [("name", .str "Bike")]])]

def planDocument (purpose : String) : Bytes :=
  ascii ("\x7b\"purpose\": \"" ++ purpose ++ "\", \"entities\": [\x7b\"name\": \"Bike\"\x7d]\x7d")

/-- What `json.loads` makes of two such plans and of an empty answer. -/
def loadsPlan (bs : Bytes) : Except String Json :=
  if bs = planDocument "rent" then .ok (.dict (planOf "rent"))
  else if bs = planDocument "repair" then .ok (.dict (planOf "repair"))
  else if bs = [123, 125] then .ok (.dict [])
  else .error "Expecting value: line 1 column 1 (char 0)"

def reviewed : List (Event Request Reply) :=
  [.start (.start "bikes" ""), .step 0 (.text "r"), .step 0 (.response ⟨200, []⟩),
    .step 0 (.response ⟨200, planDocument "rent"⟩), .step 0 (.swept []), .finish 0]

end CodeZard.Turns
