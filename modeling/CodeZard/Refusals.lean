import CodeZard.Versions

namespace CodeZard.Refusals

open Programs Interleaving RunLogs Runs StreamScans Values Orchestration Turns Versions

/-- The classes of `GatewayError` that a move can meet. -/
def GATEWAY_ERRORS : List String :=
  ["GatewayError", "ServiceNotFoundError", "InstanceNotFoundError", "UpstreamError", "UpstreamTimeoutError",
    "UpstreamConnectionError", "CircuitOpenError", "RunNotFoundError", "OrchestrationError", "IllegalTransitionError",
    "BillingError", "InsufficientFundsError", "UnknownProductError", "InvoiceNotFoundError"]

def isGatewayError : Failure → Bool
  | .exception name _ => GATEWAY_ERRORS.contains name
  | _ => false

/-- Why a document is not read: it is not JSON, or it nests too deeply. -/
inductive Unread
  | invalid (text : String)
  | nested
  deriving DecidableEq, Repr

def recursionError : Failure := .exception "RecursionError" "maximum recursion depth exceeded"

/-- The moves that ask the PM. -/
inductive Move
  | start (idea account : String)
  | answer (runId : String) (answers : List Answer)
  | reject (runId feedback : String)

/-- A world, and what the PM has answered since. -/
structure Hearing where
  world : World
  heard : List Response := []

section Model

variable (loads : Bytes → Except Unread Json)

/-- What is loaded of an answer: an empty one counts as an empty object. -/
def document (r : Response) : Except Unread Json := loads (if r.body = [] then [123, 125] else r.body)

def texts (bs : Bytes) : Except String Json :=
  match loads bs with
  | .ok a => .ok a
  | .error (.invalid text) => .error text
  | .error .nested => .error ""

/-- An answer is loaded as soon as it is there, and one that nests too deeply
raises then. All else that is raised is the gateway's own. -/
def hears : Step Call Call.Answer Failure Hearing Reply
  | h, .forward _ _, .response r => some
      (match document loads r with
        | .error .nested => .error recursionError
        | _ => .ok r,
      ⟨h.world, r :: h.heard⟩)
  | h, c, .raised f =>
      if isGatewayError f then (h.world.step c (.raised f)).map fun s => (s.1, { h with world := s.2 }) else none
  | h, c, r => (h.world.step c r).map fun s => (s.1, { h with world := s.2 })

def moving (settings : Settings) : Move → Orchestrated Run
  | .start idea account => start settings (texts loads) idea account
  | .answer runId answers => answer settings (texts loads) runId answers
  | .reject runId feedback => reject settings (texts loads) runId feedback

/-- An answer that does not nest too deeply and, if it is an object that comes
with an error status, has an object or nothing as its `error`. -/
def Harmless (r : Response) : Prop :=
  match document loads r with
  | .error .nested => False
  | .ok (.dict answer) => r.status < 400 ∨ ∃ error, (Json.get answer "error").or (.dict []) = .dict error
  | _ => True

end Model

/-- The world as it was, but for the expired runs that looking up a run leaves out. -/
def Kept (w w' : World) : Move → Prop
  | .start .. => w' = w
  | .answer .. | .reject .. => ∃ expired, w' = { w with store := w.store.sweep expired }

def Continues (w : World) (run : Run) : Move → Prop
  | .start idea account => ideaText idea = .ok run.idea ∧ run.account = account
  | .answer runId _ | .reject runId _ => ∃ old ∈ w.store.runs, old.id = runId ∧ Same old run

/-- A move that has stored a well-formed next version, or else raised an error
of the gateway and stored nothing. -/
inductive Clean (w : World) (m : Move) : Except Failure Run → World → Prop
  | stored {run : Run} {w' : World} {expired : List String} (hk : Kept w w' m) (hw : WellFormed run)
      (hc : Continues w run m) : Clean w m (.ok run) (w'.put run expired)
  | refused {f : Failure} {w' : World} (hk : Kept w w' m) (hf : isGatewayError f = true) : Clean w m (.error f) w'

section Calls

variable {loads : Bytes → Except Unread Json} {h h' : Hearing} {r : Reply}

theorem hears_forward {operation : String} {payload : Fields} {a : Except Failure Response}
    (hs : hears loads h (.forward operation payload) r = some (a, h')) :
    (∃ response, h' = ⟨h.world, response :: h.heard⟩ ∧
      (document loads response = .error .nested ∧ a = .error recursionError ∨
        document loads response ≠ .error .nested ∧ a = .ok response)) ∨
      ∃ f, isGatewayError f = true ∧ a = .error f ∧ h' = h := by
  cases r with
  | response response =>
      refine .inl ⟨response, ?_⟩
      simp only [hears, Option.some.injEq, Prod.mk.injEq] at hs
      obtain ⟨rfl, rfl⟩ := hs
      refine ⟨rfl, ?_⟩
      split
      · rename_i hnested
        exact .inl ⟨hnested, rfl⟩
      · rename_i hread
        exact .inr ⟨hread, rfl⟩
  | raised f =>
      simp only [hears] at hs
      split at hs
      · rename_i hf
        cases hs
        exact .inr ⟨f, hf, rfl, rfl⟩
      · cases hs
  | _ => cases hs

theorem hears_other {c : Call} {a : Except Failure c.Answer} (hc : ∀ operation payload, c ≠ .forward operation payload)
    (hs : hears loads h c r = some (a, h')) :
    h.world.step c r = some (a, h'.world) ∧ h'.heard = h.heard ∧ ∀ f, r = .raised f → isGatewayError f = true := by
  have hmap (hm : (h.world.step c r).map (fun s => (s.1, { h with world := s.2 })) = some (a, h')) :
      h.world.step c r = some (a, h'.world) ∧ h'.heard = h.heard := by
    obtain ⟨⟨b, w⟩, hw, he⟩ := Option.map_eq_some_iff.1 hm
    cases he
    exact ⟨hw, rfl⟩
  cases c with
  | forward operation payload => exact absurd rfl (hc operation payload)
  | _ =>
      cases r with
      | raised f =>
          simp only [hears] at hs
          split at hs
          · rename_i hf
            obtain ⟨hw, hh⟩ := hmap hs
            exact ⟨hw, hh, by rintro _ ⟨⟩; exact hf⟩
          · cases hs
      | _ =>
          obtain ⟨hw, hh⟩ := hmap hs
          exact ⟨hw, hh, fun f hf => by cases hf⟩

theorem get_error {s : RunStore} {runId : String} {f : Failure} (h : s.get runId = .error f) : isGatewayError f = true := by
  unfold RunStore.get at h
  split at h
  · cases h
  · cases h
    decide

theorem moved_error {r : Run} {event : RunEvent} {changes : Run → Run} {f : Failure} (h : r.moved event changes = .error f) :
    isGatewayError f = true := by
  unfold Run.moved at h
  split at h
  · cases h
  · cases h
    exact (by decide : GATEWAY_ERRORS.contains "IllegalTransitionError" = true)

theorem errorMessage_cases (answer : Fields) :
    (∃ error, (Json.get answer "error").or (.dict []) = .dict error ∧ errorMessage answer = .ok (Json.get error "message")) ∨
      (∀ error, (Json.get answer "error").or (.dict []) ≠ .dict error) ∧
        ∃ f, errorMessage answer = .error f ∧ isGatewayError f = false := by
  unfold errorMessage
  cases (Json.get answer "error").or (.dict []) with
  | dict error => exact .inl ⟨error, rfl, rfl⟩
  | _ => exact .inr ⟨by simp, _, rfl, (by decide : GATEWAY_ERRORS.contains "AttributeError" = false)⟩

theorem orchestrationError_gateway (message : String) : isGatewayError (orchestrationError message) = true :=
  (by decide : GATEWAY_ERRORS.contains "OrchestrationError" = true)

end Calls

section Proofs

variable {settings : Settings} {loads : Bytes → Except Unread Json} {h h' : Hearing} {w : World} {m : Move} {α β : Type}

def AllHarmless (loads : Bytes → Except Unread Json) (h : Hearing) : Prop := ∀ r ∈ h.heard, Harmless loads r

def Telling (loads : Bytes → Except Unread Json) (o : Except Failure α) (h : Hearing) : Prop :=
  match o with
  | .ok _ => AllHarmless loads h
  | .error f => isGatewayError f = true ↔ AllHarmless loads h

theorem clean_iff_of_error {f : Failure} (hk : Kept w h.world m) (ht : isGatewayError f = true ↔ AllHarmless loads h) :
    Clean w m (.error f) h.world ↔ AllHarmless loads h := by
  refine Iff.trans ⟨fun hc => ?_, fun hf => .refused hk hf⟩ ht
  cases hc with
  | refused _ hf => exact hf

theorem always_askPm (operation : String) (payload : Fields) (hh : AllHarmless loads h) :
    Always (hears loads) (fun o h' => h'.world = h.world ∧ Telling loads o h')
      (askPm settings (texts loads) operation payload) h := by
  unfold askPm
  refine always_bind.2 (always_perform.2 fun r a h' hs => ?_)
  rcases hears_forward hs with ⟨response, rfl, ⟨hnested, rfl⟩ | ⟨hread, rfl⟩⟩ | ⟨f, hf, rfl, rfl⟩
  · refine ⟨rfl, iff_of_false (by decide) fun hall => ?_⟩
    have hthis := hall response List.mem_cons_self
    rw [Harmless, hnested] at hthis
    exact hthis
  · have hall : AllHarmless loads ⟨h.world, response :: h.heard⟩ ↔ Harmless loads response :=
      List.forall_mem_cons.trans (and_iff_left hh)
    have htexts : texts loads (if response.body = [] then [123, 125] else response.body) =
        match document loads response with
        | .ok a => .ok a
        | .error (.invalid text) => .error text
        | .error .nested => .error "" := rfl
    dsimp only
    rw [htexts]
    unfold Harmless at hall
    cases hd : document loads response with
    | error e =>
        rw [hd] at hall
        cases e with
        | nested => exact absurd hd hread
        | invalid text => exact ⟨rfl, iff_of_true (orchestrationError_gateway _) (hall.2 trivial)⟩
    | ok a =>
        rw [hd] at hall
        cases a with
        | dict answer =>
            dsimp only at hall ⊢
            by_cases hstatus : 400 ≤ response.status
            · rw [if_pos hstatus]
              rw [or_iff_right (not_lt.2 hstatus)] at hall
              rcases errorMessage_cases answer with ⟨error, hdict, hm⟩ | ⟨hother, f, hm, hf⟩
              · rw [hm]
                exact ⟨rfl, iff_of_true (orchestrationError_gateway _) (hall.2 ⟨error, hdict⟩)⟩
              · rw [hm]
                exact ⟨rfl, iff_of_false (by simp [hf]) fun h => (hall.1 h).elim hother⟩
            · rw [if_neg hstatus]
              exact ⟨rfl, hall.2 (.inl (not_le.1 hstatus))⟩
        | null | bool b | int n | float x | str s | list items =>
            exact ⟨rfl, iff_of_true (orchestrationError_gateway _) (hall.2 trivial)⟩
  · exact ⟨rfl, iff_of_true hf hh⟩

theorem turned_error {r : Run} {answer : Fields} {f : Failure} (ht : turned r answer = .error f) :
    isGatewayError f = true := by
  unfold turned at ht
  split at ht
  · split at ht
    · cases ht
      exact orchestrationError_gateway _
    · exact moved_error ht
  · split at ht
    · cases ht
      exact orchestrationError_gateway _
    · exact moved_error ht

theorem always_plan (r : Run) (hh : AllHarmless loads h) :
    Always (hears loads) (fun o h' => h'.world = h.world ∧ Telling loads o h' ∧ ∀ run, o = .ok run → Planned r run)
      (plan settings (texts loads) r) h := by
  obtain ⟨payload, hplan⟩ := plan_eq settings (texts loads) r
  rw [hplan]
  refine always_bind.2 ((always_askPm "plan" payload hh).mono fun o h' ho => ?_)
  obtain ⟨hw, ht⟩ := ho
  cases o with
  | error f => exact ⟨hw, ht, fun run hr => nomatch hr⟩
  | ok answer =>
      refine always_ofExcept.2 ⟨hw, ?_, fun run hr => turned_ok hr⟩
      cases hturned : turned r answer with
      | error f => exact iff_of_true (turned_error hturned) ht
      | ok run => exact ht

theorem always_put {run : Run} (hk : Kept w h.world m) (hw : WellFormed run) (hc : Continues w run m)
    (hh : AllHarmless loads h) :
    Always (hears loads) (fun o h' => Clean w m o h'.world ↔ AllHarmless loads h') (ask (.put run)) h := by
  refine always_perform.2 fun r a h' hs => ?_
  obtain ⟨hstep, hheard, -⟩ := hears_other (by simp) hs
  obtain ⟨expired, rfl, hworld⟩ := World.step_put hstep
  rw [hworld]
  refine iff_of_true (.stored hk hw hc) ?_
  unfold AllHarmless
  rw [hheard]
  exact hh

theorem always_turn {r : Run} (hk : Kept w h.world m) (hr : 1 ≤ r.rounds ∧ r.rounds ≤ MAX_ROUNDS)
    (ha : (r.answers.map Answer.questionId).Nodup) (hc : ∀ run, Same r run → Continues w run m)
    (hh : AllHarmless loads h) :
    Always (hears loads) (fun o h' => Clean w m o h'.world ↔ AllHarmless loads h')
      ((plan settings (texts loads) r).bind fun run => ask (.put run)) h := by
  refine always_bind.2 ((always_plan r hh).mono fun o h' ho => ?_)
  obtain ⟨hw, ht, hp⟩ := ho
  rw [← hw] at hk
  cases o with
  | error f => exact clean_iff_of_error hk ht
  | ok run =>
      have hplanned := hp run rfl
      exact always_put hk (wellFormed_planned hr ha hplanned) (hc run (same_planned hplanned)) ht

theorem always_answer (hstored : ∀ run ∈ w.store.runs, WellFormed run) (runId : String) (answers : List Answer) :
    Always (hears loads) (fun o h' => Clean w (.answer runId answers) o h'.world ↔ AllHarmless loads h')
      (answer settings (texts loads) runId answers) ⟨w, []⟩ := by
  refine always_bind.2 (always_perform.2 fun r a h' hs => ?_)
  obtain ⟨hstep, hheard, -⟩ := hears_other (by simp) hs
  obtain ⟨expired, rfl, hworld⟩ := World.step_get hstep
  have hh : AllHarmless loads h' := by
    unfold AllHarmless
    rw [hheard]
    simp
  have hk : Kept w h'.world (.answer runId answers) := ⟨expired, hworld⟩
  cases hget : (w.store.sweep expired).get runId with
  | error f => exact clean_iff_of_error hk (iff_of_true (get_error hget) hh)
  | ok old =>
      obtain ⟨hmem, hid⟩ := RunStore.find_mem (RunStore.get_ok hget)
      have hold := RunStore.mem_sweep hmem
      exact always_turn (r := old.answering answers) hk (hstored old hold).rounds (nodup_merged _)
        (fun run hsame => ⟨old, hold, hid, hsame⟩) hh

theorem always_reject (hstored : ∀ run ∈ w.store.runs, WellFormed run) (runId feedback : String) :
    Always (hears loads) (fun o h' => h'.heard ≠ [] → (Clean w (.reject runId feedback) o h'.world ↔ AllHarmless loads h'))
      (reject settings (texts loads) runId feedback) ⟨w, []⟩ := by
  unfold reject
  dsimp only
  split
  · exact fun hasked => absurd rfl hasked
  · refine always_bind.2 (always_perform.2 fun r a h' hs => ?_)
    obtain ⟨hstep, hheard, -⟩ := hears_other (by simp) hs
    obtain ⟨expired, rfl, hworld⟩ := World.step_get hstep
    have hh : AllHarmless loads h' := by
      unfold AllHarmless
      rw [hheard]
      simp
    have hk : Kept w h'.world (.reject runId feedback) := ⟨expired, hworld⟩
    have hrefused {f : Failure} (hf : isGatewayError f = true) :
        h'.heard ≠ [] → (Clean w (.reject runId feedback) (.error f) h'.world ↔ AllHarmless loads h') :=
      fun _ => clean_iff_of_error hk (iff_of_true hf hh)
    cases hget : (w.store.sweep expired).get runId with
    | error f => exact hrefused (get_error hget)
    | ok old =>
        obtain ⟨hmem, hid⟩ := RunStore.find_mem (RunStore.get_ok hget)
        have hold := RunStore.mem_sweep hmem
        refine always_bind.2 (always_ofExcept.2 ?_)
        cases hrejected : old.rejected with
        | error f => exact hrefused (moved_error hrejected)
        | ok old' =>
            refine always_bind.2 (always_ofExcept.2 ?_)
            cases hrevising : old'.revising with
            | error f => exact hrefused (moved_error hrevising)
            | ok old'' =>
                obtain ⟨_, rfl⟩ := Run.rejected_ok hrejected
                obtain ⟨_, rfl⟩ := Run.revising_ok hrevising
                refine always_bind.2 ((always_askPm "revise" _ hh).mono fun o h'' ho => ?_)
                obtain ⟨hw, ht⟩ := ho
                rw [← hw] at hk
                cases o with
                | error f => exact fun _ => clean_iff_of_error hk ht
                | ok answer =>
                    dsimp only
                    split
                    · exact fun _ => clean_iff_of_error hk (iff_of_true (orchestrationError_gateway _) ht)
                    · rename_i hplan
                      refine always_bind.2 (always_ofExcept.2 ?_)
                      cases hproposed : Run.proposed { old with state := .pmRevision } answer with
                      | error f => exact fun _ => clean_iff_of_error hk (iff_of_true (moved_error hproposed) ht)
                      | ok run =>
                          have hp : isPlan answer = true := by simpa using hplan
                          have hwell := wellFormed_proposed (r := { old with state := .pmRevision })
                            (hstored old hold).rounds (hstored old hold).answers hp hproposed
                          refine (always_put hk hwell ⟨old, hold, hid, ?_⟩ ht).mono fun o h hclean _ => hclean
                          have hsame := same_planned (r := { old with state := .pmRevision }) (.inr ⟨answer, hp, hproposed⟩)
                          exact hsame

theorem hears_quiet {c : Call} {r : Reply} {a : Except Failure c.Answer} (hc : (∃ account, c = .authorize account) ∨ c = .tokenHex)
    (hs : hears loads h c r = some (a, h')) : h' = h := by
  have hother := hears_other (by rcases hc with ⟨_, rfl⟩ | rfl <;> simp) hs
  have hworld : h'.world = h.world := by
    have hstep := hother.1
    generalize h'.world = w' at hstep
    rcases hc with ⟨_, rfl⟩ | rfl
    · cases r <;> cases hstep <;> rfl
    · cases r <;> cases hstep
      rfl
  calc h' = ⟨h'.world, h'.heard⟩ := rfl
    _ = h := by rw [hworld, hother.2.1]

theorem always_start (idea account : String) :
    Always (hears loads) (fun o h' => h'.heard ≠ [] → (Clean w (.start idea account) o h'.world ↔ AllHarmless loads h'))
      (start settings (texts loads) idea account) ⟨w, []⟩ := by
  have hauthorized : Always (hears loads) (fun _ h' => h' = ⟨w, []⟩) (authorized settings account) ⟨w, []⟩ := by
    unfold authorized
    split
    · exact always_perform.2 fun r a h' hs => hears_quiet (.inl ⟨account, rfl⟩) hs
    · rfl
  refine always_bind.2 (hauthorized.mono fun o h' ho => ?_)
  subst ho
  cases o with
  | error f => exact fun hasked => absurd rfl hasked
  | ok _ =>
      refine always_bind.2 (always_ofExcept.2 ?_)
      cases htext : ideaText idea with
      | error f => exact fun hasked => absurd rfl hasked
      | ok text =>
          refine always_bind.2 (always_perform.2 fun r a h' hs => ?_)
          obtain rfl := hears_quiet (.inr rfl) hs
          cases a with
          | error f => exact fun hasked => absurd rfl hasked
          | ok token =>
              refine always_bind.2 (always_ofExcept.2 ?_)
              cases hdescribing : (Run.start token text account).describing with
              | error f => exact fun hasked => absurd rfl hasked
              | ok begun =>
                  have hbegun := (Run.describing_ok hdescribing).2
                  have hanswers : begun.answers = [] := by rw [hbegun]; rfl
                  have hrounds : begun.rounds = 0 := by rw [hbegun]; rfl
                  have hstarted (run : Run) (hsame : Same begun run) : Continues w run (.start idea account) := by
                    obtain ⟨-, hidea, haccount⟩ := hsame
                    rw [hbegun] at hidea haccount
                    exact ⟨hidea ▸ htext, haccount⟩
                  refine always_bind.2 ((always_askPm "analyze" _ (by simp [AllHarmless])).mono fun o h' ho => ?_)
                  obtain ⟨hw, ht⟩ := ho
                  have hk : Kept w h'.world (.start idea account) := hw
                  cases o with
                  | error f => exact fun _ => clean_iff_of_error hk ht
                  | ok answer =>
                      dsimp only
                      split
                      · rename_i x xs hq
                        refine always_bind.2 (always_ofExcept.2 ?_)
                        cases hasked : begun.asked (textOf answer "summary")
                            ⟨reasonOf (Json.get answer "questionnaire"), x :: xs⟩ with
                        | error f => exact fun _ => clean_iff_of_error hk (iff_of_true (moved_error hasked) ht)
                        | ok run =>
                            have hserved : Asked begun run := ⟨_, _, List.cons_ne_nil x xs, fun y hy =>
                              worded_of_mem (Json.get answer "questionnaire") (hq ▸ hy), hrounds ▸ Nat.zero_lt_two, hasked⟩
                            have hwell := wellFormed_asked (by simp [hanswers]) hserved
                            exact (always_put hk hwell (hstarted run (same_planned (.inl hserved))) ht).mono
                              fun o h hclean _ => hclean
                      · refine always_bind.2 (always_ofExcept.2 ?_)
                        cases hasked : begun.asked (textOf answer "summary") {} with
                        | error f => exact fun _ => clean_iff_of_error hk (iff_of_true (moved_error hasked) ht)
                        | ok served =>
                            have hserved := (Run.asked_ok hasked).2
                            have hrounds' : served.rounds = 1 := by rw [hserved, hrounds]
                            have hanswers' : served.answers = [] := by rw [hserved, hanswers]
                            have hsame : Same begun served := by rw [hserved]; exact ⟨rfl, rfl, rfl⟩
                            exact (always_turn (r := served) hk (by simp [hrounds', MAX_ROUNDS]) (by simp [hanswers'])
                              (fun run h => hstarted run (Same.trans hsame h)) ht).mono fun o h hclean _ => hclean

end Proofs

/-- A world that some requests have left behind. -/
def Reached (w : World) : Prop :=
  ∃ settings loads maxRuns, ∃ c : Desk,
    Reaches (body settings loads) World.step anyRequest anyStep { store := { maxRuns := maxRuns } } c ∧ c.world = w

theorem Reached.wellFormed {w : World} (h : Reached w) : ∀ run ∈ w.store.runs, WellFormed run := by
  obtain ⟨settings, loads, maxRuns, c, hc, rfl⟩ := h
  have hinv := inv_of_reaches hc
  exact fun run hr => (hinv.versions run (hinv.stored run hr)).1

/-- A move that asks the PM ends cleanly exactly when all it answers is
harmless. -/
theorem moves_cleanly_iff (settings : Settings) (loads : Bytes → Except Unread Json) {w : World} (hw : Reached w)
    (m : Move) {rs : List Reply} {o : Except Failure Run} {h : Hearing}
    (he : exec (hears loads) (moving loads settings m) ⟨w, []⟩ rs = some (o, h)) (hasked : h.heard ≠ []) :
    Clean w m o h.world ↔ ∀ r ∈ h.heard, Harmless loads r := by
  cases m with
  | start idea account => exact (always_start idea account).exec he hasked
  | answer runId answers => exact (always_answer hw.wellFormed runId answers).exec he
  | reject runId feedback => exact (always_reject hw.wellFormed runId feedback).exec he hasked

/-- An error that is said in a word, as an object. -/
def refusal : Bytes := ascii "\x7b\"error\": \"overloaded\"\x7d"

/-- What `json.loads` makes of it, of a plan and of an empty answer. -/
def loadsRefusal (bs : Bytes) : Except Unread Json :=
  if bs = refusal then .ok (.dict [("error", .str "overloaded")])
  else match loadsPlan bs with
    | .ok a => .ok a
    | .error text => .error (.invalid text)

theorem reached_empty : Reached {} := ⟨{}, loadsPlan, Runs.MAX_RUNS, _, .init, rfl⟩

theorem moves_cleanly_planned :
    ∃ o h, exec (hears loadsRefusal) (moving loadsRefusal {} (.start "bikes" "")) ⟨{}, []⟩
        [.text "r", .response ⟨200, []⟩, .response ⟨200, planDocument "rent"⟩, .swept []] = some (o, h) ∧
      (Clean {} (.start "bikes" "") o h.world ↔ ∀ r ∈ h.heard, Harmless loadsRefusal r) := by
  have hrun : (exec (hears loadsRefusal) (moving loadsRefusal {} (.start "bikes" "")) ⟨{}, []⟩
      [.text "r", .response ⟨200, []⟩, .response ⟨200, planDocument "rent"⟩, .swept []]).any
        (fun s => decide (s.2.heard ≠ [])) = true := by decide +kernel
  obtain ⟨⟨o, h⟩, he, hasked⟩ := (Option.any_eq_true _ _).1 hrun
  exact ⟨o, h, he, moves_cleanly_iff {} loadsRefusal reached_empty (.start "bikes" "") he (of_decide_eq_true hasked)⟩

/-- A refusal whose `error` is a word is raised as what it is not. -/
theorem refusal_escapes :
    ∃ f h, exec (hears loadsRefusal) (moving loadsRefusal {} (.start "bikes" "")) ⟨{}, []⟩
        [.text "r", .response ⟨503, refusal⟩] = some (.error f, h) ∧
      ¬ Clean {} (.start "bikes" "") (.error f) h.world := by
  have hrun : (exec (hears loadsRefusal) (moving loadsRefusal {} (.start "bikes" "")) ⟨{}, []⟩
      [.text "r", .response ⟨503, refusal⟩]).any (fun s => match s.1 with
        | .error f => !isGatewayError f
        | .ok _ => false) = true := by decide +kernel
  obtain ⟨⟨o, h⟩, he, hraised⟩ := (Option.any_eq_true _ _).1 hrun
  cases o with
  | ok run => cases hraised
  | error f =>
      refine ⟨f, h, he, fun hclean => ?_⟩
      cases hclean with
      | refused _ hf => simp [hf] at hraised

end CodeZard.Refusals
