import CodeZard.Turns

namespace CodeZard.Versions

open Programs Interleaving RunLogs Runs StreamScans Values Orchestration Turns

/-- The states that a stored run may be in. -/
def storable : List RunState :=
  [.questionnaire, .planReview, .planApproved, .backendGeneration, .zipReady, .failed]

structure WellFormed (run : Run) : Prop where
  state : run.state ∈ storable
  rounds : 1 ≤ run.rounds ∧ run.rounds ≤ MAX_ROUNDS
  asking : run.state = .questionnaire → ∃ q, run.questionnaire = some q ∧ ∃ x ∈ q.questions, worded x = true
  planned : run.state ≠ .questionnaire → run.questionnaire = none ∧ ∃ p, run.plan = some p ∧ isPlan p = true
  delivered : run.state = .zipReady → run.artifactId ≠ ""
  failed : run.state = .failed → run.error ≠ ""
  answers : (run.answers.map Answer.questionId).Nodup

def Started (vs : List InTurn) (run : Run) : Prop :=
  ∃ v ∈ vs, ∃ idea account, v.request = .start idea account ∧ ⟨.tokenHex, .ok run.id⟩ ∈ v.log ∧
    ideaText idea = .ok run.idea ∧ run.account = account

def Same (r run : Run) : Prop := run.id = r.id ∧ run.idea = r.idea ∧ run.account = r.account

theorem Same.trans {r r' run : Run} (h : Same r r') (h' : Same r' run) : Same r run :=
  ⟨h'.1.trans h.1, h'.2.1.trans h.2.1, h'.2.2.trans h.2.2⟩

section Runs

variable {r run : Run}

theorem nodup_merged (answers : List Answer) : ((Run.merged answers).map Answer.questionId).Nodup := by
  have hfold (acc : List Answer) (h : (acc.map Answer.questionId).Nodup) :
      ((answers.foldl (fun merged a => Tables.upsert Answer.questionId (fun _ new => new) a merged) acc).map
        Answer.questionId).Nodup := by
    induction answers generalizing acc with
    | nil => exact h
    | cons a answers ih => exact ih _ (Tables.nodup_upsert (fun _ _ _ => rfl) h)
  exact hfold [] List.nodup_nil

theorem wellFormed_asked (ha : (r.answers.map Answer.questionId).Nodup) (h : Asked r run) : WellFormed run := by
  obtain ⟨summary, q, hne, hw, hlt, h⟩ := h
  obtain ⟨_, rfl⟩ := Run.asked_ok h
  obtain ⟨x, hx⟩ := List.exists_mem_of_ne_nil _ hne
  refine ⟨List.mem_cons_self, ⟨Nat.le_add_left 1 _, hlt⟩, fun _ => ⟨q, rfl, x, hx, hw x hx⟩, ?_, ?_, ?_, ha⟩
  · exact fun h => absurd rfl h
  · exact fun h => nomatch h
  · exact fun h => nomatch h

theorem wellFormed_proposed {p : Fields} (hr : 1 ≤ r.rounds ∧ r.rounds ≤ MAX_ROUNDS)
    (ha : (r.answers.map Answer.questionId).Nodup) (hp : isPlan p = true) (h : r.proposed p = .ok run) :
    WellFormed run := by
  obtain ⟨_, rfl⟩ := Run.proposed_ok h
  refine ⟨by simp [storable], hr, ?_, fun _ => ⟨rfl, p, rfl, hp⟩, ?_, ?_, ha⟩
  · exact fun h => nomatch h
  · exact fun h => nomatch h
  · exact fun h => nomatch h

theorem wellFormed_planned (hr : 1 ≤ r.rounds ∧ r.rounds ≤ MAX_ROUNDS)
    (ha : (r.answers.map Answer.questionId).Nodup) (h : Planned r run) : WellFormed run := by
  rcases h with h | ⟨p, hp, h⟩
  · exact wellFormed_asked ha h
  · exact wellFormed_proposed hr ha hp h

theorem WellFormed.later (h : WellFormed r) (hr : r.state ≠ .questionnaire) {state : RunState} (hs : state ∈ storable)
    (hq : state ≠ .questionnaire) {artifactId error : String} (ha : state = .zipReady → artifactId ≠ "")
    (he : state = .failed → error ≠ "") :
    WellFormed { r with state := state, artifactId := artifactId, error := error } :=
  ⟨hs, h.rounds, fun h => absurd h hq, fun _ => h.planned hr, ha, he, h.answers⟩

theorem WellFormed.approved (h : WellFormed r) (ha : r.approved = .ok run) : WellFormed run := by
  obtain ⟨hs, rfl⟩ := Run.approved_ok ha
  exact h.later (by simp [hs]) (by simp [storable]) (by simp) (by simp) (by simp)

theorem WellFormed.generating (h : WellFormed r) (ha : r.generating = .ok run) : WellFormed run := by
  obtain ⟨hs, rfl⟩ := Run.generating_ok ha
  exact h.later (by simp [hs]) (by simp [storable]) (by simp) (by simp) (by simp)

theorem WellFormed.ended (h : WellFormed r) (hs : r.state = .backendGeneration) (he : Ended r run) :
    WellFormed run := by
  have hq : r.state ≠ .questionnaire := by simp [hs]
  rcases he with ⟨error, hne, he⟩ | ⟨artifactId, d, hne, hd, rfl | ⟨tokens, rfl⟩⟩
  · obtain ⟨_, rfl⟩ := Run.failed_ok he
    exact h.later hq (by simp [storable]) (by simp) (by simp) fun _ => hne
  · obtain ⟨_, rfl⟩ := Run.delivered_ok hd
    exact h.later hq (by simp [storable]) (by simp) (fun _ => hne) (by simp)
  · obtain ⟨_, rfl⟩ := Run.delivered_ok hd
    have hw : WellFormed { r with state := .zipReady, artifactId := artifactId } :=
      h.later hq (by simp [storable]) (by simp) (fun _ => hne) (by simp)
    exact ⟨hw.state, hw.rounds, hw.asking, hw.planned, hw.delivered, hw.failed, hw.answers⟩

theorem same_planned (h : Planned r run) : Same r run := by
  rcases h with ⟨_, _, _, _, _, h⟩ | ⟨_, _, h⟩
  · obtain ⟨_, rfl⟩ := Run.asked_ok h
    exact ⟨rfl, rfl, rfl⟩
  · obtain ⟨_, rfl⟩ := Run.proposed_ok h
    exact ⟨rfl, rfl, rfl⟩

theorem same_ended (h : Ended r run) : Same r run := by
  rcases h with ⟨_, _, h⟩ | ⟨_, _, _, h, rfl | ⟨_, rfl⟩⟩
  · obtain ⟨_, rfl⟩ := Run.failed_ok h
    exact ⟨rfl, rfl, rfl⟩
  · obtain ⟨_, rfl⟩ := Run.delivered_ok h
    exact ⟨rfl, rfl, rfl⟩
  · obtain ⟨_, rfl⟩ := Run.delivered_ok h
    exact ⟨rfl, rfl, rfl⟩

end Runs

section Views

variable {vs : List InTurn} {r run : Run} {n : Nat} {q : Request} {log : TurnLog}

theorem Started.same (h : Started vs r) (hs : Same r run) : Started vs run := by
  obtain ⟨v, hv, idea, account, hq, hid, ht, ha⟩ := h
  exact ⟨v, hv, idea, account, hq, hs.1 ▸ hid, by rw [hs.2.1]; exact ht, hs.2.2.trans ha⟩

theorem Started.set (h : Started vs run) (hn : vs[n]? = some ⟨q, log, none⟩) {log' : TurnLog} (hl : log ⊆ log')
    (o : Option (Except Failure (Option Run))) : Started (vs.set n ⟨q, log', o⟩) run := by
  obtain ⟨v, hv, idea, account, hq, hid, ht, ha⟩ := h
  rcases mem_set_or_eq hn hv ⟨q, log', o⟩ with hv | rfl
  · exact ⟨v, hv, idea, account, hq, hid, ht, ha⟩
  · exact ⟨_, mem_set_self hn _, idea, account, hq, hl hid, ht, ha⟩

end Views

/-- Every version is well formed and traces back to a start, and so does what
the requests hold a copy of. -/
structure Inv (w : World) (vs : List InTurn) : Prop where
  versions : ∀ run ∈ w.trail, WellFormed run ∧ Started vs run
  stored : ∀ run ∈ w.store.runs, run ∈ w.trail
  read : ∀ v ∈ vs, ∀ runId run, ⟨.get runId, .ok run⟩ ∈ v.log → run ∈ w.trail
  begun : ∀ v ∈ vs, ∀ runId run, ⟨.generating runId, .ok run⟩ ∈ v.log → run ∈ w.trail ∧ run.state = .backendGeneration

section Steps

variable {w w' : World} {vs : List InTurn} {n : Nat} {q : Request} {log : TurnLog} {c : Call} {r : Reply}
  {a : Except Failure c.Answer} {run : Run}

theorem Inv.writes (h : Inv w vs) (hn : vs[n]? = some ⟨q, log, none⟩) (hw : Writes q log run) :
    WellFormed run ∧ Started vs run := by
  have hv := List.mem_of_getElem? hn
  cases q with
  | start idea account =>
      obtain ⟨token, text, r, htoken, htext, hd, hr⟩ := hw
      obtain ⟨_, rfl⟩ := Run.describing_ok hd
      have hstarted (run : Run) (hs : Same (Run.start token text account) run) : Started vs run := by
        obtain ⟨hid, hidea, hacc⟩ := hs
        refine ⟨_, hv, idea, account, rfl, ?_, ?_, hacc⟩
        · rw [hid]
          exact htoken
        · rw [hidea]
          exact htext
      rcases hr with hr | ⟨summary, r', ha, hr⟩
      · have hsame := same_planned (.inl hr)
        refine ⟨wellFormed_asked ?_ hr, hstarted run hsame⟩
        exact List.nodup_nil
      · obtain ⟨_, rfl⟩ := Run.asked_ok ha
        have hsame := same_planned hr
        refine ⟨wellFormed_planned ?_ ?_ hr, hstarted run hsame⟩
        · exact ⟨le_rfl, Nat.le_succ 1⟩
        · exact List.nodup_nil
  | answer runId answers =>
      obtain ⟨r, hr, hp⟩ := hw
      obtain ⟨hr, hs⟩ := h.versions r (h.read _ hv runId r hr)
      have hsame := same_planned hp
      exact ⟨wellFormed_planned (r := r.answering answers) hr.rounds (nodup_merged _) hp, hs.same hsame⟩
  | reject runId feedback =>
      obtain ⟨r, r', r'', p, hr, hr', hr'', hp, hrun⟩ := hw
      obtain ⟨hr, hs⟩ := h.versions r (h.read _ hv runId r hr)
      obtain ⟨_, rfl⟩ := Run.rejected_ok hr'
      obtain ⟨_, rfl⟩ := Run.revising_ok hr''
      have hsame := same_planned (.inr ⟨p, hp, hrun⟩)
      refine ⟨wellFormed_proposed ?_ ?_ hp hrun, hs.same hsame⟩
      · exact hr.rounds
      · exact hr.answers
  | approve runId => exact absurd hw not_false
  | generate runId =>
      obtain ⟨r, hr, _, he⟩ := hw
      obtain ⟨hr, hst⟩ := h.begun _ hv runId r hr
      obtain ⟨hr, hs⟩ := h.versions r hr
      exact ⟨hr.ended hst he, hs.same (same_ended he)⟩

theorem Inv.stores (h : Inv w vs) (hn : vs[n]? = some ⟨q, log, none⟩) (hg : guard q log c)
    (hs : Stores w ⟨c, a⟩ run) : WellFormed run ∧ Started vs run := by
  cases hs with
  | put run => exact h.writes hn hg
  | approve hm ha =>
      obtain ⟨hw, hs⟩ := h.versions _ (h.stored _ hm)
      obtain ⟨_, rfl⟩ := Run.approved_ok ha
      exact ⟨hw.approved ha, hs.same ⟨rfl, rfl, rfl⟩⟩
  | generating hm ha =>
      obtain ⟨hw, hs⟩ := h.versions _ (h.stored _ hm)
      obtain ⟨_, rfl⟩ := Run.generating_ok ha
      exact ⟨hw.generating ha, hs.same ⟨rfl, rfl, rfl⟩⟩

theorem begun_step {runId : String} (hs : w.step (.generating runId) r = some (.ok run, w')) :
    run ∈ w'.trail ∧ run.state = .backendGeneration := by
  rcases World.step_cases hs with ⟨_, _, hquiet⟩ | ⟨x, hst, ht, _⟩
  · exact absurd hquiet not_false
  · cases hst with
    | generating _ ha =>
        obtain ⟨_, rfl⟩ := Run.generating_ok ha
        rw [ht]
        exact ⟨List.mem_cons_self, rfl⟩

theorem Inv.step (h : Inv w vs) (hn : vs[n]? = some ⟨q, log, none⟩) (hg : guard q log c)
    (hs : w.step c r = some (a, w')) : Inv w' (vs.set n ⟨q, ⟨c, a⟩ :: log, none⟩) := by
  have hstarted {run : Run} (hr : Started vs run) : Started (vs.set n ⟨q, ⟨c, a⟩ :: log, none⟩) run :=
    hr.set hn (List.subset_cons_self _ _) none
  have hold := World.trail_step hs
  refine ⟨fun run hr => ?_, fun run hr => ?_, fun v hv runId run hm => ?_, fun v hv runId run hm => ?_⟩
  · rcases World.step_cases hs with ⟨ht, _⟩ | ⟨x, hst, ht, _⟩ <;> rw [ht] at hr
    · exact (h.versions run hr).imp_right hstarted
    · rcases List.mem_cons.1 hr with rfl | hr
      · exact (h.stores hn hg hst).imp_right hstarted
      · exact (h.versions run hr).imp_right hstarted
  · rcases World.step_cases hs with ⟨ht, hsub, _⟩ | ⟨x, hst, ht, hsub⟩ <;> rw [ht]
    · exact h.stored run (hsub run hr)
    · rcases hsub run hr with rfl | ⟨hr, _⟩
      · exact List.mem_cons_self
      · exact List.mem_cons_of_mem _ (h.stored run hr)
  · rcases List.mem_or_eq_of_mem_set hv with hv | rfl
    · exact hold run (h.read v hv runId run hm)
    · rcases List.mem_cons.1 hm with he | hm
      · cases he
        exact hold run (h.stored run (World.step_read hs).1)
      · exact hold run (h.read _ (List.mem_of_getElem? hn) runId run hm)
  · rcases List.mem_or_eq_of_mem_set hv with hv | rfl
    · exact (h.begun v hv runId run hm).imp_left (hold run)
    · rcases List.mem_cons.1 hm with he | hm
      · cases he
        exact begun_step hs
      · exact (h.begun _ (List.mem_of_getElem? hn) runId run hm).imp_left (hold run)

end Steps

variable {settings : Settings} {loads : Bytes → Except String Json}

def protocol : Protocol (body settings loads) World.step anyRequest anyStep where
  inv := Inv
  guard := guard
  admits _ := admits
  post _ _ _ := True
  arrive {q w vs} _ h := by
    refine ⟨fun run hr => (h.versions run hr).imp_right ?_, h.stored, fun v hv runId run hm => ?_,
      fun v hv runId run hm => ?_⟩
    · rintro ⟨v, hv, hs⟩
      exact ⟨v, List.mem_append_left _ hv, hs⟩
    · rcases mem_concat hv with hv | rfl
      · exact h.read v hv runId run hm
      · cases hm
    · rcases mem_concat hv with hv | rfl
      · exact h.begun v hv runId run hm
      · cases hm
  follows {q} _ := keeps_body q
  sound h hn hg _ hs := ⟨h.step hn hg hs, trivial⟩
  leave {w vs i q log o} h hn _ := by
    have hold := List.mem_of_getElem? hn
    refine ⟨fun run hr => (h.versions run hr).imp_right fun hs => hs.set hn (List.Subset.refl _) _, h.stored,
      fun v hv runId run hm => ?_, fun v hv runId run hm => ?_⟩
    · rcases List.mem_or_eq_of_mem_set hv with hv | rfl
      · exact h.read v hv runId run hm
      · exact h.read _ hold runId run hm
    · rcases List.mem_or_eq_of_mem_set hv with hv | rfl
      · exact h.begun v hv runId run hm
      · exact h.begun _ hold runId run hm

theorem inv_of_reaches {maxRuns : Nat} {c : Desk}
    (h : Reaches (body settings loads) World.step anyRequest anyStep { store := { maxRuns := maxRuns } } c) :
    Inv c.world c.views := by
  refine protocol.invariant ⟨?_, ?_, ?_, ?_⟩ h
  · exact fun run hr => absurd hr List.not_mem_nil
  · exact fun run hr => absurd hr List.not_mem_nil
  · exact fun v hv => nomatch hv
  · exact fun v hv => nomatch hv

/-- Whatever the agents answer and however the requests interleave, every
version that is ever stored is well formed and has the id, the idea and the
account of a request that started a run. -/
theorem versions_wellFormed (settings : Settings) (loads : Bytes → Except String Json) (maxRuns : Nat) {c : Desk}
    (h : Reaches (body settings loads) World.step anyRequest anyStep { store := { maxRuns := maxRuns } } c) :
    ∀ run ∈ c.world.trail, WellFormed run ∧ Started c.views run :=
  (inv_of_reaches h).versions

theorem versions_wellFormed_reviewed :
    ∃ c, Reaches (body {} loadsPlan) World.step anyRequest anyStep { store := { maxRuns := Runs.MAX_RUNS } } c ∧
      (c.world.trail.map Run.state) = [.planReview] ∧
      ∀ run ∈ c.world.trail, WellFormed run ∧ Started c.views run := by
  have hrun : (run (body {} loadsPlan) World.step anyRequest anyStep ⟨{ store := { maxRuns := Runs.MAX_RUNS } }, []⟩
      reviewed).any (fun c => decide (c.world.trail.map Run.state = [.planReview])) = true := by decide +kernel
  obtain ⟨c, hc, hp⟩ := reaches_of_run hrun
  exact ⟨c, hc, of_decide_eq_true hp, versions_wellFormed {} loadsPlan Runs.MAX_RUNS hc⟩

end CodeZard.Versions
