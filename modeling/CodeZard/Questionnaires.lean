import CodeZard.FrozenPlans

namespace CodeZard.Questionnaires

open Programs Interleaving RunLogs Runs StreamScans Tables Values Orchestration Turns Versions FrozenPlans

/-- What a run has to say to a question. -/
def said (run : Run) (questionId : String) : Option Answer := row Answer.questionId questionId run.answers

def copies (log : TurnLog) : List Run := log.filterMap fun
  | ⟨.get _, .ok r⟩ => some r
  | _ => none

/-- A request writes its run back only where every answer stored by then is in
the copy that it read, or is to a question that it answers itself. -/
def Heeds : Rule := fun w _ v c _ => match v.request, c with
  | .answer runId answers, .put _ => ∀ last ∈ latest runId w.trail, ∀ r ∈ copies v.log, ∀ a ∈ last.answers,
      a ∈ r.answers ∨ a.questionId ∈ answers.map Answer.questionId
  | _, _ => True

instance (w : World) (vs : List InTurn) (v : InTurn) (c : Call) (r : Reply) : Decidable (Heeds w vs v c r) := by
  obtain ⟨request, log, result⟩ := v
  rcases request <;> rcases c <;> dsimp only [Heeds] <;> infer_instance

/-- Nothing but answers about the run. -/
def Answering (runId : String) (q : Request) : Prop := ∃ answers, q = .answer runId answers

def Wrote (log : TurnLog) : Prop := ∃ run x, ⟨.put run, .ok x⟩ ∈ log

def Gave (runId : String) (vs : List InTurn) (a : Answer) : Prop :=
  ∃ v ∈ vs, Wrote v.log ∧ ∃ answers, v.request = .answer runId answers ∧ a ∈ answers

section Answers

variable {r run : Run} {answers : List Answer} {questionId : String} {a : Answer}

theorem said_eq_some (hn : (run.answers.map Answer.questionId).Nodup) :
    said run questionId = some a ↔ a ∈ run.answers ∧ a.questionId = questionId := by
  constructor
  · exact fun h => ⟨row_mem h, row_key h⟩
  · rintro ⟨ha, rfl⟩
    exact row_of_mem hn ha

theorem said_answering (hn : (r.answers.map Answer.questionId).Nodup) :
    said (r.answering answers) questionId = (row Answer.questionId questionId answers.reverse).or (said r questionId) := by
  have hreverse : row Answer.questionId questionId r.answers.reverse = said r questionId := by
    have hn' : ((r.answers.reverse).map Answer.questionId).Nodup := by
      rw [List.map_reverse]
      exact List.nodup_reverse.2 hn
    ext a
    rw [said_eq_some hn]
    constructor
    · exact fun h => ⟨List.mem_reverse.1 (row_mem h), row_key h⟩
    · rintro ⟨ha, rfl⟩
      exact row_of_mem hn' (List.mem_reverse.2 ha)
  have hmerged : said (r.answering answers) questionId = row Answer.questionId questionId (Run.merged (r.answers ++ answers)) :=
    rfl
  rw [hmerged, Run.merged, row_foldl_upsert, List.reverse_append, row_append, hreverse, row_nil, Option.or_none]

theorem said_given (hn : (r.answers.map Answer.questionId).Nodup) (ha : questionId ∈ answers.map Answer.questionId) :
    ∃ a ∈ answers, said (r.answering answers) questionId = some a := by
  have hsome : (row Answer.questionId questionId answers.reverse).isSome = true := by
    rw [row_isSome, List.map_reverse]
    exact List.mem_reverse.2 ha
  obtain ⟨a, hrow⟩ := Option.isSome_iff_exists.1 hsome
  refine ⟨a, List.mem_reverse.1 (row_mem hrow), ?_⟩
  rw [said_answering hn, hrow]
  rfl

theorem row_reverse_none (ha : questionId ∉ answers.map Answer.questionId) :
    row Answer.questionId questionId answers.reverse = none := by
  rw [← Option.not_isSome_iff_eq_none, row_isSome, List.map_reverse]
  exact fun h => ha (List.mem_reverse.1 h)

theorem said_kept (hn : (r.answers.map Answer.questionId).Nodup) (hr : a ∈ r.answers)
    (ha : a.questionId ∉ answers.map Answer.questionId) : said (r.answering answers) a.questionId = some a := by
  rw [said_answering hn, row_reverse_none ha, Option.none_or, said_eq_some hn]
  exact ⟨hr, rfl⟩

theorem answers_planned (h : Planned r run) : run.answers = r.answers := by
  rcases h with ⟨_, _, _, _, _, h⟩ | ⟨_, _, h⟩
  · obtain ⟨_, rfl⟩ := Run.asked_ok h
    rfl
  · obtain ⟨_, rfl⟩ := Run.proposed_ok h
    rfl

theorem unheeded_lost (hn : (r.answers.map Answer.questionId).Nodup) (h : Planned (r.answering answers) run)
    (hr : a ∉ r.answers) (ha : a.questionId ∉ answers.map Answer.questionId) : a ∉ run.answers := by
  intro hm
  rw [answers_planned h] at hm
  have hsaid : said (r.answering answers) a.questionId = some a := (said_eq_some (nodup_merged _)).2 ⟨hm, rfl⟩
  rw [said_answering hn, row_reverse_none ha, Option.none_or, said_eq_some hn] at hsaid
  exact hr hsaid.1

end Answers

section Programs

variable {settings : Settings} {loads : Bytes → Except String Json}

theorem keeps_written (runId : String) (answers : List Answer) :
    Keeps (guard (.answer runId answers)) admits (fun o log => Wrote log ↔ o.isOk = true)
      (body settings loads (.answer runId answers)) [] := by
  have hunwritten {log : TurnLog} (h : ∀ run a, ⟨.put run, a⟩ ∉ log) (f : Failure) :
      Wrote log ↔ (Except.error f : Except Failure (Option Run)).isOk = true := by
    constructor
    · rintro ⟨run, x, hm⟩
      exact absurd hm (h run (.ok x))
    · intro ho
      cases ho
  refine keeps_bind.2 (keeps_perform_bind.2 ⟨.inl ⟨answers, rfl⟩, fun a _ => ?_⟩)
  have hnone : ∀ run b, ⟨.put run, b⟩ ∉ ([⟨.get runId, a⟩] : TurnLog) :=
    put_notMem_cons (fun _ _ h => absurd h List.not_mem_nil) (by simp)
  cases a with
  | error f => exact hunwritten hnone f
  | ok r =>
      refine keeps_bind.2 ((keeps_plan (I := fun log => ⟨.get runId, .ok r⟩ ∈ log ∧ ∀ run a, ⟨.put run, a⟩ ∉ log)
        (fun log payload a h => ⟨List.mem_cons_of_mem _ h.1, put_notMem_cons h.2 (by simp)⟩) _
        ⟨List.mem_cons_self, hnone⟩).mono fun o log h => ?_)
      cases o with
      | error f => exact hunwritten h.1.2 f
      | ok run =>
          refine keeps_perform.2 ⟨⟨r, h.1.1, h.2 run rfl⟩, fun a _ => ?_⟩
          cases a with
          | ok x =>
              constructor
              · exact fun _ => rfl
              · exact fun _ => ⟨run, x, List.mem_cons_self⟩
          | error f =>
              refine iff_of_false ?_ (by simp [Except.isOk, Except.toBool])
              rintro ⟨run', x, hm⟩
              rcases List.mem_cons.1 hm with he | hm
              · cases he
              · exact h.1.2 run' (.ok x) hm

end Programs

section Views

variable {runId : String} {vs : List InTurn} {n : Nat} {q : Request} {log : TurnLog} {a : Answer}

theorem Wrote.cons {c : Call} {b : Except Failure c.Answer} (h : Wrote log) : Wrote (⟨c, b⟩ :: log) := by
  obtain ⟨run, x, hm⟩ := h
  exact ⟨run, x, List.mem_cons_of_mem _ hm⟩

theorem wrote_cons {c : Call} {b : Except Failure c.Answer} (h : Wrote (⟨c, b⟩ :: log)) (hc : ∀ run, c ≠ .put run) :
    Wrote log := by
  obtain ⟨run, x, hm⟩ := h
  rcases List.mem_cons.1 hm with he | hm
  · cases he
    exact absurd rfl (hc run)
  · exact ⟨run, x, hm⟩

theorem Gave.set (h : Gave runId vs a) (hn : vs[n]? = some ⟨q, log, none⟩) {log' : TurnLog}
    (hl : Wrote log → Wrote log') (o : Option (Except Failure (Option Run))) :
    Gave runId (vs.set n ⟨q, log', o⟩) a := by
  obtain ⟨v, hv, hw, answers, hq, ha⟩ := h
  rcases mem_set_or_eq hn hv ⟨q, log', o⟩ with hv | rfl
  · exact ⟨v, hv, hw, answers, hq, ha⟩
  · exact ⟨_, mem_set_self hn _, hl hw, answers, hq, ha⟩

theorem mem_copies {id : String} {r : Run} (h : ⟨.get id, .ok r⟩ ∈ log) : r ∈ copies log :=
  List.mem_filterMap.2 ⟨_, h, rfl⟩

theorem latest_isSome {trail : List Run} {r : Run} (h : r ∈ trail) : (latest r.id trail).isSome = true := by
  have hm : r ∈ versions r.id trail := List.mem_filter.2 ⟨h, decide_eq_true rfl⟩
  rw [latest, List.isSome_head?]
  exact List.ne_nil_of_mem hm

end Views

/-- The latest version has an answer to what was answered before, and one that
was given to what was answered since. -/
structure Merged (runId : String) (before : List Answer) (vs : List InTurn) (last : Run) : Prop where
  kept : ∀ b ∈ before, (said last b.questionId).isSome = true
  given : ∀ v ∈ vs, Wrote v.log → ∀ answers, v.request = .answer runId answers → ∀ b ∈ answers,
    ∃ a, said last b.questionId = some a ∧ Gave runId vs a

structure Inv (runId : String) (before : List Answer) (w : World) (vs : List InTurn) : Prop where
  only : ∀ v ∈ vs, Answering runId v.request
  stored : ∀ x ∈ w.store.runs, latest x.id w.trail = some x
  once : ∀ run ∈ w.trail, (run.answers.map Answer.questionId).Nodup
  read : ∀ v ∈ vs, ∀ id r, ⟨.get id, .ok r⟩ ∈ v.log → r ∈ w.trail ∧ r.id = id
  merged : ∀ last ∈ latest runId w.trail, Merged runId before vs last
  ended : ∀ v ∈ vs, ∀ o, v.result = some o → (Wrote v.log ↔ o.isOk = true)

section Steps

variable {runId : String} {before : List Answer} {w w' : World} {vs : List InTurn} {n : Nat} {q : Request}
  {log : TurnLog} {c : Call} {r : Reply} {a : Except Failure c.Answer} {run : Run}

theorem Inv.read_step (h : Inv runId before w vs) (hn : vs[n]? = some ⟨q, log, none⟩) (hs : w.step c r = some (a, w')) :
    ∀ v ∈ vs.set n ⟨q, ⟨c, a⟩ :: log, none⟩, ∀ id r, ⟨.get id, .ok r⟩ ∈ v.log → r ∈ w'.trail ∧ r.id = id := by
  have hold {v : InTurn} (hv : v ∈ vs) {id : String} {x : Run} (hx : ⟨.get id, .ok x⟩ ∈ v.log) :
      x ∈ w'.trail ∧ x.id = id := by
    obtain ⟨hx, hid⟩ := h.read v hv id x hx
    exact ⟨World.trail_step hs x hx, hid⟩
  intro v hv id x hx
  rcases List.mem_or_eq_of_mem_set hv with hv | rfl
  · exact hold hv hx
  · rcases List.mem_cons.1 hx with he | hx
    · cases he
      obtain ⟨hm, hid⟩ := World.step_read hs
      have hlatest := h.stored x hm
      have htrail : x ∈ versions x.id w.trail := List.mem_of_head? hlatest
      exact ⟨World.trail_step hs x (List.mem_filter.1 htrail).1, hid⟩
    · exact hold (List.mem_of_getElem? hn) hx

theorem Inv.only_set (h : Inv runId before w vs) (hn : vs[n]? = some ⟨q, log, none⟩) (log' : TurnLog)
    (o : Option (Except Failure (Option Run))) : ∀ v ∈ vs.set n ⟨q, log', o⟩, Answering runId v.request := by
  intro v hv
  rcases List.mem_or_eq_of_mem_set hv with hv | rfl
  · exact h.only v hv
  · have hold := h.only _ (List.mem_of_getElem? hn)
    exact hold

theorem Inv.ended_step (h : Inv runId before w vs) :
    ∀ v ∈ vs.set n ⟨q, ⟨c, a⟩ :: log, none⟩, ∀ o, v.result = some o → (Wrote v.log ↔ o.isOk = true) := by
  intro v hv o ho
  rcases List.mem_or_eq_of_mem_set hv with hv | rfl
  · exact h.ended v hv o ho
  · cases ho

theorem Inv.writes (h : Inv runId before w vs) {answers : List Answer}
    (hn : vs[n]? = some ⟨.answer runId answers, log, none⟩) (hw : Writes (.answer runId answers) log run)
    (ht : Heeds w vs ⟨.answer runId answers, log, none⟩ (.put run) r) :
    run.id = runId ∧ (run.answers.map Answer.questionId).Nodup ∧
      Merged runId before (vs.set n ⟨.answer runId answers, ⟨.put run, .ok run⟩ :: log, none⟩) run := by
  obtain ⟨copy, hcopy, hplanned⟩ := hw
  obtain ⟨hmem, hid⟩ := h.read _ (List.mem_of_getElem? hn) runId copy hcopy
  have hone := h.once copy hmem
  have hsame : run.answers = (copy.answering answers).answers := answers_planned hplanned
  have hsaid (x : String) : said run x = said (copy.answering answers) x := by rw [said, said, hsame]
  have hwrote : Wrote (⟨.put run, .ok run⟩ :: log) := ⟨run, run, List.mem_cons_self⟩
  have hnew {b : Answer} (hb : b.questionId ∈ answers.map Answer.questionId) : ∃ a, said run b.questionId = some a ∧
      Gave runId (vs.set n ⟨.answer runId answers, ⟨.put run, .ok run⟩ :: log, none⟩) a := by
    obtain ⟨a, ha, hrow⟩ := said_given hone hb
    exact ⟨a, (hsaid _).trans hrow, _, mem_set_self hn _, hwrote, answers, rfl, ha⟩
  obtain ⟨last, hlast⟩ := Option.isSome_iff_exists.1 (latest_isSome hmem)
  rw [hid] at hlast
  have hmerged := h.merged last hlast
  have hold {b a : Answer} (ha : said last b.questionId = some a) (hb : b.questionId ∉ answers.map Answer.questionId) :
      said run b.questionId = some a := by
    have hkey : a.questionId = b.questionId := row_key ha
    rcases ht last hlast copy (mem_copies hcopy) a (row_mem ha) with hc | hc
    · rw [hsaid, ← hkey]
      exact said_kept hone hc (hkey ▸ hb)
    · exact absurd (hkey ▸ hc) hb
  refine ⟨(same_planned hplanned).1.trans hid, hsame ▸ nodup_merged _, fun b hb => ?_, fun v hv hw given hq b hb => ?_⟩
  · obtain ⟨a, ha⟩ := Option.isSome_iff_exists.1 (hmerged.kept b hb)
    by_cases hmine : b.questionId ∈ answers.map Answer.questionId
    · obtain ⟨a', ha', _⟩ := hnew hmine
      rw [ha']
      rfl
    · rw [hold ha hmine]
      rfl
  · by_cases hmine : b.questionId ∈ answers.map Answer.questionId
    · exact hnew hmine
    · rcases List.mem_or_eq_of_mem_set hv with hv | rfl
      · obtain ⟨a, ha, hgave⟩ := hmerged.given v hv hw given hq b hb
        exact ⟨a, hold ha hmine, hgave.set hn Wrote.cons none⟩
      · cases hq
        exact absurd (List.mem_map_of_mem hb) hmine

theorem Inv.quiet (h : Inv runId before w vs) (hn : vs[n]? = some ⟨q, log, none⟩) (hs : w.step c r = some (a, w'))
    (ht : w'.trail = w.trail) (hquiet : Quiet ⟨c, a⟩) : Inv runId before w' (vs.set n ⟨q, ⟨c, a⟩ :: log, none⟩) := by
  have hput : ∀ run, c ≠ .put run := by
    rintro run rfl
    exact hquiet
  refine ⟨h.only_set hn _ none, latest_step h.stored hs, ht ▸ h.once, h.read_step hn hs, fun last hlast => ?_,
    h.ended_step⟩
  rw [ht] at hlast
  have hmerged := h.merged last hlast
  refine ⟨hmerged.kept, fun v hv hw answers hq b hb => ?_⟩
  have hgiven : ∃ a, said last b.questionId = some a ∧ Gave runId vs a := by
    rcases List.mem_or_eq_of_mem_set hv with hv | rfl
    · exact hmerged.given v hv hw answers hq b hb
    · exact hmerged.given _ (List.mem_of_getElem? hn) (wrote_cons hw hput) answers hq b hb
  obtain ⟨x, hx, hgave⟩ := hgiven
  exact ⟨x, hx, hgave.set hn Wrote.cons none⟩

theorem Inv.step (h : Inv runId before w vs) (hn : vs[n]? = some ⟨q, log, none⟩)
    (hg : guard q log c) (ht : Heeds w vs ⟨q, log, none⟩ c r) (hs : w.step c r = some (a, w')) :
    Inv runId before w' (vs.set n ⟨q, ⟨c, a⟩ :: log, none⟩) := by
  obtain ⟨answers, hq⟩ := h.only _ (List.mem_of_getElem? hn)
  obtain rfl : q = .answer runId answers := hq
  rcases World.step_cases hs with ⟨htrail, _, hquiet⟩ | ⟨run, hst, htrail, _⟩
  · exact h.quiet hn hs htrail hquiet
  · cases hst with
    | put run =>
        obtain ⟨hid, hone, hmerged⟩ := h.writes hn hg ht
        refine ⟨h.only_set hn _ none, latest_step h.stored hs, fun x hx => ?_, h.read_step hn hs, fun last hlast => ?_,
          h.ended_step⟩
        · rw [htrail] at hx
          rcases List.mem_cons.1 hx with rfl | hx
          · exact hone
          · exact h.once x hx
        · subst hid
          rw [htrail, latest_cons_self] at hlast
          cases hlast
          exact hmerged
    | approve => cases hg
    | generating => cases hg.1

end Steps

variable {settings : Settings} {loads : Bytes → Except String Json}

def protocol (runId : String) (before : List Answer) :
    Protocol (body settings loads) World.step (Answering runId) Heeds where
  inv := Inv runId before
  guard := guard
  admits _ := admits
  post _ o log := Wrote log ↔ o.isOk = true
  arrive {q w vs} hq h := by
    have hgave {a : Answer} (ha : Gave runId vs a) : Gave runId (vs ++ [⟨q, [], none⟩]) a := by
      obtain ⟨v, hv, h⟩ := ha
      exact ⟨v, List.mem_append_left _ hv, h⟩
    refine ⟨fun v hv => ?_, h.stored, h.once, fun v hv id r hr => ?_, fun last hlast => ?_, fun v hv o ho => ?_⟩
    · rcases mem_concat hv with hv | rfl
      · exact h.only v hv
      · exact hq
    · rcases mem_concat hv with hv | rfl
      · exact h.read v hv id r hr
      · cases hr
    · refine ⟨(h.merged last hlast).kept, fun v hv hw answers hq b hb => ?_⟩
      rcases mem_concat hv with hv | rfl
      · obtain ⟨a, ha, hgiven⟩ := (h.merged last hlast).given v hv hw answers hq b hb
        exact ⟨a, ha, hgave hgiven⟩
      · obtain ⟨run, x, hm⟩ := hw
        cases hm
    · rcases mem_concat hv with hv | rfl
      · exact h.ended v hv o ho
      · cases ho
  follows {q} hq := by
    obtain ⟨answers, rfl⟩ := hq
    exact keeps_written runId answers
  sound h hn hg ht hs := ⟨h.step hn hg ht hs, trivial⟩
  leave {w vs i q log o} h hn hpost := by
    have hold := List.mem_of_getElem? hn
    refine ⟨h.only_set hn log (some o), h.stored, h.once, fun v hv id r hr => ?_, fun last hlast => ?_,
      fun v hv o' ho => ?_⟩
    · rcases List.mem_or_eq_of_mem_set hv with hv | rfl
      · exact h.read v hv id r hr
      · exact h.read _ hold id r hr
    · refine ⟨(h.merged last hlast).kept, fun v hv hw answers hq b hb => ?_⟩
      have hgiven : ∃ a, said last b.questionId = some a ∧ Gave runId vs a := by
        rcases List.mem_or_eq_of_mem_set hv with hv | rfl
        · exact (h.merged last hlast).given v hv hw answers hq b hb
        · exact (h.merged last hlast).given _ hold hw answers hq b hb
      obtain ⟨a, ha, hgave⟩ := hgiven
      exact ⟨a, ha, hgave.set hn id (some o)⟩
    · rcases List.mem_or_eq_of_mem_set hv with hv | rfl
      · exact h.ended v hv o' ho
      · cases ho
        exact hpost

def shelved : Protocol (body settings loads) World.step anyRequest anyStep where
  inv w _ := ∀ x ∈ w.store.runs, latest x.id w.trail = some x
  guard _ _ _ := True
  admits _ _ _ _ := True
  post _ _ _ := True
  arrive _ h := h
  follows _ := keeps_of_guard (fun _ _ => trivial) _
  sound h _ _ _ hs := ⟨latest_step h hs, trivial⟩
  leave h _ _ := h

def succeeded (v : InTurn) : Bool := v.result.any Except.isOk

/-- There is one answer to whatever was answered before, or by a request that
succeeded, and in the second case one such request gave it. -/
structure NothingLost (runId : String) (before : List Answer) (vs : List InTurn) (run : Run) : Prop where
  once : (run.answers.map Answer.questionId).Nodup
  kept : ∀ b ∈ before, ∃ a ∈ run.answers, a.questionId = b.questionId
  given : ∀ v ∈ vs, succeeded v = true → ∀ answers, v.request = .answer runId answers → ∀ b ∈ answers,
    ∃ a ∈ run.answers, a.questionId = b.questionId ∧
      ∃ u ∈ vs, succeeded u = true ∧ ∃ others, u.request = .answer runId others ∧ a ∈ others

theorem Inv.nothingLost {runId : String} {before : List Answer} {w : World} {vs : List InTurn} {run : Run}
    (h : Inv runId before w vs) (hended : ∀ v ∈ vs, v.result ≠ none) (hrun : w.store.find runId = some run) :
    NothingLost runId before vs run := by
  obtain ⟨hmem, rfl⟩ := RunStore.find_mem hrun
  have hlatest := h.stored run hmem
  have htrail : run ∈ versions run.id w.trail := List.mem_of_head? hlatest
  have hmerged := h.merged run hlatest
  have hwrote {v : InTurn} (hv : v ∈ vs) : succeeded v = true ↔ Wrote v.log := by
    obtain ⟨o, ho⟩ := Option.ne_none_iff_exists'.1 (hended v hv)
    rw [h.ended v hv o ho, succeeded, ho]
    rfl
  refine ⟨h.once run (List.mem_filter.1 htrail).1, fun b hb => ?_, fun v hv hs answers hq b hb => ?_⟩
  · obtain ⟨a, ha⟩ := Option.isSome_iff_exists.1 (hmerged.kept b hb)
    exact ⟨a, row_mem ha, row_key ha⟩
  · obtain ⟨a, ha, u, hu, hw, others, hq', hgave⟩ := hmerged.given v hv ((hwrote hv).1 hs) answers hq b hb
    exact ⟨a, row_mem ha, row_key ha, u, hu, (hwrote hu).2 hw, others, hq', hgave⟩

/-- Whatever happened before, and however the answers about a run interleave:
while each is written back with what was stored since, none is lost. -/
theorem answers_merged (settings : Settings) (loads : Bytes → Except String Json) (maxRuns : Nat) (runId : String)
    {c₀ c : Desk} {run : Run}
    (hbefore : Reaches (body settings loads) World.step anyRequest anyStep { store := { maxRuns := maxRuns } } c₀)
    (h : Reaches (body settings loads) World.step (Answering runId) Heeds c₀.world c)
    (hended : ∀ v ∈ c.views, v.result ≠ none) (hrun : c.world.store.find runId = some run) :
    NothingLost runId (((c₀.world.store.find runId).map Run.answers).getD []) c.views run := by
  have hstored : ∀ x ∈ c₀.world.store.runs, latest x.id c₀.world.trail = some x := by
    apply shelved.invariant ?_ hbefore
    intro x hx
    cases hx
  have hinv : Inv runId (((c₀.world.store.find runId).map Run.answers).getD []) c₀.world [] := by
    refine ⟨fun v hv => ?_, hstored, fun x hx => ?_, fun v hv => ?_, fun last hlast => ⟨fun b hb => ?_, fun v hv => ?_⟩,
      fun v hv => ?_⟩
    · cases hv
    · exact (versions_wellFormed settings loads maxRuns hbefore x hx).1.answers
    · cases hv
    · cases hfind : c₀.world.store.find runId with
      | none =>
          rw [hfind] at hb
          cases hb
      | some old =>
          obtain ⟨hmem, rfl⟩ := RunStore.find_mem hfind
          rw [hstored old hmem] at hlast
          cases hlast
          rw [hfind] at hb
          exact row_isSome.2 (List.mem_map_of_mem hb)
    · cases hv
    · cases hv
  exact ((protocol runId _).invariant hinv h).nothingLost hended hrun

instance (runId : String) : DecidablePred (Answering runId) := fun q => by
  cases q with
  | answer id answers =>
      exact decidable_of_iff (id = runId) ⟨fun h => ⟨answers, by rw [h]⟩, fun ⟨_, h⟩ => by cases h; rfl⟩
  | _ => exact isFalse (by rintro ⟨_, h⟩; cases h)

def asked : Json := .dict [("questionnaire", .dict [("questions", .list [.dict [("text", .str "Who rents?")]])])]

def askedDocument : Bytes := ascii "\x7b\"questionnaire\": \x7b\"questions\": [\x7b\"text\": \"Who rents?\"\x7d]\x7d\x7d"

def loadsAsked (bs : Bytes) : Except String Json := if bs = askedDocument then .ok asked else loadsPlan bs

def served : List (Event Request Reply) :=
  [.start (.start "bikes" ""), .step 0 (.text "r"), .step 0 (.response ⟨200, askedDocument⟩), .step 0 (.swept []), .finish 0]

def together (first second : List Answer) : List (Event Request Reply) :=
  [.start (.answer "r" first), .start (.answer "r" second), .step 0 (.swept []), .step 1 (.swept []),
    .step 0 (.response ⟨200, planDocument "rent"⟩), .step 1 (.response ⟨200, planDocument "rent"⟩),
    .step 0 (.swept []), .finish 0, .step 1 (.swept []), .finish 1]

theorem answers_merged_together : ∃ c₀ c run, Reaches (body {} loadsAsked) World.step anyRequest anyStep empty c₀ ∧
    Reaches (body {} loadsAsked) World.step (Answering "r") Heeds c₀.world c ∧ c.world.store.find "r" = some run ∧
    run.answers = [⟨"who", "neighbours"⟩, ⟨"when", "Saturdays"⟩] ∧ NothingLost "r" [] c.views run := by
  have hrun : (run (body {} loadsAsked) World.step anyRequest anyStep ⟨empty, []⟩ served).any (fun c₀ =>
      ((c₀.world.store.find "r").map Run.answers).getD [] = [] &&
      (run (body {} loadsAsked) World.step (Answering "r") Heeds ⟨c₀.world, []⟩
        (together [⟨"who", "volunteers"⟩] [⟨"who", "neighbours"⟩, ⟨"when", "Saturdays"⟩])).any fun c =>
          c.views.all (fun v => v.result.isSome) && (c.world.store.find "r").any fun run =>
            run.answers = [⟨"who", "neighbours"⟩, ⟨"when", "Saturdays"⟩]) = true := by decide +kernel
  obtain ⟨c₀, hc₀, h⟩ := reaches_of_run hrun
  obtain ⟨hbefore, h⟩ := Bool.and_eq_true_iff.1 h
  obtain ⟨c, hc, h⟩ := reaches_of_run h
  obtain ⟨hended, h⟩ := Bool.and_eq_true_iff.1 h
  obtain ⟨stored, hstored, ha⟩ := (Option.any_eq_true _ _).1 h
  have hall : ∀ v ∈ c.views, v.result ≠ none := fun v hv => Option.isSome_iff_ne_none.1 (List.all_eq_true.1 hended v hv)
  have hmerged := answers_merged {} loadsAsked Runs.MAX_RUNS "r" hc₀ hc hall hstored
  rw [of_decide_eq_true hbefore] at hmerged
  exact ⟨c₀, c, stored, hc₀, hc, hstored, of_decide_eq_true ha, hmerged⟩

/-- One answers who it is for, the other one when: both succeed, and only the
last answer is kept. -/
theorem answer_lost_together : ∃ c₀ c run, Reaches (body {} loadsAsked) World.step anyRequest anyStep empty c₀ ∧
    Reaches (body {} loadsAsked) World.step (Answering "r") anyStep c₀.world c ∧ c.world.store.find "r" = some run ∧
    (∀ v ∈ c.views, succeeded v = true) ∧ run.answers = [⟨"when", "Saturdays"⟩] ∧ ¬ NothingLost "r" [] c.views run := by
  have hrun : (run (body {} loadsAsked) World.step anyRequest anyStep ⟨empty, []⟩ served).any (fun c₀ =>
      (run (body {} loadsAsked) World.step (Answering "r") anyStep ⟨c₀.world, []⟩
        (together [⟨"who", "volunteers"⟩] [⟨"when", "Saturdays"⟩])).any fun c =>
          c.views.all succeeded && c.views.any (fun v => v.request = .answer "r" [⟨"who", "volunteers"⟩]) &&
          (c.world.store.find "r").any fun run => run.answers = [⟨"when", "Saturdays"⟩]) = true := by decide +kernel
  obtain ⟨c₀, hc₀, h⟩ := reaches_of_run hrun
  obtain ⟨c, hc, h⟩ := reaches_of_run h
  obtain ⟨hviews, h⟩ := Bool.and_eq_true_iff.1 h
  obtain ⟨hall, hasked⟩ := Bool.and_eq_true_iff.1 hviews
  obtain ⟨stored, hstored, ha⟩ := (Option.any_eq_true _ _).1 h
  obtain ⟨v, hv, hq⟩ := List.any_eq_true.1 hasked
  have hsucceeded := List.all_eq_true.1 hall
  refine ⟨c₀, c, stored, hc₀, hc, hstored, hsucceeded, of_decide_eq_true ha, fun hlost => ?_⟩
  obtain ⟨a, hmem, hid, _⟩ := hlost.given v hv (hsucceeded v hv) _ (of_decide_eq_true hq) _ List.mem_cons_self
  rw [of_decide_eq_true ha] at hmem
  cases List.mem_singleton.1 hmem
  exact absurd hid (by decide)

end CodeZard.Questionnaires
