import CodeZard.Versions
import Mathlib.Data.List.Chain
import Mathlib.Logic.Relation

namespace CodeZard.FrozenPlans

open Programs Interleaving RunLogs Runs StreamScans Values Orchestration Turns Versions

def settled : RunState → Bool
  | .planApproved | .backendGeneration | .zipReady | .failed => true
  | _ => false

def Moves : RunState → RunState → Prop :=
  Relation.TransGen fun s t => ∃ event, event ≠ RunEvent.reset ∧ moves s event = some t

/-- What was stored of a run, the newest version first. -/
def versions (id : String) (trail : List Run) : List Run := trail.filter fun r => r.id = id

def latest (id : String) (trail : List Run) : Option Run := (versions id trail).head?

def Orderly (trail : List Run) : Prop :=
  ∀ id, (versions id trail).IsChain fun later earlier => Moves earlier.state later.state

def Frozen (trail : List Run) : Prop := ∀ id, (versions id trail).Pairwise fun later earlier =>
  settled earlier.state = true →
    later.plan = earlier.plan ∧ later.state ≠ .questionnaire ∧ later.state ≠ .planReview

def asksAgain (loads : Bytes → Except String Json) (log : TurnLog) : Bool := log.any fun
  | ⟨.forward _ _, .ok response⟩ =>
      match loads (if response.body = [] then [123, 125] else response.body) with
      | .ok answer => !(questions answer).isEmpty
      | .error _ => false
  | _ => false

/-- Whether a run that is about to be stored for the first time has an id of
its own. -/
def fresh (trail : List Run) (log : TurnLog) : Bool := log.all fun
  | ⟨.tokenHex, .ok token⟩ => (latest token trail).isNone
  | _ => true

/-- Whether an answer or a rejection still finds its run where it may be
written: in a questionnaire, or in review if the agent did not ask again. -/
def pending (loads : Bytes → Except String Json) (log : TurnLog) (last : Run) : Bool :=
  last.state = .questionnaire || (last.state = .planReview && !asksAgain loads log)

def InTime (loads : Bytes → Except String Json) : Rule := fun w _ v c _ => match v.request, c with
  | .start .., .put _ => fresh w.trail v.log = true
  | .answer runId _, .put _ => (latest runId w.trail).all (pending loads v.log) = true
  | .reject runId _, .put _ => (latest runId w.trail).all (pending loads v.log) = true
  | _, _ => True

instance (loads : Bytes → Except String Json) (w : World) (vs : List InTurn) (v : InTurn) (c : Call) (r : Reply) :
    Decidable (InTime loads w vs v c r) := by
  obtain ⟨request, log, result⟩ := v
  rcases request <;> rcases c <;> dsimp only [InTime] <;> infer_instance

section Trails

variable {id : String} {trail : List Run} {run r : Run}

@[simp] theorem versions_cons_self : versions run.id (run :: trail) = run :: versions run.id trail := by
  simp [versions]

@[simp] theorem latest_cons_self : latest run.id (run :: trail) = some run := by
  simp [latest]

theorem versions_cons_ne (h : run.id ≠ id) : versions id (run :: trail) = versions id trail := by
  simp [versions, h]

theorem latest_cons_ne (h : run.id ≠ id) : latest id (run :: trail) = latest id trail := by
  simp [latest, versions_cons_ne h]

theorem id_of_latest (h : latest id trail = some r) : r.id = id := by
  have hm : r ∈ versions id trail := List.mem_of_head? h
  exact of_decide_eq_true (List.mem_filter.1 hm).2

theorem latest_step {w w' : World} {c : Call} {x : Reply} {a : Except Failure c.Answer}
    (h : ∀ r ∈ w.store.runs, latest r.id w.trail = some r) (hs : w.step c x = some (a, w')) :
    ∀ r ∈ w'.store.runs, latest r.id w'.trail = some r := by
  intro r hr
  rcases World.step_cases hs with ⟨ht, hsub, _⟩ | ⟨run, _, ht, hmem⟩ <;> rw [ht]
  · exact h r (hsub r hr)
  · rcases hmem r hr with rfl | ⟨hr, hid⟩
    · exact latest_cons_self
    · rw [latest_cons_ne hid.symm]
      exact h r hr

end Trails

/-- What may be stored after a version: moves lead to it, and it has the same
plan if that was approved. -/
def Succeeds (later earlier : Run) : Prop :=
  Moves earlier.state later.state ∧ (settled earlier.state = true → later.plan = earlier.plan)

theorem settled_of_moves {s t : RunState} (h : Moves s t) (hs : settled s = true) : settled t = true := by
  have hone {s t : RunState} (h : ∃ event, event ≠ RunEvent.reset ∧ moves s event = some t)
      (hs : settled s = true) : settled t = true := by
    obtain ⟨event, hne, hm⟩ := h
    have he := edge_of_moves hm
    cases event with
    | reset => exact absurd rfl hne
    | generate | deliver | fail => obtain ⟨_, rfl⟩ := he; rfl
    | approve => obtain ⟨_, rfl⟩ := he; rfl
    | describe | ask =>
        obtain ⟨rfl | rfl, _⟩ := he <;> cases hs
    | propose => obtain ⟨rfl | rfl | rfl, _⟩ := he <;> cases hs
    | reject | revise => obtain ⟨rfl, _⟩ := he; cases hs
  induction h with
  | single h => exact hone h hs
  | tail _ h ih => exact hone h ih

instance : Trans Succeeds Succeeds Succeeds where
  trans {a b c} hab hbc := by
    refine ⟨hbc.1.trans hab.1, fun hs => ?_⟩
    exact (hab.2 (settled_of_moves hbc.1 hs)).trans (hbc.2 hs)

theorem frozen_of_chain {trail : List Run} (h : ∀ id, (versions id trail).IsChain Succeeds) : Frozen trail := by
  intro id
  refine (List.isChain_iff_pairwise.1 (h id)).imp fun {later earlier} hl hs => ?_
  have ht := settled_of_moves hl.1 hs
  refine ⟨hl.2 hs, fun hq => ?_, fun hq => ?_⟩
  · rw [hq] at ht
    cases ht
  · rw [hq] at ht
    cases ht

section Moves

variable {r run last : Run}

theorem succeeds_of_move (event : RunEvent) (hne : event ≠ .reset) (hm : moves last.state event = some run.state)
    (hp : run.plan = last.plan) : Succeeds run last :=
  ⟨.single ⟨event, hne, hm⟩, fun _ => hp⟩

theorem succeeds_approved (h : last.approved = .ok run) : Succeeds run last := by
  obtain ⟨hs, rfl⟩ := Run.approved_ok h
  exact succeeds_of_move .approve (by decide) (by rw [hs]; rfl) rfl

theorem succeeds_generating (h : last.generating = .ok run) : Succeeds run last := by
  obtain ⟨hs, rfl⟩ := Run.generating_ok h
  exact succeeds_of_move .generate (by decide) (by rw [hs]; rfl) rfl

theorem succeeds_ended (hs : last.state = .backendGeneration) (h : Ended last run) : Succeeds run last := by
  rcases h with ⟨_, _, h⟩ | ⟨_, _, _, h, rfl | ⟨_, rfl⟩⟩
  · obtain ⟨_, rfl⟩ := Run.failed_ok h
    exact succeeds_of_move .fail (by decide) (by rw [hs]; rfl) rfl
  · obtain ⟨_, rfl⟩ := Run.delivered_ok h
    exact succeeds_of_move .deliver (by decide) (by rw [hs]; rfl) rfl
  · obtain ⟨_, rfl⟩ := Run.delivered_ok h
    exact succeeds_of_move .deliver (by decide) (by rw [hs]; rfl) rfl

theorem moves_planReview : Moves .planReview .planReview :=
  .tail (.tail (.single ⟨.reject, by decide, rfl⟩) ⟨.revise, by decide, rfl⟩) ⟨.propose, by decide, rfl⟩

theorem succeeds_planned (hr : run.state = .questionnaire ∨ run.state = .planReview)
    (hl : last.state = .questionnaire ∨ (last.state = .planReview ∧ run.state ≠ .questionnaire)) :
    Succeeds run last := by
  have hsettled : ¬ settled last.state = true := by
    rcases hl with hl | ⟨hl, _⟩ <;> rw [hl] <;> decide
  refine ⟨?_, fun hs => absurd hs hsettled⟩
  rcases hr with hr | hr <;> rcases hl with hl | ⟨hl, hne⟩ <;> rw [hl, hr]
  · exact .single ⟨.ask, by decide, rfl⟩
  · exact absurd hr hne
  · exact .single ⟨.propose, by decide, rfl⟩
  · exact moves_planReview

end Moves

section Programs

variable {settings : Settings} {loads : Bytes → Except String Json} {q : Request} {log : TurnLog}

def asking (loads : Bytes → Except String Json) (q : Request) (log : TurnLog) : Call → Prop
  | .put run => (∃ runId answers, q = .answer runId answers) → run.state = .questionnaire → asksAgain loads log = true
  | _ => True

theorem keeps_asked (operation : String) (payload : Fields) :
    Keeps (asking loads q) admits (fun o log => ∀ answer, o = .ok answer → questions (.dict answer) ≠ [] →
      asksAgain loads log = true) (askPm settings loads operation payload) log := by
  refine keeps_perform_bind.2 ⟨trivial, fun a _ => ?_⟩
  cases a with
  | error f => exact fun _ h => nomatch h
  | ok response =>
      simp only
      split
      · exact fun _ h => nomatch h
      · rename_i answer hl
        split
        · refine keeps_bind.2 (keeps_ofExcept.2 ?_)
          cases errorMessage answer <;> exact fun _ h => nomatch h
        · intro answer' h hq
          cases h
          simp only [asksAgain, List.any_cons, hl, Bool.or_eq_true]
          refine .inl ?_
          simpa using hq
      · exact fun _ h => nomatch h

theorem keeps_turn (r : Run) : Keeps (asking loads q) admits (fun o log => ∀ run, o = .ok run →
    run.state = .questionnaire → asksAgain loads log = true) (plan settings loads r) log := by
  refine keeps_bind.2 ((keeps_asked "plan" _).mono fun o log h => ?_)
  cases o with
  | error f => exact fun _ h => nomatch h
  | ok answer =>
      simp only
      split
      · rename_i x xs hq
        have hasked : asksAgain loads log = true := h answer rfl (hq ▸ List.cons_ne_nil x xs)
        split
        · exact fun _ h => nomatch h
        · exact keeps_ofExcept.2 fun _ _ _ => hasked
      · split
        · exact fun _ h => nomatch h
        · refine keeps_ofExcept.2 fun run hr hs => ?_
          obtain ⟨_, rfl⟩ := Run.proposed_ok hr
          cases hs

theorem keeps_asking (q : Request) : Keeps (asking loads q) admits (fun _ _ => True) (body settings loads q) [] := by
  by_cases hq : ∃ runId answers, q = .answer runId answers
  · obtain ⟨runId, answers, rfl⟩ := hq
    refine keeps_bind.2 (keeps_perform_bind.2 ⟨trivial, fun a _ => ?_⟩)
    cases a with
    | error f => trivial
    | ok r =>
        refine keeps_bind.2 ((keeps_turn (r.answering answers)).mono fun o log h => ?_)
        cases o with
        | error f => trivial
        | ok run =>
            refine keeps_perform.2 ⟨fun _ hs => h run rfl hs, fun a _ => ?_⟩
            cases a <;> trivial
  · refine keeps_of_guard (fun log c => ?_) _
    cases c with
    | put run => exact fun h => absurd h hq
    | _ => trivial

end Programs

/-- The versions of each run follow each other, the stored one is the latest,
and so is the one that a generation in progress began with. -/
structure Inv (w : World) (vs : List InTurn) : Prop where
  chain : ∀ id, (versions id w.trail).IsChain Succeeds
  stored : ∀ x ∈ w.store.runs, latest x.id w.trail = some x
  read : ∀ v ∈ vs, ∀ runId r, ⟨.get runId, .ok r⟩ ∈ v.log → r.id = runId
  held : ∀ v ∈ vs, ∀ runId r, Generating runId r v.log →
    latest runId w.trail = some r ∧ r.state = .backendGeneration
  one : ∀ runId, AtMostOne (fun v : InTurn => ∃ r, Generating runId r v.log) vs

section Steps

variable {loads : Bytes → Except String Json} {w w' : World} {vs : List InTurn} {n : Nat} {q : Request} {log : TurnLog}
  {c : Call} {r : Reply} {a : Except Failure c.Answer} {run : Run}

theorem pending_cases {last : Run} (h : pending loads log last = true) :
    last.state = .questionnaire ∨ (last.state = .planReview ∧ asksAgain loads log = false) := by
  simpa [pending] using h

theorem Inv.turn (hr : run.state = .questionnaire ∨ run.state = .planReview)
    (ha : run.state = .questionnaire → asksAgain loads log = true)
    (ht : (latest run.id w.trail).all (pending loads log) = true) :
    ∀ last ∈ latest run.id w.trail, Succeeds run last ∧ last.state ≠ .backendGeneration := by
  intro last hl
  rw [Option.mem_def.1 hl] at ht
  have hp := pending_cases ht
  refine ⟨succeeds_planned hr (hp.imp_right fun hp => ⟨hp.1, fun hq => ?_⟩), fun hs => ?_⟩
  · rw [ha hq] at hp
    exact nomatch hp.2
  · rw [hs] at hp
    simp at hp

theorem Inv.writes (h : Inv w vs) (hn : vs[n]? = some ⟨q, log, none⟩) (hw : Writes q log run)
    (ha : asking loads q log (.put run)) (ht : InTime loads w vs ⟨q, log, none⟩ (.put run) r) :
    (∀ last ∈ latest run.id w.trail, Succeeds run last ∧ last.state ≠ .backendGeneration) ∨
      ∃ last, latest run.id w.trail = some last ∧ Succeeds run last ∧ Generating run.id last log := by
  have hv := List.mem_of_getElem? hn
  cases q with
  | start idea account =>
      obtain ⟨token, text, r, htoken, _, hd, hr⟩ := hw
      have hid : run.id = token := by
        obtain ⟨_, rfl⟩ := Run.describing_ok hd
        rcases hr with hr | ⟨summary, r', ha, hr⟩
        · exact (same_planned (.inl hr)).1
        · obtain ⟨_, rfl⟩ := Run.asked_ok ha
          exact (same_planned hr).1
      have hnone := List.all_eq_true.1 ht _ htoken
      refine .inl fun last hl => ?_
      rw [hid, Option.isNone_iff_eq_none.1 hnone] at hl
      cases hl
  | answer runId answers =>
      obtain ⟨r, hr, hp⟩ := hw
      have hid : run.id = runId := (same_planned hp).1.trans (h.read _ hv runId r hr)
      exact .inl (Inv.turn (state_of_planned hp) (ha ⟨runId, answers, rfl⟩) (hid ▸ ht))
  | reject runId feedback =>
      obtain ⟨r, r', r'', p, hr, hr', hr'', hp, hrun⟩ := hw
      obtain ⟨_, rfl⟩ := Run.rejected_ok hr'
      obtain ⟨_, rfl⟩ := Run.revising_ok hr''
      have hid : run.id = runId := (same_planned (.inr ⟨p, hp, hrun⟩)).1.trans (h.read _ hv runId r hr)
      have hs : run.state = .planReview := by
        obtain ⟨_, rfl⟩ := Run.proposed_ok hrun
        rfl
      exact .inl (Inv.turn (.inr hs) (fun hq => nomatch hs.symm.trans hq) (hid ▸ ht))
  | approve runId => exact absurd hw not_false
  | generate runId =>
      obtain ⟨r, hr, hput, he⟩ := hw
      obtain ⟨hl, hs⟩ := h.held _ hv runId r ⟨hr, hput⟩
      have hid : run.id = runId := (same_ended he).1.trans (id_of_latest hl)
      subst hid
      exact .inr ⟨r, hl, succeeds_ended hs he, hr, hput⟩

theorem generating_cons {runId : String} {x : Run} (h : Generating runId x (⟨c, a⟩ :: log)) :
    Generating runId x log ∨ (⟨c, a⟩ : (c : Call) × Except Failure c.Answer) = ⟨.generating runId, .ok x⟩ := by
  rcases List.mem_cons.1 h.1 with he | hm
  · exact .inr he.symm
  · exact .inl ⟨hm, fun y b hb => h.2 y b (List.mem_cons_of_mem _ hb)⟩

theorem stores_generating {runId : String} {x : Run} (h : Stores w ⟨.generating runId, .ok x⟩ run) :
    run = x ∧ run.id = runId ∧ run.state = .backendGeneration := by
  cases h with
  | generating _ ha =>
      obtain ⟨_, rfl⟩ := Run.generating_ok ha
      exact ⟨rfl, rfl, rfl⟩

theorem Inv.stores (h : Inv w vs) (hn : vs[n]? = some ⟨q, log, none⟩) (hg : guard q log c) (ha : asking loads q log c)
    (ht : InTime loads w vs ⟨q, log, none⟩ c r) (hs : Stores w ⟨c, a⟩ run) :
    (∀ last ∈ latest run.id w.trail, Succeeds run last) ∧
      ((∀ v ∈ vs, ∀ x, ¬ Generating run.id x v.log) ∨
        (∃ x, Generating run.id x log) ∧ ∀ runId x, ¬ Generating runId x (⟨c, a⟩ :: log)) := by
  have hfree (hl : ∀ last ∈ latest run.id w.trail, last.state ≠ .backendGeneration) :
      ∀ v ∈ vs, ∀ x, ¬ Generating run.id x v.log := by
    intro v hv x hx
    obtain ⟨hlast, hstate⟩ := h.held v hv run.id x hx
    exact hl x hlast hstate
  cases hs with
  | put run =>
      rcases h.writes hn hg ha ht with hl | ⟨last, hlast, hsucc, hgen⟩
      · exact ⟨fun last hm => (hl last hm).1, .inl (hfree fun last hm => (hl last hm).2)⟩
      · refine ⟨fun x hx => ?_, .inr ⟨⟨last, hgen⟩, fun runId x hx => hx.2 run (.ok run) List.mem_cons_self⟩⟩
        rw [hlast] at hx
        cases hx
        exact hsucc
  | @approve old run hm ha =>
      have hid : run.id = old.id := by
        obtain ⟨_, rfl⟩ := Run.approved_ok ha
        rfl
      have hl (last : Run) (hlast : last ∈ latest run.id w.trail) : last = old := by
        rw [hid, h.stored old hm] at hlast
        exact (Option.some.inj hlast).symm
      refine ⟨fun last hlast => hl last hlast ▸ succeeds_approved ha, .inl (hfree fun last hlast hs => ?_)⟩
      rw [hl last hlast, (Run.approved_ok ha).1] at hs
      cases hs
  | @generating old run hm ha =>
      have hid : run.id = old.id := by
        obtain ⟨_, rfl⟩ := Run.generating_ok ha
        rfl
      have hl (last : Run) (hlast : last ∈ latest run.id w.trail) : last = old := by
        rw [hid, h.stored old hm] at hlast
        exact (Option.some.inj hlast).symm
      refine ⟨fun last hlast => hl last hlast ▸ succeeds_generating ha, .inl (hfree fun last hlast hs => ?_)⟩
      rw [hl last hlast, (Run.generating_ok ha).1] at hs
      cases hs

theorem Inv.read_step (h : Inv w vs) (hn : vs[n]? = some ⟨q, log, none⟩) (hs : w.step c r = some (a, w')) :
    ∀ v ∈ vs.set n ⟨q, ⟨c, a⟩ :: log, none⟩, ∀ runId r, ⟨.get runId, .ok r⟩ ∈ v.log → r.id = runId := by
  intro v hv runId x hx
  rcases List.mem_or_eq_of_mem_set hv with hv | rfl
  · exact h.read v hv runId x hx
  · rcases List.mem_cons.1 hx with he | hx
    · cases he
      exact (World.step_read hs).2
    · exact h.read _ (List.mem_of_getElem? hn) runId x hx

theorem Inv.quiet (h : Inv w vs) (hn : vs[n]? = some ⟨q, log, none⟩) (hs : w.step c r = some (a, w'))
    (ht : w'.trail = w.trail) (hquiet : Quiet ⟨c, a⟩) :
    Inv w' (vs.set n ⟨q, ⟨c, a⟩ :: log, none⟩) := by
  have hold {runId : String} {x : Run} (hx : Generating runId x (⟨c, a⟩ :: log)) : Generating runId x log := by
    rcases generating_cons hx with hx | he
    · exact hx
    · cases he
      exact absurd hquiet not_false
  refine ⟨ht ▸ h.chain, latest_step h.stored hs, h.read_step hn hs, fun v hv runId x hx => ?_,
    fun runId => (h.one runId).set hn fun ⟨x, hx⟩ => ⟨x, hold hx⟩⟩
  rw [ht]
  rcases List.mem_or_eq_of_mem_set hv with hv | rfl
  · exact h.held v hv runId x hx
  · exact h.held _ (List.mem_of_getElem? hn) runId x (hold hx)

theorem Inv.stored_step (h : Inv w vs) (hn : vs[n]? = some ⟨q, log, none⟩) (hg : guard q log c)
    (ha : asking loads q log c) (ht : InTime loads w vs ⟨q, log, none⟩ c r) (hs : w.step c r = some (a, w'))
    (hst : Stores w ⟨c, a⟩ run) (htrail : w'.trail = run :: w.trail) :
    Inv w' (vs.set n ⟨q, ⟨c, a⟩ :: log, none⟩) := by
  obtain ⟨hsucc, hrest⟩ := h.stores hn hg ha ht hst
  have hv := List.mem_of_getElem? hn
  have hold {runId : String} {x : Run} (hid : run.id ≠ runId) (hx : Generating runId x (⟨c, a⟩ :: log)) :
      Generating runId x log := by
    rcases generating_cons hx with hx | he
    · exact hx
    · cases he
      exact absurd (stores_generating hst).2.1 hid
  refine ⟨fun id => ?_, latest_step h.stored hs, h.read_step hn hs, fun v hv' runId x hx => ?_, fun runId => ?_⟩
  · rw [htrail]
    by_cases hid : run.id = id
    · subst hid
      rw [versions_cons_self]
      exact List.isChain_cons.2 ⟨hsucc, h.chain run.id⟩
    · rw [versions_cons_ne hid]
      exact h.chain id
  · rw [htrail]
    by_cases hid : run.id = runId
    · subst hid
      rcases hrest with hfree | ⟨⟨y, hy⟩, hover⟩
      · rcases List.mem_or_eq_of_mem_set hv' with hv' | rfl
        · exact absurd hx (hfree v hv' x)
        · rcases generating_cons hx with hx | he
          · exact absurd hx (hfree _ hv x)
          · cases he
            obtain ⟨rfl, _, hstate⟩ := stores_generating hst
            exact ⟨latest_cons_self, hstate⟩
      · rcases (h.one run.id).others hn ⟨y, hy⟩ hv' with rfl | hne
        · exact absurd hx (hover run.id x)
        · exact absurd ⟨x, hx⟩ hne
    · rw [latest_cons_ne hid]
      rcases List.mem_or_eq_of_mem_set hv' with hv' | rfl
      · exact h.held v hv' runId x hx
      · exact h.held _ hv runId x (hold hid hx)
  · by_cases hid : run.id = runId
    · subst hid
      rcases hrest with hfree | ⟨_, hover⟩
      · exact atMostOne_set fun v hv ⟨x, hx⟩ => hfree v hv x hx
      · exact (h.one run.id).set hn fun ⟨x, hx⟩ => absurd hx (hover run.id x)
    · exact (h.one runId).set hn fun ⟨x, hx⟩ => ⟨x, hold hid hx⟩

theorem Inv.step (h : Inv w vs) (hn : vs[n]? = some ⟨q, log, none⟩) (hg : guard q log c) (ha : asking loads q log c)
    (ht : InTime loads w vs ⟨q, log, none⟩ c r) (hs : w.step c r = some (a, w')) :
    Inv w' (vs.set n ⟨q, ⟨c, a⟩ :: log, none⟩) := by
  rcases World.step_cases hs with ⟨htrail, _, hquiet⟩ | ⟨run, hst, htrail, _⟩
  · exact h.quiet hn hs htrail hquiet
  · exact h.stored_step hn hg ha ht hs hst htrail

end Steps

variable {settings : Settings} {loads : Bytes → Except String Json}

def protocol : Protocol (body settings loads) World.step anyRequest (InTime loads) where
  inv := Inv
  guard q log c := guard q log c ∧ asking loads q log c
  admits _ := admits
  post _ _ _ := True
  arrive {q w vs} _ h := by
    have hempty {runId : String} : ¬ ∃ r, Generating runId r ([] : TurnLog) := fun ⟨r, hr⟩ => nomatch hr.1
    refine ⟨h.chain, h.stored, fun v hv runId r hr => ?_, fun v hv runId r hr => ?_,
      fun runId => (h.one runId).concat hempty⟩
    · rcases mem_concat hv with hv | rfl
      · exact h.read v hv runId r hr
      · cases hr
    · rcases mem_concat hv with hv | rfl
      · exact h.held v hv runId r hr
      · exact absurd ⟨r, hr⟩ hempty
  follows {q} _ := ((keeps_body q).and (keeps_asking q)).mono fun _ _ _ => trivial
  sound h hn hg ht hs := ⟨h.step hn hg.1 hg.2 ht hs, trivial⟩
  leave {w vs i q log o} h hn _ := by
    have hold := List.mem_of_getElem? hn
    refine ⟨h.chain, h.stored, fun v hv runId r hr => ?_, fun v hv runId r hr => ?_,
      fun runId => (h.one runId).set hn id⟩
    · rcases List.mem_or_eq_of_mem_set hv with hv | rfl
      · exact h.read v hv runId r hr
      · exact h.read _ hold runId r hr
    · rcases List.mem_or_eq_of_mem_set hv with hv | rfl
      · exact h.held v hv runId r hr
      · exact h.held _ hold runId r hr

/-- While answers and rejections are written in time, the versions of every run
follow the table and an approved plan never changes. -/
theorem plans_frozen (settings : Settings) (loads : Bytes → Except String Json) (maxRuns : Nat) {c : Desk}
    (h : Reaches (body settings loads) World.step anyRequest (InTime loads) { store := { maxRuns := maxRuns } } c) :
    Orderly c.world.trail ∧ Frozen c.world.trail := by
  have hinv : Inv c.world c.views := by
    refine protocol.invariant ⟨?_, ?_, ?_, ?_, ?_⟩ h
    · exact fun id => List.IsChain.nil
    · exact fun x hx => absurd hx List.not_mem_nil
    · exact fun v hv => nomatch hv
    · exact fun v hv => nomatch hv
    · exact fun runId => atMostOne_nil
  refine ⟨fun id => (hinv.chain id).imp fun _ _ hs => hs.1, frozen_of_chain hinv.chain⟩

def empty : World := { store := { maxRuns := Runs.MAX_RUNS } }

def revised : List (Event Request Reply) :=
  reviewed ++ ([.start (.reject "r" "cheaper"), .step 1 (.swept []),
    .step 1 (.response ⟨200, planDocument "repair"⟩), .step 1 (.swept []), .finish 1, .start (.approve "r"),
    .step 2 (.sweptTwice [] []), .finish 2, .start (.generate "r"),
    .step 3 (.sweptTwice [] [])] : List (Event Request Reply))

theorem plans_frozen_revised : ∃ c, Reaches (body {} loadsPlan) World.step anyRequest (InTime loadsPlan) empty c ∧
    c.world.trail.map Run.state = [.backendGeneration, .planApproved, .planReview, .planReview] ∧
    Orderly c.world.trail ∧ Frozen c.world.trail := by
  have hrun : (run (body {} loadsPlan) World.step anyRequest (InTime loadsPlan) ⟨empty, []⟩ revised).any (fun c =>
      decide (c.world.trail.map Run.state = [.backendGeneration, .planApproved, .planReview, .planReview])) = true := by
    decide +kernel
  obtain ⟨c, hc, hp⟩ := reaches_of_run hrun
  exact ⟨c, hc, of_decide_eq_true hp, plans_frozen {} loadsPlan Runs.MAX_RUNS hc⟩

def rejectedLate : List (Event Request Reply) :=
  reviewed ++ ([.start (.reject "r" "cheaper"), .step 1 (.swept []), .start (.approve "r"), .step 2 (.sweptTwice [] []),
    .finish 2, .step 1 (.response ⟨200, planDocument "repair"⟩), .step 1 (.swept []),
    .finish 1] : List (Event Request Reply))

def stateAndPurpose (r : Run) : RunState × Option String := (r.state, r.plan.map (textOf · "purpose"))

theorem approved_plan_revised : ∃ c, Reaches (body {} loadsPlan) World.step anyRequest anyStep empty c ∧
    (versions "r" c.world.trail).map stateAndPurpose =
      [(.planReview, some "repair"), (.planApproved, some "rent"), (.planReview, some "rent")] ∧
    ¬ Orderly c.world.trail ∧ ¬ Frozen c.world.trail := by
  have hrun : (run (body {} loadsPlan) World.step anyRequest anyStep ⟨empty, []⟩ rejectedLate).any (fun c =>
      decide ((versions "r" c.world.trail).map stateAndPurpose =
        [(.planReview, some "repair"), (.planApproved, some "rent"), (.planReview, some "rent")])) = true := by
    decide +kernel
  obtain ⟨c, hc, hp⟩ := reaches_of_run hrun
  have hv := of_decide_eq_true hp
  refine ⟨c, hc, hv, fun horder => ?_, fun hfrozen => ?_⟩
  all_goals
    obtain ⟨later, vs, hvs, hlater, hrest⟩ := List.map_eq_cons_iff.1 hv
    obtain ⟨earlier, vs', rfl, hearlier, _⟩ := List.map_eq_cons_iff.1 hrest
    have hs : later.state = .planReview := congrArg Prod.fst hlater
    have hs' : earlier.state = .planApproved := congrArg Prod.fst hearlier
  · have hmoves := (List.isChain_cons_cons.1 (hvs ▸ horder "r")).1
    rw [hs, hs'] at hmoves
    exact nomatch settled_of_moves hmoves rfl
  · have hpair := (List.pairwise_cons.1 (hvs ▸ hfrozen "r")).1 earlier List.mem_cons_self
    rw [hs, hs'] at hpair
    exact (hpair rfl).2.2 rfl

end CodeZard.FrozenPlans
