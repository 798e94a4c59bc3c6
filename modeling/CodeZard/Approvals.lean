import CodeZard.Turns

namespace CodeZard.Approvals

open Programs Interleaving RunLogs Runs StreamScans Values Orchestration Turns

variable (id : String)

def approvalOf : (x : (c : Call) × Except Failure c.Answer) → Option Run
  | ⟨.approve runId, .ok run⟩ => if runId = id then some run else none
  | _ => none

def generationOf : (x : (c : Call) × Except Failure c.Answer) → Option Run
  | ⟨.generating runId, .ok run⟩ => if runId = id then some run else none
  | _ => none

def sendOf : (x : (c : Call) × Except Failure c.Answer) → Option String
  | ⟨.stream question, _⟩ => some question
  | _ => none

/-- What the successful approvals of a run have stored. -/
def approvals (vs : List InTurn) : List Run := vs.flatMap fun v => v.log.filterMap (approvalOf id)

def questionsOf (v : InTurn) : List String :=
  if v.request = .generate id then v.log.filterMap sendOf else []

/-- The questions that the backend agent was asked for a run. -/
def sends (vs : List InTurn) : List String := vs.flatMap (questionsOf id)

def counted (f : (x : (c : Call) × Except Failure c.Answer) → Option Run) (p : String) (v : InTurn) : Nat :=
  ((v.log.filterMap f).map prompt).count p

def gain (o : Option Run) (p : String) : Nat := (o.toList.map prompt).count p

def waiting (p : String) (s : RunStore) : Nat :=
  if s.runs.any (fun r => r.id = id && r.state = .planApproved && prompt r = p) then 1 else 0

section Counts

variable {id} {f : (x : (c : Call) × Except Failure c.Answer) → Option Run} {p : String} {q : Request} {log : TurnLog}
  {o : Option (Except Failure (Option Run))} {x : (c : Call) × Except Failure c.Answer} {s s' : RunStore} {run : Run}

theorem counted_cons : counted f p ⟨q, x :: log, o⟩ = gain (f x) p + counted f p ⟨q, log, o⟩ := by
  cases hf : f x with
  | none => simp [counted, gain, hf]
  | some run =>
      simp only [counted, gain, List.filterMap_cons, hf, List.map_cons, Option.toList_some, List.map_nil,
        List.count_cons, List.count_nil]
      omega

theorem gain_some : gain (some run) p = if prompt run = p then 1 else 0 := by
  simp [gain, List.count_cons]

theorem waiting_le (h : ∀ r ∈ s'.runs, r.id = id → r.state = .planApproved → prompt r = p → r ∈ s.runs) :
    waiting id p s' ≤ waiting id p s := by
  unfold waiting
  split
  · rename_i hw
    obtain ⟨r, hr, hp⟩ := List.any_eq_true.1 hw
    have hp' := hp
    simp only [Bool.and_eq_true, decide_eq_true_eq] at hp'
    rw [if_pos (List.any_eq_true.2 ⟨r, h r hr hp'.1.1 hp'.1.2 hp'.2, hp⟩)]
  · exact Nat.zero_le _

theorem waiting_eq_zero (h : ∀ r ∈ s.runs, r.id = id → r.state = .planApproved → prompt r ≠ p) :
    waiting id p s = 0 := by
  unfold waiting
  rw [if_neg]
  intro hw
  obtain ⟨r, hr, hp⟩ := List.any_eq_true.1 hw
  simp only [Bool.and_eq_true, decide_eq_true_eq] at hp
  exact h r hr hp.1.1 hp.1.2 hp.2

theorem waiting_pos (hr : run ∈ s.runs) (hid : run.id = id) (hs : run.state = .planApproved) :
    waiting id (prompt run) s = 1 :=
  if_pos (List.any_eq_true.2 ⟨run, hr, by simp [hid, hs]⟩)

end Counts

section Steps

variable {id} {w w' : World} {q : Request} {log : TurnLog} {c : Call} {r : Reply} {a : Except Failure c.Answer}

theorem gain_quiet (id p : String) {x : (c : Call) × Except Failure c.Answer} (h : Quiet x) :
    gain (generationOf id x) p = 0 ∧ gain (approvalOf id x) p = 0 := by
  rcases x with ⟨c, a⟩
  cases c with
  | approve runId | generating runId =>
      cases a with
      | error f => exact ⟨rfl, rfl⟩
      | ok run => exact absurd h not_false
  | _ => exact ⟨rfl, rfl⟩

theorem pairing_step (id p : String) (hg : guard q log c) (hs : w.step c r = some (a, w')) :
    gain (generationOf id ⟨c, a⟩) p + waiting id p w'.store ≤
      gain (approvalOf id ⟨c, a⟩) p + waiting id p w.store := by
  rcases World.step_cases hs with ⟨_, hsub, hquiet⟩ | ⟨run, hst, _, hmem⟩
  · obtain ⟨hgen, happ⟩ := gain_quiet id p hquiet
    have : waiting id p w'.store ≤ waiting id p w.store := waiting_le fun x hx _ _ _ => hsub x hx
    omega
  have hkept (h : run.id = id → run.state = .planApproved → prompt run ≠ p) :
      waiting id p w'.store ≤ waiting id p w.store := by
    refine waiting_le fun x hx hid hs hp => ?_
    rcases hmem x hx with rfl | ⟨hx, _⟩
    · exact absurd hp (h hid hs)
    · exact hx
  cases hst with
  | put run =>
      refine (Nat.le_of_eq (Nat.zero_add _)).trans ((hkept fun _ hs => ?_).trans (Nat.le_add_left _ _))
      rcases state_of_writes hg with (h | h) | h | h <;> rw [hs] at h <;> cases h
  | @approve old run hm ha =>
      obtain ⟨_, rfl⟩ := Run.approved_ok ha
      refine (Nat.le_of_eq (Nat.zero_add _)).trans ?_
      simp only [approvalOf]
      by_cases hp : old.id = id ∧ prompt { old with state := .planApproved } = p
      · rw [if_pos hp.1, gain_some, if_pos hp.2]
        unfold waiting
        split <;> omega
      · exact (hkept fun hid _ hp' => hp ⟨hid, hp'⟩).trans (Nat.le_add_left _ _)
  | @generating old run hm ha =>
      obtain ⟨hold, rfl⟩ := Run.generating_ok ha
      refine le_trans ?_ (Nat.le_of_eq (Nat.zero_add _).symm)
      simp only [generationOf]
      by_cases hp : old.id = id ∧ prompt { old with state := .backendGeneration } = p
      · obtain ⟨hid, hp⟩ := hp
        have hbefore : waiting id (prompt old) w.store = 1 := waiting_pos hm hid hold
        have hafter : waiting id p w'.store = 0 := by
          refine waiting_eq_zero fun x hx hxid hxs => ?_
          rcases hmem x hx with rfl | ⟨_, hne⟩
          · cases hxs
          · exact absurd (hxid.trans hid.symm) hne
        have hsame : prompt old = p := hp
        rw [if_pos hid, gain_some, if_pos hp, hafter, ← hsame, hbefore]
      · have hz : gain (if old.id = id then some { old with state := .backendGeneration } else none) p = 0 := by
          split
          · rw [gain_some, if_neg fun h => hp ⟨‹_›, h⟩]
          · rfl
        rw [hz, Nat.zero_add]
        exact hkept fun _ hs => by cases hs

end Steps

/-- Every generation has its own approval, and every question its generation. -/
structure Inv (w : World) (vs : List InTurn) : Prop where
  paired : ∀ p, (vs.map (counted (generationOf id) p)).sum + waiting id p w.store ≤
    (vs.map (counted (approvalOf id) p)).sum
  asked : ∀ v ∈ vs, ∀ p, (questionsOf id v).count p ≤ counted (generationOf id) p v
  stored : ∀ v ∈ vs, ∀ run, ⟨.approve id, .ok run⟩ ∈ v.log → run.state = .planApproved ∧ run ∈ w.trail

section Invariant

variable {id} {w w' : World} {vs : List InTurn} {n : Nat} {q : Request} {log : TurnLog} {c : Call} {r : Reply}
  {a : Except Failure c.Answer}

theorem approved_step {run : Run} (hs : w.step (.approve id) r = some (.ok run, w')) :
    run.state = .planApproved ∧ run ∈ w'.trail := by
  rcases World.step_cases hs with ⟨_, _, hquiet⟩ | ⟨x, hst, ht, _⟩
  · exact absurd hquiet not_false
  · cases hst with
    | approve _ ha =>
        obtain ⟨_, rfl⟩ := Run.approved_ok ha
        rw [ht]
        exact ⟨rfl, List.mem_cons_self⟩

theorem counted_pos {f : (x : (c : Call) × Except Failure c.Answer) → Option Run} {x : (c : Call) × Except Failure c.Answer}
    {run : Run} {v : InTurn} (hx : x ∈ v.log) (hf : f x = some run) : 0 < counted f (prompt run) v :=
  List.count_pos_iff.2 (List.mem_map.2 ⟨run, List.mem_filterMap.2 ⟨x, hx, hf⟩, rfl⟩)

theorem asked_step (h : ∀ p, (questionsOf id ⟨q, log, none⟩).count p ≤ counted (generationOf id) p ⟨q, log, none⟩)
    (hg : guard q log c) (p : String) :
    (questionsOf id ⟨q, ⟨c, a⟩ :: log, none⟩).count p ≤ counted (generationOf id) p ⟨q, ⟨c, a⟩ :: log, none⟩ := by
  rw [counted_cons]
  by_cases hq : q = .generate id
  swap
  · rw [questionsOf, if_neg hq]
    exact Nat.zero_le _
  by_cases hc : ∃ question, c = .stream question
  · obtain ⟨question, rfl⟩ := hc
    obtain ⟨runId, run, hrun, hm, rfl, hno⟩ := hg
    obtain rfl : runId = id := by
      rw [hq] at hrun
      cases hrun
      rfl
    have hnone : log.filterMap sendOf = [] := by
      rw [List.filterMap_eq_nil_iff]
      rintro ⟨k, b⟩ hx
      cases k with
      | stream p => exact absurd hx (hno p b)
      | _ => rfl
    have hone : (questionsOf runId ⟨q, ⟨.stream (prompt run), a⟩ :: log, none⟩).count p =
        if prompt run = p then 1 else 0 := by
      simp [questionsOf, hq, sendOf, hnone, List.count_cons]
    rw [hone]
    split
    · rename_i hp
      have := counted_pos (f := generationOf runId) (v := ⟨q, log, none⟩) hm (if_pos rfl)
      rw [hp] at this
      omega
    · exact Nat.zero_le _
  · have hsame : questionsOf id ⟨q, ⟨c, a⟩ :: log, none⟩ = questionsOf id ⟨q, log, none⟩ := by
      push Not at hc
      cases c with
      | stream question => exact absurd rfl (hc question)
      | _ => rfl
    rw [hsame]
    exact (h p).trans (Nat.le_add_left _ _)

theorem Inv.step (h : Inv id w vs) (hn : vs[n]? = some ⟨q, log, none⟩) (hg : guard q log c)
    (hs : w.step c r = some (a, w')) : Inv id w' (vs.set n ⟨q, ⟨c, a⟩ :: log, none⟩) := by
  refine ⟨fun p => ?_, fun v hv p => ?_, fun v hv run hm => ?_⟩
  · have hgen := sum_set (f := counted (generationOf id) p) hn ⟨q, ⟨c, a⟩ :: log, none⟩
    have happ := sum_set (f := counted (approvalOf id) p) hn ⟨q, ⟨c, a⟩ :: log, none⟩
    rw [counted_cons] at hgen happ
    have := pairing_step id p hg hs
    have := h.paired p
    omega
  · rcases List.mem_or_eq_of_mem_set hv with hv | rfl
    · exact h.asked v hv p
    · exact asked_step (h.asked _ (List.mem_of_getElem? hn)) hg p
  · rcases List.mem_or_eq_of_mem_set hv with hv | rfl
    · exact (h.stored v hv run hm).imp_right (World.trail_step hs run)
    · rcases List.mem_cons.1 hm with he | hm
      · cases he
        exact approved_step hs
      · exact (h.stored _ (List.mem_of_getElem? hn) run hm).imp_right (World.trail_step hs run)

end Invariant

variable {settings : Settings} {loads : Bytes → Except String Json}

def protocol : Protocol (body settings loads) World.step anyRequest anyStep where
  inv := Inv id
  guard := guard
  admits _ := admits
  post _ _ _ := True
  arrive {q w vs} _ h := by
    refine ⟨fun p => by simpa [counted] using h.paired p, fun v hv p => ?_, fun v hv run hm => ?_⟩
    · rcases List.mem_append.1 hv with hv | hv
      · exact h.asked v hv p
      · obtain rfl := List.mem_singleton.1 hv
        simp [questionsOf]
    · rcases List.mem_append.1 hv with hv | hv
      · exact h.stored v hv run hm
      · obtain rfl := List.mem_singleton.1 hv
        cases hm
  follows {q} _ := keeps_body q
  sound h hn hg _ hs := ⟨h.step hn hg hs, trivial⟩
  leave {w vs i q log o} h hn _ := by
    refine ⟨fun p => ?_, fun v hv p => ?_, fun v hv run hm => ?_⟩
    · have hgen := sum_set (f := counted (generationOf id) p) hn ⟨q, log, some o⟩
      have happ := sum_set (f := counted (approvalOf id) p) hn ⟨q, log, some o⟩
      have hg : counted (generationOf id) p ⟨q, log, some o⟩ = counted (generationOf id) p ⟨q, log, none⟩ := rfl
      have ha : counted (approvalOf id) p ⟨q, log, some o⟩ = counted (approvalOf id) p ⟨q, log, none⟩ := rfl
      have := h.paired p
      omega
    · rcases List.mem_or_eq_of_mem_set hv with hv | rfl
      · exact h.asked v hv p
      · exact h.asked ⟨q, log, none⟩ (List.mem_of_getElem? hn) p
    · rcases List.mem_or_eq_of_mem_set hv with hv | rfl
      · exact h.stored v hv run hm
      · exact h.stored ⟨q, log, none⟩ (List.mem_of_getElem? hn) run hm

/-- Each question that the backend agent is asked for a run is the prompt of a
plan that an approval of that run has stored, and no approval serves twice. -/
theorem generations_approved (settings : Settings) (loads : Bytes → Except String Json) (id : String) {w : World}
    (hw : ∀ run ∈ w.store.runs, run.id = id → run.state ≠ .planApproved) {c : Desk}
    (h : Reaches (body settings loads) World.step anyRequest anyStep w c) :
    (sends id c.views).Subperm ((approvals id c.views).map prompt) ∧
      (sends id c.views).length ≤ (approvals id c.views).length ∧
      ∀ run ∈ approvals id c.views, run.state = .planApproved ∧ run ∈ c.world.trail := by
  have hinv : Inv id c.world c.views := by
    refine (protocol id).invariant (w := w) ⟨fun p => ?_, fun _ hv => (nomatch hv), fun _ hv => nomatch hv⟩ h
    have hz : waiting id p w.store = 0 := waiting_eq_zero fun x hx hid hs => absurd hs (hw x hx hid)
    simp [hz]
  have hsub : (sends id c.views).Subperm ((approvals id c.views).map prompt) := by
    rw [List.subperm_ext_iff]
    intro p _
    have hsends : (sends id c.views).count p = (c.views.map fun v => (questionsOf id v).count p).sum := by
      rw [sends, List.count_flatMap]
      rfl
    have happrovals : ((approvals id c.views).map prompt).count p = (c.views.map (counted (approvalOf id) p)).sum := by
      rw [approvals, List.map_flatMap, List.count_flatMap]
      rfl
    rw [hsends, happrovals]
    calc (c.views.map fun v => (questionsOf id v).count p).sum
        ≤ (c.views.map (counted (generationOf id) p)).sum := List.sum_le_sum fun v hv => hinv.asked v hv p
      _ ≤ (c.views.map (counted (approvalOf id) p)).sum := (Nat.le_add_right _ _).trans (hinv.paired p)
  refine ⟨hsub, by simpa using hsub.length_le, fun run hr => ?_⟩
  obtain ⟨v, hv, hr⟩ := List.mem_flatMap.1 hr
  obtain ⟨⟨k, b⟩, hx, hr⟩ := List.mem_filterMap.1 hr
  cases k with
  | approve runId =>
      cases b with
      | error f => cases hr
      | ok x =>
          simp only [approvalOf] at hr
          split at hr
          · rename_i hid
            cases hr
            subst hid
            exact hinv.stored v hv _ hx
          · cases hr
  | _ => cases hr

def approvedOnce : List (Event Request Reply) :=
  reviewed ++ ([.start (.approve "r"), .step 1 (.sweptTwice [] []), .finish 1, .start (.generate "r"),
    .step 2 (.sweptTwice [] []), .step 2 (.streaming [])] : List (Event Request Reply))

theorem generations_approved_once : ∃ c, Reaches (body {} loadsPlan) World.step anyRequest anyStep {} c ∧
    (sends "r" c.views).length = 1 ∧ (sends "r" c.views).Subperm ((approvals "r" c.views).map prompt) := by
  have hrun : (run (body {} loadsPlan) World.step anyRequest anyStep ⟨{}, []⟩ approvedOnce).any (fun c =>
      (sends "r" c.views).length == 1) = true := by decide +kernel
  obtain ⟨c, hc, hp⟩ := reaches_of_run hrun
  exact ⟨c, hc, beq_iff_eq.1 hp, (generations_approved {} loadsPlan "r" (fun _ hr => absurd hr List.not_mem_nil) hc).1⟩

end CodeZard.Approvals
