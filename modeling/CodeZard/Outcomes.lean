import CodeZard.Generations

namespace CodeZard.Outcomes

open Programs Interleaving RunLogs Runs StreamScans Values Orchestration Turns Generations

def Uncharged (log : TurnLog) : Prop := ∀ account id usage a, ⟨.charge account id usage, a⟩ ∉ log

def smooth : ((c : Call) × Except Failure c.Answer) → Prop
  | ⟨.stream _, .error _⟩ | ⟨.anext, .error _⟩ | ⟨.yield _, .error _⟩ | ⟨.aclose, .error _⟩ => False
  | _ => True

/-- The stream has ended by itself, and this was found in it. -/
structure Scanned (loads : Bytes → Except String Json) (log : TurnLog) (scan : Scan) : Prop where
  smooth : ∀ x ∈ log, smooth x
  found : ∃ question chunks, ⟨.stream question, .ok chunks⟩ ∈ log ∧
    feedAll (fun line => (loads line).toOption) chunks = .ok scan

def billedBy (r : Run) : Except Failure (Option Int) → Int
  | .ok (some tokens) => tokens.natAbs
  | _ => r.charged

/-- How a generation has gone: no project, or one that is delivered for nothing
or for what the charge was answered. -/
inductive Outcome (loads : Bytes → Except String Json) (r : Run) (log : TurnLog) : Prop
  | lost (hs : ∀ scan, Scanned loads log scan → scan.artifact = "") (hc : Uncharged log)
      (hp : ∀ run a, ⟨.put run, a⟩ ∈ log → run.state = .failed ∧ run.charged = r.charged)
  | free {scan : Scan} (hs : ∀ x, Scanned loads log x ↔ x = scan) (hu : r.account = "" ∨ scan.usage.isEmpty = true)
      (hc : Uncharged log) (hput : ∃ run, ⟨.put run, .ok run⟩ ∈ log)
      (hp : ∀ run a, ⟨.put run, a⟩ ∈ log → run.state = .zipReady ∧ run.charged = r.charged)
  | charged {scan : Scan} {a : Except Failure (Option Int)} (hs : ∀ x, Scanned loads log x ↔ x = scan)
      (ha : scan.artifact ≠ "") (hu : scan.usage.isEmpty = false)
      (hc : ∀ account id usage b, ⟨.charge account id usage, b⟩ ∈ log ↔
        account = r.account ∧ id = r.id ∧ usage = scan.usage ∧ b = a)
      (hput : (∃ run, ⟨.put run, .ok run⟩ ∈ log) ↔ ∀ f, a = .error f → f.isException = true)
      (hp : ∀ run a', ⟨.put run, a'⟩ ∈ log → run.state = .zipReady ∧ run.charged = billedBy r a)

def guard (q : Request) (log : TurnLog) : Call → Prop
  | .charge _ id _ => q = .generate id ∧ (∃ r, ⟨.generating id, .ok r⟩ ∈ log) ∧ Uncharged log
  | .generating _ => log = []
  | _ => True

/-- The stream that the request reads, as long as nothing is stored or charged. -/
structure Reading (chunks : List Bytes) (log : TurnLog) : Prop where
  stream : ∃ question, ⟨.stream question, .ok chunks⟩ ∈ log
  only : ∀ question a, ⟨.stream question, a⟩ ∈ log → a = .ok chunks
  unstored : ∀ run a, ⟨.put run, a⟩ ∉ log
  uncharged : Uncharged log

def plain : Call → Bool
  | .stream _ | .put _ | .charge .. => false
  | _ => true

section Readings

variable {loads : Bytes → Except String Json} {q : Request} {log : TurnLog} {chunks : List Bytes} {r : Run} {scan : Scan}

theorem uncharged_cons {c : Call} {a : Except Failure c.Answer} (h : Uncharged log) (hc : ∀ x y z, c ≠ .charge x y z) :
    Uncharged (⟨c, a⟩ :: log) := by
  intro account id usage b hm
  rcases List.mem_cons.1 hm with he | hm
  · cases he
    exact hc _ _ _ rfl
  · exact h _ _ _ _ hm

theorem Reading.cons {c : Call} {a : Except Failure c.Answer} (h : Reading chunks log) (hc : plain c = true) :
    Reading chunks (⟨c, a⟩ :: log) := by
  refine ⟨?_, fun question b hm => ?_, put_notMem_cons h.unstored ?_, uncharged_cons h.uncharged ?_⟩
  · obtain ⟨question, hq⟩ := h.stream
    exact ⟨question, List.mem_cons_of_mem _ hq⟩
  · rcases List.mem_cons.1 hm with he | hm
    · cases he
      cases hc
    · exact h.only _ _ hm
  · rintro x rfl
    cases hc
  · rintro x y z rfl
    cases hc

theorem Reading.scanned_iff (h : Reading chunks log) : Scanned loads log scan ↔
    (∀ x ∈ log, smooth x) ∧ feedAll (fun line => (loads line).toOption) chunks = .ok scan := by
  constructor
  · rintro ⟨hs, question, chunks', hm, hf⟩
    cases h.only _ _ hm
    exact ⟨hs, hf⟩
  · rintro ⟨hs, hf⟩
    obtain ⟨question, hm⟩ := h.stream
    exact ⟨hs, question, chunks, hm, hf⟩

theorem smooth_cons {x : (c : Call) × Except Failure c.Answer} :
    (∀ y ∈ x :: log, smooth y) ↔ smooth x ∧ ∀ y ∈ log, smooth y :=
  List.forall_mem_cons

theorem keeps_feeding (rest : List Bytes) (scan : Scan) (h : Reading chunks log) (hs : ∀ x ∈ log, smooth x) :
    Keeps (guard q) answers (fun o log => Reading chunks log ∧ match o with
      | .ok scan' => (∀ x ∈ log, smooth x) ∧ rest.foldlM (Scan.feed fun line => (loads line).toOption) scan = .ok scan'
      | .error _ => (∀ x ∈ log, smooth x) →
          ∀ scan', rest.foldlM (Scan.feed fun line => (loads line).toOption) scan ≠ .ok scan')
      (feeding loads r rest scan) log := by
  induction rest generalizing scan log with
  | nil =>
      refine keeps_perform_bind.2 ⟨trivial, fun a _ => ?_⟩
      cases a with
      | error f => exact ⟨h.cons rfl, fun hall => absurd (smooth_cons.1 hall).1 not_false⟩
      | ok _ => exact ⟨h.cons rfl, smooth_cons (x := ⟨.anext, .ok ()⟩).2 ⟨trivial, hs⟩, rfl⟩
  | cons chunk rest ih =>
      refine keeps_perform_bind.2 ⟨trivial, fun a _ => ?_⟩
      cases a with
      | error f => exact ⟨h.cons rfl, fun hall => absurd (smooth_cons.1 hall).1 not_false⟩
      | ok _ =>
          refine keeps_perform_bind.2 ⟨trivial, fun a ha => ?_⟩
          cases ha
          refine keeps_perform_bind.2 ⟨trivial, fun a _ => ?_⟩
          have h : Reading chunks (⟨.logAppend r.id chunk, .ok ()⟩ :: ⟨.anext, .ok ()⟩ :: log) := (h.cons rfl).cons rfl
          cases a with
          | error f => exact ⟨h.cons rfl, fun hall => absurd (smooth_cons.1 hall).1 not_false⟩
          | ok _ =>
              have h := h.cons (c := .yield chunk) (a := .ok ()) rfl
              have hs := smooth_cons (x := ⟨.anext, .ok ()⟩).2 ⟨trivial, hs⟩
              have hs := smooth_cons (x := ⟨.logAppend r.id chunk, .ok ()⟩).2 ⟨trivial, hs⟩
              have hs := smooth_cons (x := ⟨.yield chunk, .ok ()⟩).2 ⟨trivial, hs⟩
              refine keeps_bind.2 (keeps_ofExcept.2 ?_)
              rw [List.foldlM_cons]
              cases scan.feed (fun line => (loads line).toOption) chunk with
              | error f =>
                  refine ⟨h, fun _ scan' hf => ?_⟩
                  cases hf
              | ok scan' => exact ih scan' h hs

/-- Nothing came of the stream, and if anything is stored then that. -/
structure Lost (loads : Bytes → Except String Json) (r : Run) (log : TurnLog) : Prop where
  broken : ∀ scan, ¬ Scanned loads log scan
  uncharged : Uncharged log
  stored : ∀ run a, ⟨.put run, a⟩ ∈ log → run.state = .failed ∧ run.charged = r.charged

theorem Lost.outcome (h : Lost loads r log) : Outcome loads r log :=
  .lost (fun scan hs => absurd hs (h.broken scan)) h.uncharged h.stored

theorem Lost.cons {c : Call} {a : Except Failure c.Answer} (h : Lost loads r log) (hc : plain c = true) :
    Lost loads r (⟨c, a⟩ :: log) := by
  refine ⟨fun scan hs => ?_, uncharged_cons h.uncharged ?_, fun run b hm => ?_⟩
  · obtain ⟨hsmooth, question, chunks, hm, hf⟩ := hs
    rcases List.mem_cons.1 hm with he | hm
    · cases he
      cases hc
    · exact h.broken scan ⟨(smooth_cons.1 hsmooth).2, question, chunks, hm, hf⟩
  · rintro x y z rfl
    cases hc
  · rcases List.mem_cons.1 hm with he | hm
    · cases he
      cases hc
    · exact h.stored _ _ hm

theorem Reading.lost (h : Reading chunks log)
    (hb : (∀ x ∈ log, smooth x) → ∀ scan, feedAll (fun line => (loads line).toOption) chunks ≠ .ok scan) :
    Lost loads r log := by
  refine ⟨fun scan hs => ?_, h.uncharged, fun run a hm => absurd hm (h.unstored run a)⟩
  obtain ⟨hsmooth, hf⟩ := h.scanned_iff.1 hs
  exact hb hsmooth scan hf

theorem failed_eq (hr : r.state = .backendGeneration) (error : String) :
    r.failed error = .ok { r with state := .failed, error := error } := by
  simp [Run.failed, Run.moved, moves, RunState.failable, hr]

theorem delivered_eq (hr : r.state = .backendGeneration) (artifactId : String) :
    r.delivered artifactId = .ok { r with state := .zipReady, artifactId := artifactId } := by
  simp [Run.delivered, Run.moved, moves, transitions, hr]

theorem Lost.put {run : Run} {a : Except Failure Run} (h : Lost loads r log) (hs : run.state = .failed)
    (hc : run.charged = r.charged) : Lost loads r (⟨.put run, a⟩ :: log) := by
  refine ⟨fun scan hsc => ?_, uncharged_cons h.uncharged (by simp), fun run' b hm => ?_⟩
  · obtain ⟨hsmooth, question, chunks, hm, hf⟩ := hsc
    rcases List.mem_cons.1 hm with he | hm
    · cases he
    · exact h.broken scan ⟨(smooth_cons.1 hsmooth).2, question, chunks, hm, hf⟩
  · rcases List.mem_cons.1 hm with he | hm
    · cases he
      exact ⟨hs, hc⟩
    · exact h.stored _ _ hm

theorem keeps_failing (f : Failure) (hr : r.state = .backendGeneration) (h : Lost loads r log) :
    Keeps (guard q) answers (fun o log => (∀ scan, o ≠ .ok scan) ∧ Lost loads r log) (failing r f) log := by
  unfold failing
  cases lost f with
  | none => exact ⟨by simp, h⟩
  | some error =>
      refine keeps_bind.2 (keeps_ofExcept.2 ?_)
      rw [failed_eq hr]
      refine keeps_perform_bind.2 ⟨trivial, fun a ha => ?_⟩
      cases ha
      exact ⟨by simp, h.put rfl rfl⟩

end Readings

section Endings

variable {settings : Settings} {loads : Bytes → Except String Json} {log : TurnLog} {chunks : List Bytes} {r : Run}
  {scan : Scan}

/-- The stream has been read to its end and closed. -/
structure Heard (loads : Bytes → Except String Json) (chunks : List Bytes) (scan : Scan) (log : TurnLog) : Prop where
  reading : Reading chunks log
  smooth : ∀ x ∈ log, smooth x
  found : feedAll (fun line => (loads line).toOption) chunks = .ok scan

theorem Heard.scanned_iff (h : Heard loads chunks scan log) (x : Scan) : Scanned loads log x ↔ x = scan := by
  rw [h.reading.scanned_iff, h.found]
  constructor
  · rintro ⟨_, he⟩
    exact (Except.ok.inj he).symm
  · rintro rfl
    exact ⟨h.smooth, rfl⟩

theorem scanned_cons {c : Call} {a : Except Failure c.Answer} (hc : ∀ question, c ≠ .stream question)
    (hs : smooth ⟨c, a⟩) (x : Scan) : Scanned loads (⟨c, a⟩ :: log) x ↔ Scanned loads log x := by
  constructor
  · rintro ⟨hsmooth, question, chunks, hm, hf⟩
    rcases List.mem_cons.1 hm with he | hm
    · cases he
      exact absurd rfl (hc question)
    · exact ⟨(smooth_cons.1 hsmooth).2, question, chunks, hm, hf⟩
  · rintro ⟨hsmooth, question, chunks, hm, hf⟩
    exact ⟨smooth_cons.2 ⟨hs, hsmooth⟩, question, chunks, List.mem_cons_of_mem _ hm, hf⟩

theorem scanned_put (run : Run) (a : Except Failure Run) (x : Scan) :
    Scanned loads (⟨.put run, a⟩ :: log) x ↔ Scanned loads log x :=
  scanned_cons (c := .put run) (by simp) trivial x

theorem scanned_charge (account id : String) (usage : Amounts.Usage) (a : Except Failure (Option Int)) (x : Scan) :
    Scanned loads (⟨.charge account id usage, a⟩ :: log) x ↔ Scanned loads log x :=
  scanned_cons (c := .charge account id usage) (by simp) trivial x

theorem put_eq {run run' : Run} {a b : Except Failure Run} (h : ∀ run a, ⟨.put run, a⟩ ∉ log)
    (hm : ⟨.put run', b⟩ ∈ (⟨.put run, a⟩ :: log : TurnLog)) : run' = run := by
  rcases List.mem_cons.1 hm with he | hm
  · cases he
    rfl
  · exact absurd hm (h _ _)

def deliveredRun (r : Run) (artifactId : String) : Run := { r with state := .zipReady, artifactId := artifactId }

section Charges

variable {a : Except Failure (Option Int)} (h : Heard loads chunks scan log)

include h

theorem charges_iff (account id : String) (usage : Amounts.Usage) (b : Except Failure (Option Int)) :
    ⟨.charge account id usage, b⟩ ∈ (⟨.charge r.account r.id scan.usage, a⟩ :: log : TurnLog) ↔
      account = r.account ∧ id = r.id ∧ usage = scan.usage ∧ b = a := by
  constructor
  · intro hm
    rcases List.mem_cons.1 hm with he | hm
    · cases he
      exact ⟨rfl, rfl, rfl, rfl⟩
    · exact absurd hm (h.reading.uncharged _ _ _ _)
  · rintro ⟨rfl, rfl, rfl, rfl⟩
    exact List.mem_cons_self

theorem unstored_charge (run : Run) (b : Except Failure Run) :
    ⟨.put run, b⟩ ∉ (⟨.charge r.account r.id scan.usage, a⟩ :: log : TurnLog) :=
  put_notMem_cons h.reading.unstored (by simp) run b

theorem outcome_broken (ha : scan.artifact ≠ "") (hu : scan.usage.isEmpty = false)
    (hex : ¬ ∀ f, a = .error f → f.isException = true) :
    Outcome loads r (⟨.charge r.account r.id scan.usage, a⟩ :: log) := by
  refine .charged (fun x => ?_) ha hu (charges_iff h) (iff_of_false ?_ hex) fun run b hm => ?_
  · rw [scanned_charge, h.scanned_iff]
  · rintro ⟨run, hm⟩
    exact unstored_charge h run _ hm
  · exact absurd hm (unstored_charge h run b)

theorem outcome_billed {run : Run} (ha : scan.artifact ≠ "") (hu : scan.usage.isEmpty = false)
    (hex : ∀ f, a = .error f → f.isException = true) (hs : run.state = .zipReady) (hc : run.charged = billedBy r a) :
    Outcome loads r (⟨.put run, .ok run⟩ :: ⟨.charge r.account r.id scan.usage, a⟩ :: log) := by
  refine .charged (fun x => ?_) ha hu (fun account id usage b => ?_) (iff_of_true ⟨run, List.mem_cons_self⟩ hex)
    fun run' b hm => ?_
  · rw [scanned_put, scanned_charge, h.scanned_iff]
  · rw [← charges_iff h, List.mem_cons]
    refine or_iff_right fun he => ?_
    cases he
  · rw [put_eq (unstored_charge h) hm]
    exact ⟨hs, hc⟩

end Charges

theorem keeps_delivered (hm : settings.metered = true) (ha : scan.artifact ≠ "")
    (hg : ⟨.generating r.id, .ok r⟩ ∈ log) (h : Heard loads chunks scan log) :
    Keeps (guard (.generate r.id)) answers (fun _ log => Outcome loads r log)
      ((charge settings (deliveredRun r scan.artifact) scan.usage).bind fun billed =>
        (ask (.put billed)).bind fun _ => .ret ()) log := by
  refine keeps_bind.2 ?_
  unfold charge
  have hacc : (deliveredRun r scan.artifact).account = r.account := rfl
  by_cases hfree : r.account = "" ∨ scan.usage.isEmpty = true
  · have hcond : (!settings.metered || (deliveredRun r scan.artifact).account = "" || scan.usage.isEmpty) = true := by
      simpa [hm, hacc] using hfree
    rw [if_pos hcond]
    refine keeps_perform_bind.2 ⟨trivial, fun a hput => ?_⟩
    cases hput
    refine .free (fun x => ?_) hfree (uncharged_cons h.reading.uncharged (by simp)) ⟨_, List.mem_cons_self⟩ fun run a hm => ?_
    · rw [scanned_put, h.scanned_iff]
    · rw [put_eq h.reading.unstored hm]
      exact ⟨rfl, rfl⟩
  · have hcond : ¬ (!settings.metered || (deliveredRun r scan.artifact).account = "" || scan.usage.isEmpty) = true := by
      simpa [hm, hacc] using hfree
    have hu : scan.usage.isEmpty = false := by simpa using fun he => hfree (.inr he)
    rw [if_neg hcond]
    refine keeps_bind.2 (keeps_rescue.2 (keeps_perform.2 ⟨⟨rfl, ⟨r, hg⟩, h.reading.uncharged⟩, fun a _ => ?_⟩))
    have hput {run : Run} (hex : ∀ f, a = .error f → f.isException = true) (hs : run.state = .zipReady)
        (hc : run.charged = billedBy r a) : Keeps (guard (.generate r.id)) answers (fun _ log => Outcome loads r log)
        ((ask (.put run)).bind fun _ => .ret ()) (⟨.charge r.account r.id scan.usage, a⟩ :: log) := by
      refine keeps_perform_bind.2 ⟨trivial, fun b hb => ?_⟩
      cases hb
      exact outcome_billed h ha hu hex hs hc
    cases a with
    | ok tokens => cases tokens <;> exact hput (by simp) rfl rfl
    | error f =>
        dsimp only
        split
        · rename_i hf
          refine hput (fun f' he => ?_) rfl rfl
          cases he
          exact hf
        · rename_i hf
          exact outcome_broken h ha hu fun hex => hf (hex f rfl)

theorem keeps_ended (hm : settings.metered = true) (hr : r.state = .backendGeneration)
    (hg : ⟨.generating r.id, .ok r⟩ ∈ log) (h : Heard loads chunks scan log) :
    Keeps (guard (.generate r.id)) answers (fun _ log => Outcome loads r log)
      (if scan.artifact = "" then
        (ofExcept (r.failed "the agent produced no artifact")).bind fun failed =>
          (ask (.put failed)).bind fun _ => .ret ()
      else (ofExcept (r.delivered scan.artifact)).bind fun delivered =>
        (charge settings delivered scan.usage).bind fun billed =>
          (ask (.put billed)).bind fun _ => .ret ()) log := by
  split
  · rename_i ha
    rw [failed_eq hr]
    refine keeps_perform_bind.2 ⟨trivial, fun a hput => ?_⟩
    cases hput
    refine .lost (fun x hx => ?_) (uncharged_cons h.reading.uncharged (by simp)) fun run a hm => ?_
    · rw [scanned_put, h.scanned_iff] at hx
      rw [hx, ha]
    · rw [put_eq h.reading.unstored hm]
      exact ⟨rfl, rfl⟩
  · rename_i ha
    rw [delivered_eq hr]
    exact keeps_delivered hm ha hg h

theorem keeps_read (hr : r.state = .backendGeneration) (hg : ⟨.generating r.id, .ok r⟩ ∈ log) (h : Reading chunks log)
    (hs : ∀ x ∈ log, smooth x) :
    Keeps (guard (.generate r.id)) answers (fun o log => match o with
      | .ok scan => ⟨.generating r.id, .ok r⟩ ∈ log ∧ Heard loads chunks scan log
      | .error _ => Outcome loads r log)
      (((feeding loads r chunks {}).rescue (failing r)).ensuring do
        ask .aclose
        ask (.logEnd r.id)) log := by
  have hfeed : Keeps (guard (.generate r.id)) answers _ (feeding loads r chunks {}) log := (keeps_feeding chunks {} h hs).suffix
  refine keeps_ensuring.2 (keeps_rescue.2 (hfeed.mono fun o log' ho => ?_))
  obtain ⟨⟨h, ho⟩, hsuffix⟩ := ho
  have hg := hsuffix.subset hg
  cases o with
  | ok scan =>
      refine keeps_perform_bind.2 ⟨trivial, fun a _ => ?_⟩
      cases a with
      | error f => exact ((h.cons rfl).lost fun hall => absurd (smooth_cons.1 hall).1 id).outcome
      | ok _ =>
          refine (keeps_perform (c := Call.logEnd r.id)).2 ⟨trivial, fun a ha => ?_⟩
          cases ha
          refine ⟨List.mem_cons_of_mem _ (List.mem_cons_of_mem _ hg), (h.cons rfl).cons rfl, ?_, ho.2⟩
          exact smooth_cons.2 ⟨trivial, smooth_cons.2 ⟨trivial, ho.1⟩⟩
  | error f =>
      refine (keeps_failing f hr (h.lost ho)).mono fun o log hfail => ?_
      obtain ⟨hno, hlost⟩ := hfail
      cases o with
      | ok scan => exact absurd rfl (hno scan)
      | error f =>
          refine keeps_perform_bind.2 ⟨trivial, fun a _ => ?_⟩
          cases a with
          | error f => exact (hlost.cons rfl).outcome
          | ok _ =>
              refine (keeps_perform (c := Call.logEnd r.id)).2 ⟨trivial, fun a ha => ?_⟩
              cases ha
              exact ((hlost.cons rfl).cons rfl).outcome

def Sole (log : TurnLog) : Prop :=
  ∀ id r r', ⟨.generating id, .ok r⟩ ∈ log → ⟨.generating id, .ok r'⟩ ∈ log → r = r'

theorem sole_cons {q : Request} {c : Call} {a : Except Failure c.Answer} (hg : guard q log c) (h : Sole log) :
    Sole (⟨c, a⟩ :: log) := by
  intro id r r' hr hr'
  by_cases hc : c = .generating id
  · subst hc
    obtain rfl : log = [] := hg
    cases List.mem_singleton.1 hr
    cases List.mem_singleton.1 hr'
    rfl
  · have hold {r : Run} (hr : ⟨.generating id, .ok r⟩ ∈ (⟨c, a⟩ :: log : TurnLog)) : ⟨.generating id, .ok r⟩ ∈ log := by
      rcases List.mem_cons.1 hr with he | hr
      · cases he
        exact absurd rfl hc
      · exact hr
    exact h id r r' (hold hr) (hold hr')

theorem keeps_generate (hm : settings.metered = true) (runId : String) :
    Keeps (guard (.generate runId)) answers (fun _ log => ∀ r, ⟨.generating runId, .ok r⟩ ∈ log → Outcome loads r log)
      (generate settings loads runId) [] := by
  suffices h : Keeps (guard (.generate runId)) answers (fun _ log => (∀ r, ⟨.generating runId, .ok r⟩ ∉ log) ∨
      ∃ r, ⟨.generating runId, .ok r⟩ ∈ log ∧ Outcome loads r log) (generate settings loads runId) [] by
    refine (h.invariant (I := Sole) (fun log c a hg _ => sole_cons hg) (by simp [Sole])).mono fun o log hpost r hr => ?_
    rcases hpost.1 with hno | ⟨r', hr', ho⟩
    · exact absurd hr (hno r)
    · rw [hpost.2 runId r r' hr hr']
      exact ho
  refine keeps_perform_bind.2 ⟨rfl, fun (a : Except Failure Run) ha => ?_⟩
  cases a with
  | error f => exact .inl (by simp)
  | ok r =>
      obtain ⟨rfl, hr⟩ := ha
      suffices h : Keeps (guard (.generate r.id)) answers (fun _ log => Outcome loads r log) _ _ from
        h.suffix.mono fun _ _ h => .inr ⟨r, h.2.subset List.mem_cons_self, h.1⟩
      have hstart {question : String} {a : Except Failure (List Bytes)} : Uncharged
          [⟨.stream question, a⟩, ⟨.generating r.id, .ok r⟩] := by simp [Uncharged]
      refine keeps_perform_bind.2 ⟨trivial, fun a _ => ?_⟩
      cases a with
      | error f =>
          refine Lost.outcome ⟨fun scan hs => absurd (hs.smooth _ List.mem_cons_self) id, hstart, fun run b hm => ?_⟩
          simp at hm
      | ok chunks =>
          refine keeps_perform_bind.2 ⟨trivial, fun a ha => ?_⟩
          cases ha
          have h : Reading chunks [⟨.stream (promptFor (r.plan.getD [])), .ok chunks⟩, ⟨.generating r.id, .ok r⟩] := by
            refine ⟨⟨_, List.mem_cons_self⟩, fun question a hm => ?_, fun run b hm => ?_, hstart⟩
            · rcases List.mem_cons.1 hm with he | hm
              · cases he
                rfl
              · simp at hm
            · simp at hm
          have hs : ∀ x ∈ ([⟨.logStart r.id, .ok ()⟩, ⟨.stream (promptFor (r.plan.getD [])), .ok chunks⟩,
              ⟨.generating r.id, .ok r⟩] : TurnLog), smooth x := by simp [smooth]
          refine keeps_bind.2 ((keeps_read hr (by simp) (h.cons rfl) hs).mono fun o log ho => ?_)
          cases o with
          | error f => exact ho
          | ok scan => exact keeps_ended hm hr ho.1 ho.2

end Endings

section Moves

variable {settings : Settings} {loads : Bytes → Except String Json} {q : Request} {α : Type}

/-- A program that neither generates nor charges. -/
def Spares (q : Request) (p : Orchestrated α) : Prop := Restores (guard q) answers (fun _ => True) p

theorem spares_ask_bind {c : Call} {f : c.Answer → Orchestrated α} (hg : ∀ log, guard q log c)
    (hf : ∀ v, Spares q (f v)) : Spares q ((ask c).bind f) :=
  (restores_perform (fun log _ => hg log) fun _ _ _ _ => trivial).bind hf

theorem spares_put (run : Run) : Spares q (ask (.put run)) :=
  restores_perform (fun _ _ => trivial) fun _ _ _ _ => trivial

theorem spares_askPm (operation : String) (payload : Fields) : Spares q (askPm settings loads operation payload) := by
  refine spares_ask_bind (fun _ => trivial) fun response => ?_
  dsimp only
  split
  · exact restores_raise _
  · split
    · exact (restores_ofExcept _).bind fun _ => restores_raise _
    · exact restores_ret _
  · exact restores_raise _

theorem spares_plan (run : Run) : Spares q (plan settings loads run) := by
  refine (spares_askPm _ _).bind fun answer => ?_
  split
  · split
    · exact restores_raise _
    · exact restores_ofExcept _
  · split
    · exact restores_raise _
    · exact restores_ofExcept _

theorem spares_start (idea account : String) : Spares q (start settings loads idea account) := by
  have hauth : Spares q (authorized settings account) := by
    unfold authorized
    split
    · exact restores_perform (fun _ _ => trivial) fun _ _ _ _ => trivial
    · exact restores_ret _
  refine hauth.bind fun _ => (restores_ofExcept _).bind fun text => spares_ask_bind (fun _ => trivial) fun id => ?_
  refine (restores_ofExcept _).bind fun run => (spares_askPm _ _).bind fun answer => ?_
  dsimp only
  split
  · exact (restores_ofExcept _).bind fun run => spares_put run
  · exact (restores_ofExcept _).bind fun run => (spares_plan run).bind fun run => spares_put run

theorem spares_answer (runId : String) (answers : List Answer) : Spares q (answer settings loads runId answers) :=
  spares_ask_bind (fun _ => trivial) fun _ => (spares_plan _).bind fun run => spares_put run

theorem spares_reject (runId feedback : String) : Spares q (reject settings loads runId feedback) := by
  unfold reject
  dsimp only
  split
  · exact restores_raise _
  · refine spares_ask_bind (fun _ => trivial) fun run => (restores_ofExcept _).bind fun run => ?_
    refine (restores_ofExcept _).bind fun run => (spares_askPm _ _).bind fun answer => ?_
    split
    · exact restores_raise _
    · exact (restores_ofExcept _).bind fun run => spares_put run

theorem keeps_body (hm : settings.metered = true) (q : Request) :
    Keeps (guard q) answers (fun _ log => ∀ runId, q = .generate runId →
      ∀ r, ⟨.generating runId, .ok r⟩ ∈ log → Outcome loads r log) (body settings loads q) [] := by
  have hspares {p : Orchestrated Run} (h : Spares q p) (hq : ∀ runId, q ≠ .generate runId) :
      Keeps (guard q) answers (fun _ log => ∀ runId, q = .generate runId →
        ∀ r, ⟨.generating runId, .ok r⟩ ∈ log → Outcome loads r log) (some <$> p) [] :=
    ((h.map some) [] trivial).mono fun o log _ runId he => absurd he (hq runId)
  cases q with
  | start idea account => exact hspares (spares_start idea account) (by simp)
  | answer runId answers => exact hspares (spares_answer runId answers) (by simp)
  | reject runId feedback => exact hspares (spares_reject runId feedback) (by simp)
  | approve runId =>
      refine hspares (restores_perform (fun _ _ => trivial) fun _ _ _ _ => trivial) (by simp)
  | generate runId =>
      refine keeps_bind.2 ((keeps_generate hm runId).mono fun o log h => ?_)
      cases o with
      | ok _ =>
          rintro _ ⟨⟩ r hr
          exact h r hr
      | error f =>
          rintro _ ⟨⟩ r hr
          exact h r hr

end Moves

end CodeZard.Outcomes
