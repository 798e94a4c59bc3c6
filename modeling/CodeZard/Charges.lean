import CodeZard.Meters
import CodeZard.Outcomes
import CodeZard.References

namespace CodeZard.Charges

open Amounts Products Ledgers Periods Invoices Programs Interleaving Compositions Ports Values Runs Outcomes Meters
open Requests (BillingLog)
open References (Appends Periodic Refers appends_authorize appends_body)
open Orchestration (Settings)
open RunLogs (Bytes)
open StreamScans (Scan)
open Turns (TurnLog)

section Sparing

def spares (_ : BillingLog) : Ports.Call → Prop
  | .append e => ∀ id, e.reference ≠ .run id
  | _ => True

def anyAnswer (_ : BillingLog) (c : Ports.Call) (_ : Except Error c.Answer) : Prop := True

/-- A program that charges no run. -/
def Spares {α : Type} (p : Billing α) : Prop := Restores spares anyAnswer (fun _ => True) p

variable {g : Gateway} {α : Type}

def notRun (x : Reference) : Prop := ∀ id, x ≠ .run id

theorem spares_of_appends {p : Billing α} (h : Appends notRun p) : Spares p := by
  intro log hl
  apply (h log hl).weaken
  intro log c hc
  cases c with
  | append e => exact hc
  | _ => trivial

theorem periodic_notRun : Periodic notRun := by
  constructor <;> simp [notRun]

theorem spares_authorize (account : String) (needed : Int) : Spares (BillingService.authorize g account needed) :=
  spares_of_appends (appends_authorize periodic_notRun account needed)

def isRun : Reference → Bool
  | .run _ => true
  | _ => false

def serves : Requests.Request → Bool
  | .charge .. => false
  | .credit _ _ _ reference _ _ => !isRun reference
  | _ => true

theorem spares_body {q : Requests.Request} (hq : serves q = true) : Spares (Requests.body g q) := by
  apply spares_of_appends
  apply appends_body
  cases q with
  | checkout | requirements => trivial
  | confirm | reconcile => simp [Refers, notRun]
  | settle | redeem => simp [Refers, notRun]
  | settlePeriod | authorize => exact periodic_notRun
  | charge => cases hq
  | credit account tokens kind reference amount memo =>
      intro id he
      rw [serves, he] at hq
      cases hq

end Sparing

/-- The row that charges a run for what it used. -/
structure Bills (g : Gateway) (account id : String) (usage : Usage) (e : LedgerEntry) : Prop where
  account : e.account = account
  kind : e.kind = .usage
  reference : e.reference = .run id
  amount : e.amount = usage.cost
  tokens : 0 < -e.tokens
  billable : g.catalog.pricing.billable usage = .ok (-e.tokens)

/-- The requests that may come: the orchestrator's, and those of the billing
services that are not the orchestrator's own. -/
def Served : Meters.Request → Prop
  | .move _ => True
  | .billing q => serves q = true

instance : DecidablePred Served := fun q => by
  cases q <;> dsimp only [Served] <;> infer_instance

def answered (b : Except Error LedgerEntry) : Except Failure (Option Int) :=
  (b.map fun e => some e.tokens).mapError asFailure

/-- How a charge has gone: there was nothing to charge, or a row was to be appended. -/
inductive Billed (g : Gateway) (account id : String) (usage : Usage) (a : Except Failure (Option Int)) (log : MeterLog) :
    Prop
  | nothing {n : Int} (hn : g.catalog.pricing.billable usage = .ok n) (h : n ≤ 0) (ha : a = .ok none)
  | entered {e : LedgerEntry} {b : Except Error LedgerEntry} (hm : ⟨.billing (.append e), .ok b⟩ ∈ log)
      (he : Bills g account id usage e) (ha : a = answered b)

def meters : Orchestration.Call → Bool
  | .authorize _ | .charge .. => true
  | _ => false

/-- What the orchestrator has called, and how the calls of its meter were carried out. -/
structure Carries (g : Gateway) (log : TurnLog) (log' : MeterLog) : Prop where
  calls : ∀ c a, meters c = false → (⟨c, a⟩ ∈ log ↔ ⟨.run c, .ok a⟩ ∈ log')
  charged : ∀ account id usage a, ⟨.charge account id usage, a⟩ ∈ log → Billed g account id usage a log'
  entered : ∀ e b id, ⟨.billing (.append e), b⟩ ∈ log' → e.reference = .run id →
    ∃ account usage b', ⟨.charge account id usage, answered b'⟩ ∈ log ∧ b = .ok b' ∧ Bills g account id usage e

def guard (g : Gateway) : Meters.Request → MeterLog → Meters.Call → Prop
  | .move q, log', .run c => ∃ log, Carries g log log' ∧ Turns.guard q log c
  | .move q, log', .billing (.append e) => ∀ id, e.reference = .run id →
      q = .generate id ∧ (∃ r, ⟨.run (.generating id), .ok (.ok r)⟩ ∈ log') ∧
        ∀ e' b, ⟨.billing (.append e'), b⟩ ∈ log' → e'.reference ≠ .run id
  | .billing _, _, .run _ => False
  | .billing _, _, .billing (.append e) => ∀ id, e.reference ≠ .run id
  | _, _, .billing _ => True

/-- What the world may answer. -/
def answers (_ : MeterLog) : (c : Meters.Call) → Except Failure c.Answer → Prop
  | .run c, a => ∃ b, a = .ok b ∧ Generations.answers [] c b
  | .billing .now, a => ∃ t, a = .ok (.ok t)
  | .billing .entryId, a => ∃ s, a = .ok (.ok s)
  | .billing _, a => ∃ b, a = .ok b

theorem answers_step {w w' : Meters.World} {log : MeterLog} {c : Meters.Call} {r : Meters.Reply}
    {a : Except Failure c.Answer} (h : w.step c r = some (a, w')) : answers log c a := by
  cases c with
  | run c =>
      cases r with
      | billing r => cases h
      | run r =>
          obtain ⟨s, hs, he⟩ := Option.map_eq_some_iff.1 h
          cases he
          have ha : Generations.answers [] c s.1 := Generations.answers_step hs
          exact ⟨_, rfl, ha⟩
  | billing c =>
      cases r with
      | run r => cases h
      | billing r =>
          obtain ⟨s, hs, he⟩ := Option.map_eq_some_iff.1 h
          cases he
          cases c with
          | now =>
              obtain ⟨t, _, _, ha, _⟩ := step_now hs
              exact ⟨t, congrArg _ ha⟩
          | entryId =>
              obtain ⟨_, s, ha⟩ := step_entryId hs
              exact ⟨s, congrArg _ ha⟩
          | _ => exact ⟨_, rfl⟩

section Carrying

variable {g : Gateway} {log : TurnLog} {log' log'' : MeterLog} {α : Type}

def spared : ((c : Meters.Call) × Except Failure c.Answer) → Prop
  | ⟨.billing (.append e), _⟩ => ∀ id, e.reference ≠ .run id
  | ⟨.billing _, _⟩ => True
  | ⟨.run _, _⟩ => False

def Extends (log log' : MeterLog) : Prop := ∃ added, log' = added ++ log ∧ ∀ x ∈ added, spared x

theorem Extends.refl (log : MeterLog) : Extends log log := ⟨[], rfl, by simp⟩

theorem Extends.cons {x : (c : Meters.Call) × Except Failure c.Answer} (h : Extends log' log'') (hx : spared x) :
    Extends log' (x :: log'') := by
  obtain ⟨added, rfl, hall⟩ := h
  exact ⟨x :: added, rfl, List.forall_mem_cons.2 ⟨hx, hall⟩⟩

theorem Extends.mem_iff {x : (c : Meters.Call) × Except Failure c.Answer} (h : Extends log' log'') (hx : ¬ spared x) :
    x ∈ log'' ↔ x ∈ log' := by
  obtain ⟨added, rfl, hall⟩ := h
  rw [List.mem_append]
  exact or_iff_right fun hm => hx (hall x hm)

theorem Extends.subset {x : (c : Meters.Call) × Except Failure c.Answer} (h : Extends log' log'') (hx : x ∈ log') :
    x ∈ log'' := by
  obtain ⟨added, rfl, _⟩ := h
  exact List.mem_append_right _ hx

theorem keeps_spares {p : Billing α} (hp : Spares p) (q : Meters.Request) :
    Keeps (guard g q) answers (fun o log'' => (∃ o', o = .ok o') ∧ Extends log' log'') (through billingly p) log' := by
  refine (keeps_through (J := fun _ log'' => Extends log' log'') ?_ (hp [] trivial) (Extends.refl log')).mono ?_
  · intro _ log'' c hJ hc
    have hspared (a : Except Failure (Meters.Call.billing c).Answer) : spared ⟨.billing c, a⟩ := by
      cases c <;> exact hc
    have hguard : guard g q log'' (.billing c) := by
      cases c with
      | append e =>
          cases q with
          | move q => exact fun id he => absurd he (hc id)
          | billing q => exact hc
      | _ => cases q <;> trivial
    refine keeps_perform.2 ⟨hguard, fun a ha => ?_⟩
    have hok : ∃ b, a = .ok b := by
      cases c with
      | now | entryId =>
          obtain ⟨b, rfl⟩ := ha
          exact ⟨_, rfl⟩
      | _ => exact ha
    obtain ⟨b, rfl⟩ := hok
    exact ⟨b, rfl, trivial, hJ.cons (hspared _)⟩
  · rintro o log'' ⟨o', _, rfl, _, h⟩
    exact ⟨⟨o', rfl⟩, h⟩

theorem carries_nil : Carries g [] [] := ⟨by simp, by simp, by simp⟩

theorem Billed.mono {account id : String} {usage : Usage} {a : Except Failure (Option Int)}
    (h : Billed g account id usage a log') (hsub : ∀ x ∈ log', x ∈ log'') : Billed g account id usage a log'' := by
  cases h with
  | nothing hn h ha => exact .nothing hn h ha
  | entered hm he ha => exact .entered (hsub _ hm) he ha

theorem Carries.run {c : Orchestration.Call} {a : Except Failure c.Answer} (h : Carries g log log')
    (hc : meters c = false) : Carries g (⟨c, a⟩ :: log) (⟨.run c, .ok a⟩ :: log') := by
  refine ⟨fun c' a' hc' => ?_, fun account id usage a' hm => ?_, fun e b id hm hid => ?_⟩
  · rw [List.mem_cons, List.mem_cons, h.calls c' a' hc']
    refine or_congr_left ⟨fun he => ?_, fun he => ?_⟩
    · cases he
      rfl
    · cases he
      rfl
  · rcases List.mem_cons.1 hm with he | hm
    · cases he
      cases hc
    · exact (h.charged account id usage a' hm).mono fun x hx => List.mem_cons_of_mem _ hx
  · rcases List.mem_cons.1 hm with he | hm
    · cases he
    · obtain ⟨account, usage, b', hcharge, hrest⟩ := h.entered e b id hm hid
      exact ⟨account, usage, b', List.mem_cons_of_mem _ hcharge, hrest⟩

theorem not_spared_run {c : Orchestration.Call} {a : Except Failure c.Answer} : ¬ spared ⟨.run c, .ok a⟩ := id

theorem not_spared_append {e : LedgerEntry} {b : Except Failure (Except Error LedgerEntry)} {id : String}
    (he : e.reference = .run id) : ¬ spared ⟨.billing (.append e), b⟩ := fun h => h id he

theorem Carries.extend (h : Carries g log log') (he : Extends log' log'') : Carries g log log'' := by
  refine ⟨fun c a hc => ?_, fun account id usage a hm => ?_, fun e b id hm hid => ?_⟩
  · rw [h.calls c a hc, he.mem_iff not_spared_run]
  · exact (h.charged account id usage a hm).mono fun x hx => he.subset hx
  · exact h.entered e b id ((he.mem_iff (not_spared_append hid)).1 hm) hid

theorem Carries.authorize {account : String} {a : Except Failure Unit} (h : Carries g log log') :
    Carries g (⟨.authorize account, a⟩ :: log) log' := by
  refine ⟨fun c b hc => ?_, fun x id usage b hm => ?_, fun e b id hm hid => ?_⟩
  · rw [← h.calls c b hc, List.mem_cons]
    refine or_iff_right fun he => ?_
    cases he
    cases hc
  · rcases List.mem_cons.1 hm with he | hm
    · cases he
    · exact h.charged x id usage b hm
  · obtain ⟨x, usage, b', hcharge, hrest⟩ := h.entered e b id hm hid
    exact ⟨x, usage, b', List.mem_cons_of_mem _ hcharge, hrest⟩

theorem Carries.nothing {account id : String} {usage : Usage} {n : Int} (h : Carries g log log')
    (hn : g.catalog.pricing.billable usage = .ok n) (hle : n ≤ 0) :
    Carries g (⟨.charge account id usage, .ok none⟩ :: log) log' := by
  refine ⟨fun c b hc => ?_, fun x y z b hm => ?_, fun e b y hm hid => ?_⟩
  · rw [← h.calls c b hc, List.mem_cons]
    refine or_iff_right fun he => ?_
    cases he
    cases hc
  · rcases List.mem_cons.1 hm with he | hm
    · cases he
      exact .nothing hn hle rfl
    · exact h.charged x y z b hm
  · obtain ⟨x, z, b', hcharge, hrest⟩ := h.entered e b y hm hid
    exact ⟨x, z, b', List.mem_cons_of_mem _ hcharge, hrest⟩

theorem Carries.entered' {account id : String} {usage : Usage} {e : LedgerEntry} {b : Except Error LedgerEntry}
    (h : Carries g log log') (he : Bills g account id usage e) :
    Carries g (⟨.charge account id usage, answered b⟩ :: log) (⟨.billing (.append e), .ok b⟩ :: log') := by
  refine ⟨fun c a hc => ?_, fun x y z a hm => ?_, fun e' b' y hm hid => ?_⟩
  · rw [List.mem_cons, List.mem_cons, h.calls c a hc]
    refine or_congr_left ⟨fun he => ?_, fun he => ?_⟩
    · cases he
      cases hc
    · cases he
  · rcases List.mem_cons.1 hm with hx | hm
    · cases hx
      exact .entered List.mem_cons_self he rfl
    · exact (h.charged x y z a hm).mono fun x hx => List.mem_cons_of_mem _ hx
  · rcases List.mem_cons.1 hm with hx | hm
    · cases hx
      have hy : y = id := Reference.run.inj (hid.symm.trans he.reference)
      subst hy
      exact ⟨account, usage, b, List.mem_cons_self, rfl, he⟩
    · obtain ⟨x, z, b'', hcharge, hrest⟩ := h.entered e' b' y hm hid
      exact ⟨x, z, b'', List.mem_cons_of_mem _ hcharge, hrest⟩

theorem billable_ok (g : Gateway) (usage : Usage) : ∃ n, g.catalog.pricing.billable usage = .ok n := by
  unfold Pricing.billable
  split
  · exact ⟨_, rfl⟩
  · split
    · exact ⟨_, rfl⟩
    · exact ⟨_, rfl⟩

theorem keeps_charge {q : Orchestration.Request} {account id : String} {usage : Usage} (h : Carries g log log')
    (hg : Outcomes.guard q log (.charge account id usage)) :
    Keeps (guard g (.move q)) answers (fun o log'' => ∃ a, o = .ok a ∧ Generations.answers log (.charge account id usage) a ∧
      Carries g (⟨.charge account id usage, a⟩ :: log) log'') (metered g (.charge account id usage)) log' := by
  obtain ⟨n, hn⟩ := billable_ok g usage
  simp only [metered, BillingService.charge, hn, ofExcept_ok, bind_eq, ret_bind]
  split
  · rename_i hle
    exact ⟨.ok none, rfl, trivial, h.nothing hn hle⟩
  · rename_i hlt
    obtain ⟨rfl, ⟨r, hr⟩, hfresh⟩ := hg
    refine keeps_bind.2 (keeps_perform_bind.2 ⟨trivial, ?_⟩)
    rintro _ ⟨entryId, rfl⟩
    refine keeps_perform_bind.2 ⟨trivial, ?_⟩
    rintro _ ⟨now, rfl⟩
    have hextends := (Extends.refl log').cons (x := ⟨.billing .entryId, .ok (.ok entryId)⟩) trivial
    have h' := h.extend (hextends.cons (x := ⟨.billing .now, .ok (.ok now)⟩) trivial)
    refine keeps_perform_bind.2 ⟨fun id' hid => ?_, ?_⟩
    · obtain rfl := Reference.run.inj hid
      refine ⟨rfl, ⟨r, (h'.calls _ _ rfl).1 hr⟩, fun e b hm he => ?_⟩
      obtain ⟨x, y, z, hcharge, _⟩ := h'.entered e b _ hm he
      exact hfresh _ _ _ _ hcharge
    · rintro _ ⟨b, rfl⟩
      have hbills : Bills g account id usage ⟨entryId, account, .usage, -n, now, usage.cost, .run id,
          grouped usage.tokens ++ " tokens · " ++ toString usage.calls ++ " calls"⟩ := by
        refine ⟨rfl, rfl, rfl, rfl, ?_, ?_⟩
        · dsimp only
          omega
        · rw [hn, neg_neg]
      have hdone := h'.entered' (b := b) hbills
      cases b with
      | ok e => exact ⟨_, rfl, trivial, hdone⟩
      | error e => exact ⟨_, rfl, trivial, hdone⟩

theorem keeps_authorize {q : Orchestration.Request} (account : String) (h : Carries g log log') :
    Keeps (guard g (.move q)) answers (fun o log'' => ∃ a, o = .ok a ∧ Generations.answers log (.authorize account) a ∧
      Carries g (⟨.authorize account, a⟩ :: log) log'') (metered g (.authorize account)) log' := by
  refine keeps_bind.2 ((keeps_spares (spares_authorize account 0) (.move q)).mono ?_)
  rintro _ log'' ⟨⟨o, rfl⟩, he⟩
  exact ⟨_, rfl, trivial, (h.extend he).authorize⟩

theorem keeps_metered {q : Orchestration.Request} {c : Orchestration.Call} (h : Carries g log log')
    (hg : Turns.guard q log c ∧ Outcomes.guard q log c) :
    Keeps (guard g (.move q)) answers (fun o log'' => ∃ a, o = .ok a ∧ Generations.answers log c a ∧
      Carries g (⟨c, a⟩ :: log) log'') (metered g c) log' := by
  have hrun (hc : meters c = false) : Keeps (guard g (.move q)) answers (fun o log'' => ∃ a, o = .ok a ∧
      Generations.answers log c a ∧ Carries g (⟨c, a⟩ :: log) log'') (runly c) log' := by
    refine keeps_perform.2 ⟨⟨log, h, hg.1⟩, ?_⟩
    rintro _ ⟨a, rfl, ha⟩
    exact ⟨a, rfl, ha, h.run hc⟩
  cases c with
  | authorize account => exact keeps_authorize account h
  | charge account id usage => exact keeps_charge h hg.2
  | _ => exact hrun rfl

/-- What is known of a generation that has ended. -/
def post (g : Gateway) (loads : Bytes → Except String Json) (q : Meters.Request) (log' : MeterLog) : Prop :=
  ∀ runId, q = .move (.generate runId) → ∃ log, Carries g log log' ∧
    ∀ r, ⟨.generating runId, .ok r⟩ ∈ log → Outcome loads r log

theorem keeps_body {settings : Settings} {loads : Bytes → Except String Json} (hm : settings.metered = true)
    {q : Meters.Request} (hq : Served q) :
    Keeps (guard g q) answers (fun _ log => post g loads q log) (body g settings loads q) [] := by
  cases q with
  | billing q =>
      have h : ∀ log, post g loads (.billing q) log := fun log runId he => (by cases he)
      refine keeps_bind.2 ((keeps_spares (spares_body hq) _).mono fun o log _ => ?_)
      cases o <;> exact h log
  | move q =>
      have hturn : Keeps (Turns.guard q) Generations.answers (fun _ _ => True) (Orchestration.body settings loads q) [] :=
        (Turns.keeps_body q).restrict fun _ _ _ _ => trivial
      have hboth := hturn.and (Outcomes.keeps_body hm q)
      have hthrough := keeps_through (J := Carries g) (fun log log' c h hg => keeps_metered h hg) hboth carries_nil
      refine keeps_bind.2 (hthrough.mono ?_)
      rintro _ log' ⟨o, log, rfl, ⟨_, ho⟩, hJ⟩
      have hpost : post g loads (.move q) log' := fun runId he => by
        cases he
        exact ⟨log, hJ, ho runId rfl⟩
      cases o <;> exact hpost

end Carrying

/-- Neither being generated nor over. -/
def early : RunState → Bool
  | .backendGeneration | .zipReady | .failed => false
  | _ => true

def generated (id : String) (r : Run) (v : InProgress) : Prop := ⟨.run (.generating id), .ok (.ok r)⟩ ∈ v.log

def named (id : String) (v : InProgress) : Prop := ⟨.run .tokenHex, .ok (.ok id)⟩ ∈ v.log

def read (id : String) (r : Run) (v : InProgress) : Prop := ⟨.run (.get id), .ok (.ok r)⟩ ∈ v.log

def holds (id : String) (v : InProgress) : Bool := v.result.isNone && v.log.any fun
  | ⟨.run .tokenHex, .ok (.ok s)⟩ => s = id
  | ⟨.run (.get runId), .ok (.ok _)⟩ => runId = id
  | _ => false

/-- A generation begins when no request that may store the run is under way. -/
def Alone : Rule
  | _, vs, _, .run (.generating id), _ => ∀ v ∈ vs, holds id v = false
  | _, _, _, _, _ => True

/-- Ids are not given twice. -/
def Fresh : Rule
  | w, _, _, .run .tokenHex, .run (.text s) => ∀ x ∈ w.runs.trail, x.id ≠ s
  | _, _, _, _, _ => True

instance (w : Meters.World) (vs : List InProgress) (v : InProgress) (c : Meters.Call) (r : Meters.Reply) :
    Decidable (Alone w vs v c r) := by
  rcases c with c | c
  · cases c <;> dsimp only [Alone] <;> infer_instance
  · dsimp only [Alone]
    infer_instance

instance (w : Meters.World) (vs : List InProgress) (v : InProgress) (c : Meters.Call) (r : Meters.Reply) :
    Decidable (Fresh w vs v c r) := by
  unfold Fresh
  split <;> infer_instance

theorem holds_of {id : String} {v : InProgress} (hres : v.result = none) (h : named id v ∨ ∃ r, read id r v) :
    holds id v = true := by
  rw [holds, hres, Option.isNone_none, Bool.true_and, List.any_eq_true]
  rcases h with hm | ⟨r, hm⟩
  · exact ⟨_, hm, by simp⟩
  · exact ⟨_, hm, by simp⟩

def Early (id : String) (w : Meters.World) (vs : List InProgress) : Prop :=
  (∃ x ∈ w.runs.store.runs, x.id = id ∧ early x.state = true) ∨
    ∃ v ∈ vs, v.result = none ∧ (named id v ∨ ∃ r, read id r v ∧ early r.state = true)

def Clear (id : String) (w : Meters.World) : Prop := ∀ e ∈ w.billing.store.ledger, e.reference ≠ .run id

/-- As long as a run may be generated it has not been charged, and once it is
generated its rows are those that the generation has appended. -/
structure Inv (g : Gateway) (loads : Bytes → Except String Json) (id : String) (w : Meters.World) (vs : List InProgress) :
    Prop where
  clear : Early id w vs → Clear id w
  ungenerated : Early id w vs → ∀ v ∈ vs, ∀ r, ¬ generated id r v
  free : ∀ x ∈ w.runs.store.runs, x.id = id → early x.state = true → x.charged = 0
  copies : ∀ v ∈ vs, ∀ r, read id r v → early r.state = true → r.charged = 0
  known : ((∃ e ∈ w.billing.store.ledger, e.reference = .run id) ∨ ∃ v ∈ vs, ∃ r, generated id r v) →
    ∃ x ∈ w.runs.trail, x.id = id
  once : AtMostOne (fun v => ∃ r, generated id r v) vs
  uncharged : ∀ v ∈ vs, ∀ r, generated id r v → r.id = id ∧ r.charged = 0
  rows : ∀ v ∈ vs, ∀ r, generated id r v → ∀ e, e.reference = .run id →
    ((e ∈ w.billing.store.ledger ↔ ⟨.billing (.append e), .ok (.ok e)⟩ ∈ v.log) ∧
      ∀ x, ⟨.billing (.append e), .ok (.ok x)⟩ ∈ v.log → x = e)
  charges : ∀ v ∈ vs, ∀ e b, e.reference = .run id → ⟨.billing (.append e), b⟩ ∈ v.log → ∃ r, generated id r v
  reads : ∀ v ∈ vs, ∀ runId r, read runId r v → r.id = runId
  ended : ∀ v ∈ vs, v.result.isSome → post g loads v.request v.log

section Steps

variable {g : Gateway} {loads : Bytes → Except String Json} {id : String} {w w' : Meters.World} {vs : List InProgress}
  {n : Nat} {q : Meters.Request} {log : MeterLog}

theorem inv_empty : Inv g loads id {} [] where
  clear := by simp [Clear]
  ungenerated := by simp
  free := by simp
  copies := by simp
  known := by simp
  once := atMostOne_nil
  uncharged := by simp
  rows := by simp
  charges := by simp
  reads := by simp
  ended := by simp

/-- What a call may change as long as it neither generates the run nor adds a
row of it. -/
structure Spared (id : String) (w w' : Meters.World) (vs : List InProgress) (q : Meters.Request) (log log' : MeterLog) :
    Prop where
  ledger : ∀ e, e.reference = .run id → (e ∈ w'.billing.store.ledger ↔ e ∈ w.billing.store.ledger)
  trail : ∀ x ∈ w.runs.trail, x ∈ w'.runs.trail
  generating : ∀ r, ⟨.run (.generating id), .ok (.ok r)⟩ ∈ log' → ⟨.run (.generating id), .ok (.ok r)⟩ ∈ log
  appends : ∀ e x, e.reference = .run id →
    (⟨.billing (.append e), .ok (.ok x)⟩ ∈ log' ↔ ⟨.billing (.append e), .ok (.ok x)⟩ ∈ log)
  named : ⟨.run .tokenHex, .ok (.ok id)⟩ ∈ log' → ⟨.run .tokenHex, .ok (.ok id)⟩ ∈ log ∨ ∀ x ∈ w.runs.trail, x.id ≠ id
  read : ∀ r, ⟨.run (.get id), .ok (.ok r)⟩ ∈ log' → ⟨.run (.get id), .ok (.ok r)⟩ ∈ log ∨ r ∈ w.runs.store.runs ∧ r.id = id
  grows : ∀ x ∈ log, x ∈ log'
  charges : ∀ e b, e.reference = .run id → ⟨.billing (.append e), b⟩ ∈ log' →
    ⟨.billing (.append e), b⟩ ∈ log ∨ ∃ r, ⟨.run (.generating id), .ok (.ok r)⟩ ∈ log
  reads : ∀ runId r, ⟨.run (.get runId), .ok (.ok r)⟩ ∈ log' → ⟨.run (.get runId), .ok (.ok r)⟩ ∈ log ∨ r.id = runId
  stored : ∀ x ∈ w'.runs.store.runs, x.id = id → early x.state = true → Early id w vs ∧ x.charged = 0

theorem mem_others {v v' : InProgress} (hv : v' ∈ vs.set n v) : v' ∈ vs ∨ v' = v := List.mem_or_eq_of_mem_set hv

theorem Inv.unknown (h : Inv g loads id w vs) (hid : ∀ x ∈ w.runs.trail, x.id ≠ id) :
    Clear id w ∧ ∀ v ∈ vs, ∀ r, ¬ generated id r v := by
  constructor
  · intro e he href
    obtain ⟨x, hx, hxid⟩ := h.known (.inl ⟨e, he, href⟩)
    exact hid x hx hxid
  · intro v hv r hr
    obtain ⟨x, hx, hxid⟩ := h.known (.inr ⟨v, hv, r, hr⟩)
    exact hid x hx hxid

theorem Inv.spared {log' : MeterLog} (h : Inv g loads id w vs) (hn : vs[n]? = some ⟨q, log, none⟩)
    (hs : Spared id w w' vs q log log') : Inv g loads id w' (vs.set n ⟨q, log', none⟩) := by
  have hmem := List.mem_of_getElem? hn
  have hgen {v : InProgress} {r : Run} (hv : v ∈ vs.set n ⟨q, log', none⟩) (hr : generated id r v) :
      ∃ u ∈ vs, generated id r u := by
    rcases mem_others hv with hv | rfl
    · exact ⟨v, hv, hr⟩
    · exact ⟨_, hmem, hs.generating r hr⟩
  have hearly (he : Early id w' (vs.set n ⟨q, log', none⟩)) : Clear id w ∧ ∀ v ∈ vs, ∀ r, ¬ generated id r v := by
    have hold (h' : Early id w vs) : Clear id w ∧ ∀ v ∈ vs, ∀ r, ¬ generated id r v := ⟨h.clear h', h.ungenerated h'⟩
    rcases he with ⟨x, hx, hid, he⟩ | ⟨v, hv, hres, hheld⟩
    · exact hold (hs.stored x hx hid he).1
    · rcases mem_others hv with hv | rfl
      · exact hold (.inr ⟨v, hv, hres, hheld⟩)
      · rcases hheld with hname | ⟨r, hr, he⟩
        · rcases hs.named hname with hname | hnew
          · exact hold (.inr ⟨_, hmem, rfl, .inl hname⟩)
          · exact h.unknown hnew
        · rcases hs.read r hr with hr | ⟨hr, hid⟩
          · exact hold (.inr ⟨_, hmem, rfl, .inr ⟨r, hr, he⟩⟩)
          · exact hold (.inl ⟨r, hr, hid, he⟩)
  refine ⟨fun he e hm href => ?_, fun he v hv r hr => ?_, fun x hx hid he => ?_, fun v hv r hr he => ?_, fun hk => ?_, ?_,
    fun v hv r hr => ?_, fun v hv r hr e href => ?_, fun v hv e b href hm => ?_, fun v hv runId r hr => ?_,
    fun v hv hres => ?_⟩
  · exact (hearly he).1 e ((hs.ledger e href).1 hm) href
  · obtain ⟨u, hu, hr⟩ := hgen hv hr
    exact (hearly he).2 u hu r hr
  · exact (hs.stored x hx hid he).2
  · rcases mem_others hv with hv | rfl
    · exact h.copies v hv r hr he
    · rcases hs.read r hr with hr | ⟨hr, hid⟩
      · exact h.copies _ hmem r hr he
      · exact h.free r hr hid he
  · have hk : ∃ x ∈ w.runs.trail, x.id = id := by
      rcases hk with ⟨e, he, href⟩ | ⟨v, hv, r, hr⟩
      · exact h.known (.inl ⟨e, (hs.ledger e href).1 he, href⟩)
      · obtain ⟨u, hu, hr⟩ := hgen hv hr
        exact h.known (.inr ⟨u, hu, r, hr⟩)
    obtain ⟨x, hx, hid⟩ := hk
    exact ⟨x, hs.trail x hx, hid⟩
  · exact h.once.set hn (Exists.imp hs.generating)
  · obtain ⟨u, hu, hr⟩ := hgen hv hr
    exact h.uncharged u hu r hr
  · rw [hs.ledger e href]
    rcases mem_others hv with hv | rfl
    · exact h.rows v hv r hr e href
    · have hrows := h.rows _ hmem r (hs.generating r hr) e href
      exact ⟨hrows.1.trans (hs.appends e e href).symm, fun x hx => hrows.2 x ((hs.appends e x href).1 hx)⟩
  · rcases mem_others hv with hv | rfl
    · exact h.charges v hv e b href hm
    · have hold : ∃ r, ⟨.run (.generating id), .ok (.ok r)⟩ ∈ log :=
        (hs.charges e b href hm).elim (h.charges _ hmem e b href) fun hr => hr
      obtain ⟨r, hr⟩ := hold
      exact ⟨r, hs.grows _ hr⟩
  · rcases mem_others hv with hv | rfl
    · exact h.reads v hv runId r hr
    · exact (hs.reads runId r hr).elim (h.reads _ hmem runId r) fun hid => hid
  · rcases mem_others hv with hv | rfl
    · exact h.ended v hv hres
    · cases hres

theorem early_of_planned {r run : Run} (h : Turns.Planned r run) :
    early r.state = true ∧ run.id = r.id ∧ run.charged = r.charged := by
  rcases h with ⟨_, _, _, _, _, ha⟩ | ⟨_, _, hp⟩
  · obtain ⟨hs, rfl⟩ := Run.asked_ok ha
    refine ⟨?_, rfl, rfl⟩
    rcases hs with hs | hs <;> rw [hs] <;> rfl
  · obtain ⟨hs, rfl⟩ := Run.proposed_ok hp
    refine ⟨?_, rfl, rfl⟩
    rcases hs with hs | hs | hs <;> rw [hs] <;> rfl

theorem writes_early {q : Orchestration.Request} {log : TurnLog} {run : Run} (h : Turns.Writes q log run)
    (he : early run.state = true) : (⟨.tokenHex, .ok run.id⟩ ∈ log ∧ run.charged = 0) ∨
      ∃ runId r, ⟨.get runId, .ok r⟩ ∈ log ∧ r.id = run.id ∧ early r.state = true ∧ run.charged = r.charged := by
  cases q with
  | start idea account =>
      obtain ⟨token, text, r, hm, _, hd, hw⟩ := h
      obtain ⟨_, rfl⟩ := Run.describing_ok hd
      have hrun : run.id = token ∧ run.charged = 0 := by
        rcases hw with hw | ⟨_, r', ha, hw⟩
        · obtain ⟨_, hid, hc⟩ := early_of_planned (.inl hw)
          exact ⟨hid, hc⟩
        · obtain ⟨_, rfl⟩ := Run.asked_ok ha
          obtain ⟨_, hid, hc⟩ := early_of_planned hw
          exact ⟨hid, hc⟩
      exact .inl ⟨hrun.1 ▸ hm, hrun.2⟩
  | answer runId answers =>
      obtain ⟨r, hm, hw⟩ := h
      obtain ⟨hs, hid, hc⟩ := early_of_planned hw
      exact .inr ⟨runId, r, hm, hid.symm, hs, hc⟩
  | reject runId feedback =>
      obtain ⟨r, r', r'', p, hm, hr, hv, _, hp⟩ := h
      obtain ⟨hs, rfl⟩ := Run.rejected_ok hr
      obtain ⟨_, rfl⟩ := Run.revising_ok hv
      obtain ⟨_, rfl⟩ := Run.proposed_ok hp
      refine .inr ⟨runId, r, hm, rfl, ?_, rfl⟩
      rw [hs]
      rfl
  | approve runId => exact absurd h not_false
  | generate runId =>
      obtain ⟨_, _, _, hended⟩ := h
      rcases Turns.state_of_ended hended with hs | hs <;> rw [hs] at he <;> cases he

theorem Inv.put {run : Run} (h : Inv g loads id w vs) (hn : vs[n]? = some ⟨q, log, none⟩)
    (hg : guard g q log (.run (.put run))) (hid : run.id = id) (he : early run.state = true) :
    Early id w vs ∧ run.charged = 0 := by
  have hmem := List.mem_of_getElem? hn
  cases q with
  | billing q => exact absurd hg not_false
  | move q =>
      obtain ⟨log', hcarries, hw⟩ := hg
      rcases writes_early hw he with ⟨hm, hc⟩ | ⟨runId, r, hm, hr, hs, hc⟩
      · rw [hid, hcarries.calls _ _ rfl] at hm
        exact ⟨.inr ⟨_, hmem, rfl, .inl hm⟩, hc⟩
      · rw [hcarries.calls _ _ rfl] at hm
        obtain rfl : runId = id := ((h.reads _ hmem runId r hm).symm.trans hr).trans hid
        exact ⟨.inr ⟨_, hmem, rfl, .inr ⟨r, hm, hs⟩⟩, hc.trans (h.copies _ hmem r hm hs)⟩

section Runs

variable {runs : Orchestration.World} {c : Orchestration.Call} {r : Orchestration.Reply} {b : Except Failure c.Answer}

theorem stored_step (h : Inv g loads id w vs) (hn : vs[n]? = some ⟨q, log, none⟩) (hg : guard g q log (.run c))
    (hs : w.runs.step c r = some (b, runs)) {x : Run} (hx : x ∈ runs.store.runs) (hid : x.id = id)
    (he : early x.state = true) : Early id w vs ∧ x.charged = 0 := by
  have hold (hx : x ∈ w.runs.store.runs) : Early id w vs ∧ x.charged = 0 := ⟨.inl ⟨x, hx, hid, he⟩, h.free x hx hid he⟩
  rcases Orchestration.World.step_cases hs with ⟨_, hsub, _⟩ | ⟨run, hst, _, hsub⟩
  · exact hold (hsub x hx)
  · rcases hsub x hx with rfl | ⟨hx, _⟩
    · cases hst with
      | put _ => exact h.put hn hg hid he
      | approve hm ha =>
          obtain ⟨hstate, rfl⟩ := Run.approved_ok ha
          have hearly : early RunState.planReview = true := rfl
          rw [← hstate] at hearly
          have hfree := h.free _ hm hid hearly
          exact ⟨.inl ⟨_, hm, hid, hearly⟩, hfree⟩
      | generating hm ha =>
          obtain ⟨_, rfl⟩ := Run.generating_ok ha
          cases he
    · exact hold hx

theorem spared_run (h : Inv g loads id w vs) (hn : vs[n]? = some ⟨q, log, none⟩) (hg : guard g q log (.run c))
    (hs : w.runs.step c r = some (b, runs)) {v : InProgress} (hfresh : Fresh w vs v (.run c) (.run r))
    (hgen : ∀ run, (⟨c, b⟩ : (c : Orchestration.Call) × Except Failure c.Answer) ≠ ⟨.generating id, .ok run⟩) :
    Spared id w { w with runs := runs } vs q log (⟨.run c, .ok b⟩ :: log) where
  ledger e href := Iff.rfl
  trail := Orchestration.World.trail_step hs
  generating run hm := by
    rcases List.mem_cons.1 hm with he | hm
    · cases he
      exact absurd rfl (hgen run)
    · exact hm
  appends e x href := by
    rw [List.mem_cons]
    refine or_iff_right fun he => ?_
    cases he
  named hm := by
    rcases List.mem_cons.1 hm with he | hm
    · cases he
      cases r <;> cases hs
      exact .inr hfresh
    · exact .inl hm
  read run hm := by
    rcases List.mem_cons.1 hm with he | hm
    · cases he
      exact .inr (Orchestration.World.step_read hs)
    · exact .inl hm
  grows x hx := List.mem_cons_of_mem _ hx
  charges e b' href hm := by
    rcases List.mem_cons.1 hm with he | hm
    · cases he
    · exact .inl hm
  reads runId run hm := by
    rcases List.mem_cons.1 hm with he | hm
    · cases he
      exact .inr (Orchestration.World.step_read hs).2
    · exact .inl hm
  stored x hx hid he := stored_step h hn hg hs hx hid he

theorem Inv.generating {run : Run} (h : Inv g loads id w vs) (hn : vs[n]? = some ⟨q, log, none⟩)
    (halone : ∀ v ∈ vs, holds id v = false) (hs : w.runs.step (.generating id) r = some (.ok run, runs)) :
    Inv g loads id { w with runs := runs } (vs.set n ⟨q, ⟨.run (.generating id), .ok (.ok run)⟩ :: log, none⟩) := by
  have hmem := List.mem_of_getElem? hn
  obtain ⟨hcharged, hearly, hstore, hknown⟩ : (run.id = id ∧ run.charged = 0) ∧ Early id w vs ∧
      (∀ x ∈ runs.store.runs, x.id = id → early x.state = false) ∧ ∃ x ∈ runs.trail, x.id = id := by
    rcases Orchestration.World.step_cases hs with ⟨_, _, hquiet⟩ | ⟨x, hst, htrail, hsub⟩
    · exact absurd hquiet not_false
    · cases hst with
      | @generating old _ hm ha =>
          obtain ⟨hstate, rfl⟩ := Run.generating_ok ha
          have hearly : early RunState.planApproved = true := rfl
          rw [← hstate] at hearly
          have hfree := h.free _ hm rfl hearly
          refine ⟨⟨rfl, hfree⟩, .inl ⟨_, hm, rfl, hearly⟩, fun x hx hid => ?_,
            { old with state := .backendGeneration }, htrail ▸ List.mem_cons_self, rfl⟩
          rcases hsub x hx with rfl | ⟨_, hne⟩
          · rfl
          · exact absurd hid hne
  have hnone := h.ungenerated hearly
  have hclear := h.clear hearly
  have hnew {v : InProgress} {run' : Run}
      (hv : v ∈ vs.set n ⟨q, ⟨.run (.generating id), .ok (.ok run)⟩ :: log, none⟩) (hr : generated id run' v) :
      v = ⟨q, ⟨.run (.generating id), .ok (.ok run)⟩ :: log, none⟩ ∧ run' = run := by
    rcases mem_others hv with hv | rfl
    · exact absurd hr (hnone v hv run')
    · refine ⟨rfl, ?_⟩
      rcases List.mem_cons.1 hr with he | hr
      · cases he
        rfl
      · exact absurd hr (hnone _ hmem run')
  have hlate : ¬ Early id { w with runs := runs } (vs.set n ⟨q, ⟨.run (.generating id), .ok (.ok run)⟩ :: log, none⟩) := by
    rintro (⟨x, hx, hid, he⟩ | ⟨v, hv, hres, hheld⟩)
    · rw [hstore x hx hid] at he
      cases he
    · have hheld : named id v ∨ ∃ r, read id r v := hheld.imp_right (Exists.imp fun r hr => hr.1)
      rcases mem_others hv with hv | rfl
      · cases (halone v hv).symm.trans (holds_of hres hheld)
      · have hold : named id ⟨q, log, none⟩ ∨ ∃ r, read id r ⟨q, log, none⟩ := by
          rcases hheld with hm | ⟨r, hm⟩
          · rcases List.mem_cons.1 hm with he | hm
            · cases he
            · exact .inl hm
          · rcases List.mem_cons.1 hm with he | hm
            · cases he
            · exact .inr ⟨r, hm⟩
        cases (halone _ hmem).symm.trans (holds_of rfl hold)
  refine ⟨fun he => absurd he hlate, fun he => absurd he hlate, fun x hx hid he => ?_, fun v hv r hr he => ?_, fun _ => hknown,
    ?_, fun v hv r hr => ?_, fun v hv r hr e href => ?_, fun v hv e b href hm => ?_, fun v hv runId r hr => ?_,
    fun v hv hres => ?_⟩
  · rw [hstore x hx hid] at he
    cases he
  · rcases mem_others hv with hv | rfl
    · exact h.copies v hv r hr he
    · rcases List.mem_cons.1 hr with hx | hr
      · cases hx
      · exact h.copies _ hmem r hr he
  · exact atMostOne_set fun u hu hr => hr.elim (hnone u hu)
  · obtain ⟨_, rfl⟩ := hnew hv hr
    exact hcharged
  · obtain ⟨rfl, _⟩ := hnew hv hr
    have hunbilled (b : Except Failure (Except Error LedgerEntry)) :
        ⟨.billing (.append e), b⟩ ∉ (⟨.run (.generating id), .ok (.ok run)⟩ :: log : MeterLog) := by
      intro hm
      rcases List.mem_cons.1 hm with he | hm
      · cases he
      · obtain ⟨r, hr⟩ := h.charges _ hmem e b href hm
        exact hnone _ hmem r hr
    exact ⟨iff_of_false (fun he => hclear e he href) (hunbilled _), fun x hx => absurd hx (hunbilled _)⟩
  · rcases mem_others hv with hv | rfl
    · exact h.charges v hv e b href hm
    · exact ⟨run, List.mem_cons_self⟩
  · rcases mem_others hv with hv | rfl
    · exact h.reads v hv runId r hr
    · rcases List.mem_cons.1 hr with hx | hr
      · cases hx
      · exact h.reads _ hmem runId r hr
  · rcases mem_others hv with hv | rfl
    · exact h.ended v hv hres
    · cases hres

theorem Inv.run (h : Inv g loads id w vs) (hn : vs[n]? = some ⟨q, log, none⟩) (hg : guard g q log (.run c))
    (hs : w.runs.step c r = some (b, runs)) (hr : both Alone Fresh w vs ⟨q, log, none⟩ (.run c) (.run r)) :
    Inv g loads id { w with runs := runs } (vs.set n ⟨q, ⟨.run c, .ok b⟩ :: log, none⟩) := by
  by_cases hgen : ∃ run, (⟨c, b⟩ : (c : Orchestration.Call) × Except Failure c.Answer) = ⟨.generating id, .ok run⟩
  · obtain ⟨run, he⟩ := hgen
    cases he
    exact h.generating hn hr.1 hs
  · exact h.spared hn (spared_run h hn hg hs hr.2 fun run he => hgen ⟨run, he⟩)

end Runs

section Rows

variable {billed : Ports.World} {c : Ports.Call} {r : Ports.Reply} {b : Except Error c.Answer}

theorem rows_step (hc : ∀ e, c = .append e → e.reference ≠ .run id) (hs : w.billing.step c r = some (b, billed))
    {e : LedgerEntry} (he : e.reference = .run id) : e ∈ billed.store.ledger ↔ e ∈ w.billing.store.ledger := by
  by_cases happ : ∃ e', c = .append e'
  · obtain ⟨e', rfl⟩ := happ
    rcases step_append hs with ⟨_, _, _, rfl⟩ | ⟨_, _, rfl⟩
    · rfl
    · refine ⟨fun hm => ?_, fun hm => (w.billing.store.ledger_prefix_append e').subset hm⟩
      rcases Storage.Store.mem_append_ledger hm with hm | rfl
      · exact hm
      · exact absurd he (hc _ rfl)
  · rw [ledger_step (fun e' h => happ ⟨e', h⟩) hs]

theorem spared_billing (h : Inv g loads id w vs) (hs : w.billing.step c r = some (b, billed))
    (hledger : ∀ e, e.reference = .run id → (e ∈ billed.store.ledger ↔ e ∈ w.billing.store.ledger))
    (hnew : ∀ e x, e.reference = .run id → (⟨.billing c, .ok b⟩ : (c : Meters.Call) × Except Failure c.Answer) ≠
      ⟨.billing (.append e), .ok (.ok x)⟩)
    (hc : ∀ e, c = .append e → e.reference = .run id → ∃ r, ⟨.run (.generating id), .ok (.ok r)⟩ ∈ log) :
    Spared id w { w with billing := billed } vs q log (⟨.billing c, .ok b⟩ :: log) where
  ledger := hledger
  trail x hx := hx
  generating run hm := by
    rcases List.mem_cons.1 hm with he | hm
    · cases he
    · exact hm
  appends e x href := by
    rw [List.mem_cons]
    refine or_iff_right fun he => ?_
    exact hnew e x href he.symm
  named hm := by
    rcases List.mem_cons.1 hm with he | hm
    · cases he
    · exact .inl hm
  read run hm := by
    rcases List.mem_cons.1 hm with he | hm
    · cases he
    · exact .inl hm
  grows x hx := List.mem_cons_of_mem _ hx
  charges e b' href hm := by
    rcases List.mem_cons.1 hm with he | hm
    · cases he
      exact .inr (hc e rfl href)
    · exact .inl hm
  reads runId run hm := by
    rcases List.mem_cons.1 hm with he | hm
    · cases he
    · exact .inl hm
  stored x hx hid he := ⟨.inl ⟨x, hx, hid, he⟩, h.free x hx hid he⟩

theorem Inv.appended {e : LedgerEntry} (h : Inv g loads id w vs) (hn : vs[n]? = some ⟨q, log, none⟩)
    (hid : e.reference = .run id) {run : Run} (hgen : ⟨.run (.generating id), .ok (.ok run)⟩ ∈ log)
    (hunbilled : ∀ e b, ⟨.billing (.append e), b⟩ ∈ log → e.reference ≠ .run id)
    (hledger : billed.store.ledger = w.billing.store.ledger ++ [e]) :
    Inv g loads id { w with billing := billed } (vs.set n ⟨q, ⟨.billing (.append e), .ok (.ok e)⟩ :: log, none⟩) := by
  have hmem := List.mem_of_getElem? hn
  have hmine (v : InProgress) (hv : v ∈ vs.set n ⟨q, ⟨.billing (.append e), .ok (.ok e)⟩ :: log, none⟩) {r : Run}
      (hr : generated id r v) : v = ⟨q, ⟨.billing (.append e), .ok (.ok e)⟩ :: log, none⟩ :=
    (h.once.others hn ⟨run, hgen⟩ hv).resolve_right fun hno => hno ⟨r, hr⟩
  have hold {c : Orchestration.Call} {a : Except Failure c.Answer}
      (hm : ⟨.run c, .ok a⟩ ∈ (⟨.billing (.append e), .ok (.ok e)⟩ :: log : MeterLog)) : ⟨.run c, .ok a⟩ ∈ log := by
    rcases List.mem_cons.1 hm with he | hm
    · cases he
    · exact hm
  have hlate : ¬ Early id { w with billing := billed }
      (vs.set n ⟨q, ⟨.billing (.append e), .ok (.ok e)⟩ :: log, none⟩) := by
    intro he
    refine h.ungenerated (he.imp_right ?_) _ hmem run hgen
    rintro ⟨v, hv, hres, hheld⟩
    rcases mem_others hv with hv | rfl
    · exact ⟨v, hv, hres, hheld⟩
    · exact ⟨_, hmem, rfl, hheld.imp hold (Exists.imp fun r hr => hr.imp_left hold)⟩
  refine ⟨fun he => absurd he hlate, fun he => absurd he hlate, h.free, fun v hv r hr he => ?_,
    fun _ => h.known (.inr ⟨_, hmem, run, hgen⟩), h.once.set hn (Exists.imp fun r hr => hold hr), fun v hv r hr => ?_,
    fun v hv r hr e' href => ?_, fun v hv e' b href hm => ?_, fun v hv runId r hr => ?_, fun v hv hres => ?_⟩
  · rcases mem_others hv with hv | rfl
    · exact h.copies v hv r hr he
    · exact h.copies _ hmem r (hold hr) he
  · obtain rfl := hmine v hv hr
    exact h.uncharged _ hmem r (hold hr)
  · obtain rfl := hmine v hv hr
    have hrow : e' ∉ w.billing.store.ledger := fun hm =>
      hunbilled e' _ ((h.rows _ hmem r (hold hr) e' href).1.1 hm) href
    have hhead {x : LedgerEntry}
        (hm : ⟨.billing (.append e'), .ok (.ok x)⟩ ∈ (⟨.billing (.append e), .ok (.ok e)⟩ :: log : MeterLog)) :
        e' = e ∧ x = e := by
      rcases List.mem_cons.1 hm with he | hm
      · cases he
        exact ⟨rfl, rfl⟩
      · exact absurd href (hunbilled e' _ hm)
    refine ⟨?_, fun x hm => ?_⟩
    · dsimp only
      rw [hledger, List.mem_append, or_iff_right hrow, List.mem_singleton]
      refine ⟨fun he => ?_, fun hm => (hhead hm).1⟩
      subst he
      exact List.mem_cons_self
    · obtain ⟨rfl, rfl⟩ := hhead hm
      rfl
  · rcases mem_others hv with hv | rfl
    · exact h.charges v hv e' b href hm
    · exact ⟨run, List.mem_cons_of_mem _ hgen⟩
  · rcases mem_others hv with hv | rfl
    · exact h.reads v hv runId r hr
    · exact h.reads _ hmem runId r (hold hr)
  · rcases mem_others hv with hv | rfl
    · exact h.ended v hv hres
    · cases hres

theorem Inv.billing (h : Inv g loads id w vs) (hn : vs[n]? = some ⟨q, log, none⟩) (hg : guard g q log (.billing c))
    (hs : w.billing.step c r = some (b, billed)) :
    Inv g loads id { w with billing := billed } (vs.set n ⟨q, ⟨.billing c, .ok b⟩ :: log, none⟩) := by
  by_cases happ : ∃ e, c = .append e ∧ e.reference = .run id
  · obtain ⟨e, rfl, hid⟩ := happ
    cases q with
    | billing q => exact absurd hid (hg id)
    | move q =>
        obtain ⟨_, ⟨run, hgen⟩, hunbilled⟩ := hg id hid
        have hfails {f : Error} (hb : b = .error f) (hsame : billed = w.billing) : Inv g loads id
            { w with billing := billed } (vs.set n ⟨.move q, ⟨.billing (.append e), .ok b⟩ :: log, none⟩) := by
          subst hb hsame
          refine h.spared hn (spared_billing h hs (fun _ _ => Iff.rfl) (fun e' x href he => ?_) fun e' _ _ => ⟨run, hgen⟩)
          cases he
        have hmem := List.mem_of_getElem? hn
        rcases step_append hs with ⟨f, _, hb, hw⟩ | ⟨_, hb, hw⟩
        · exact hfails hb hw
        · rcases w.billing.store.append_cases e with ⟨x, hx, href, _⟩ | ⟨_, _, _, ha⟩ | ⟨_, _, ha⟩
          · have hrow := (h.rows _ hmem run hgen x (href.trans hid)).1.1 hx
            exact absurd (href.trans hid) (hunbilled x _ hrow)
          · rw [ha] at hb hw
            exact hfails hb hw
          · rw [ha] at hb hw
            subst hb hw
            exact h.appended hn hid hgen hunbilled rfl
  · have hc (e : LedgerEntry) (he : c = .append e) : e.reference ≠ .run id := fun href => happ ⟨e, he, href⟩
    refine h.spared hn (spared_billing h hs (fun e href => rows_step hc hs href) (fun e x href he => ?_)
      fun e he href => absurd href (hc e he))
    cases he
    exact hc e rfl href

end Rows

theorem Inv.step {c : Meters.Call} {r : Meters.Reply} {a : Except Failure c.Answer} (h : Inv g loads id w vs)
    (hn : vs[n]? = some ⟨q, log, none⟩) (hg : guard g q log c) (hr : both Alone Fresh w vs ⟨q, log, none⟩ c r)
    (hs : w.step c r = some (a, w')) : Inv g loads id w' (vs.set n ⟨q, ⟨c, a⟩ :: log, none⟩) := by
  cases c with
  | run c =>
      cases r with
      | billing r => cases hs
      | run r =>
          obtain ⟨⟨b, runs⟩, hstep, he⟩ := Option.map_eq_some_iff.1 hs
          cases he
          exact h.run hn hg hstep hr
  | billing c =>
      cases r with
      | run r => cases hs
      | billing r =>
          obtain ⟨⟨b, billing⟩, hstep, he⟩ := Option.map_eq_some_iff.1 hs
          cases he
          exact h.billing hn hg hstep

theorem Inv.leave {o : Except Failure Unit} (h : Inv g loads id w vs) (hn : vs[n]? = some ⟨q, log, none⟩)
    (hp : post g loads q log) : Inv g loads id w (vs.set n ⟨q, log, some o⟩) := by
  have hmem := List.mem_of_getElem? hn
  have hold {P : InProgress → Prop} (hP : P ⟨q, log, none⟩ → P ⟨q, log, some o⟩) (hall : ∀ v ∈ vs, P v) :
      ∀ v ∈ vs.set n ⟨q, log, some o⟩, P v := by
    intro v hv
    rcases mem_others hv with hv | rfl
    · exact hall v hv
    · exact hP (hall _ hmem)
  have hearly (he : Early id w (vs.set n ⟨q, log, some o⟩)) : Early id w vs := by
    refine he.imp_right ?_
    rintro ⟨v, hv, hres, hheld⟩
    rcases mem_others hv with hv | rfl
    · exact ⟨v, hv, hres, hheld⟩
    · cases hres
  refine ⟨fun he => h.clear (hearly he), fun he => hold (fun hp => hp) (h.ungenerated (hearly he)), h.free,
    hold (fun hp => hp) h.copies, fun hk => h.known (hk.imp_right ?_), h.once.set hn fun hp => hp,
    hold (fun hp => hp) h.uncharged, hold (fun hp => hp) h.rows, hold (fun hp => hp) h.charges,
    hold (fun hp => hp) h.reads, ?_⟩
  · rintro ⟨v, hv, r, hr⟩
    rcases mem_others hv with hv | rfl
    · exact ⟨v, hv, r, hr⟩
    · exact ⟨_, hmem, r, hr⟩
  · intro v hv hres
    rcases mem_others hv with hv | rfl
    · exact h.ended v hv hres
    · exact hp

theorem Inv.arrive (h : Inv g loads id w vs) (q : Meters.Request) : Inv g loads id w (vs ++ [⟨q, [], none⟩]) := by
  have hold {P : InProgress → Prop} (hP : P ⟨q, [], none⟩) (hall : ∀ v ∈ vs, P v) : ∀ v ∈ vs ++ [⟨q, [], none⟩], P v := by
    intro v hv
    rcases List.mem_append.1 hv with hv | hv
    · exact hall v hv
    · exact List.mem_singleton.1 hv ▸ hP
  have hearly (he : Early id w (vs ++ [⟨q, [], none⟩])) : Early id w vs := by
    refine he.imp_right ?_
    rintro ⟨v, hv, hres, hheld⟩
    rcases List.mem_append.1 hv with hv | hv
    · exact ⟨v, hv, hres, hheld⟩
    · obtain rfl := List.mem_singleton.1 hv
      simp [named, read] at hheld
  refine ⟨fun he => h.clear (hearly he), fun he => hold (by simp [generated]) (h.ungenerated (hearly he)), h.free,
    hold (by simp [read]) h.copies, fun hk => h.known (hk.imp_right ?_), h.once.concat (by simp [generated]),
    hold (by simp [generated]) h.uncharged, hold (by simp [generated]) h.rows, hold (by simp) h.charges,
    hold (by simp [read]) h.reads, hold (by simp) h.ended⟩
  rintro ⟨v, hv, r, hr⟩
  rcases List.mem_append.1 hv with hv | hv
  · exact ⟨v, hv, r, hr⟩
  · obtain rfl := List.mem_singleton.1 hv
    simp [generated] at hr

end Steps

variable (g : Gateway) (settings : Settings) (loads : Bytes → Except String Json)

def protocol (hm : settings.metered = true) (id : String) :
    Protocol (body g settings loads) World.step Served (both Alone Fresh) where
  inv := Inv g loads id
  guard := guard g
  admits _ := answers
  post q _ log := post g loads q log
  arrive {q _ _} _ h := h.arrive q
  follows hq := keeps_body hm hq
  sound h hn hg hr hs := ⟨h.step hn hg hr hs, answers_step hs⟩
  leave h hn hp := h.leave hn hp

def Found (log : MeterLog) (scan : Scan) : Prop :=
  (∀ c a, ⟨.run c, .ok a⟩ ∈ log → smooth ⟨c, a⟩) ∧ ∃ question chunks,
    ⟨.run (.stream question), .ok (.ok chunks)⟩ ∈ log ∧ StreamScans.feedAll (fun line => (loads line).toOption) chunks = .ok scan

/-- The row of a run was to be appended, and that failed. -/
def AppendFails (runId : String) (log : MeterLog) (f : Error) : Prop :=
  ∃ e, e.reference = .run runId ∧ ⟨.billing (.append e), .ok (.error f)⟩ ∈ log

/-- A run is charged exactly when it is delivered. -/
structure ChargedOnDelivery (w : Meters.World) (runId : String) (r : Run) (log : MeterLog) : Prop where
  written : (∃ e ∈ w.billing.store.ledger, e.kind = .usage ∧ e.reference = .run runId) ↔
    ∃ scan n, Found loads log scan ∧ scan.artifact ≠ "" ∧ scan.usage.isEmpty = false ∧
      g.catalog.pricing.billable scan.usage = .ok n ∧ 0 < n ∧ ∀ f, ¬ AppendFails runId log f
  tokens : ∀ e ∈ w.billing.store.ledger, e.reference = .run runId → e.account = r.account ∧ ∀ scan, Found loads log scan →
    g.catalog.pricing.billable scan.usage = .ok (-e.tokens)
  charged : ∀ run a, ⟨.run (.put run), .ok a⟩ ∈ log →
    (∀ e ∈ w.billing.store.ledger, e.reference = .run runId → run.charged = -e.tokens) ∧
      ((∀ e ∈ w.billing.store.ledger, e.reference ≠ .run runId) → run.charged = 0)
  failed : ∀ run a, ⟨.run (.put run), .ok a⟩ ∈ log → run.state = .failed → ∀ e ∈ w.billing.store.ledger, e.reference ≠ .run runId
  ready : ∀ f, AppendFails runId log f → ∃ run, ⟨.run (.put run), .ok (.ok run)⟩ ∈ log ∧ run.state = .zipReady

section Accounts

variable {g loads} {w : Meters.World} {log : TurnLog} {log' : MeterLog} {r : Run}

theorem Carries.found_iff (h : Carries g log log') (scan : Scan) : Found loads log' scan ↔ Scanned loads log scan := by
  constructor
  · rintro ⟨hs, question, chunks, hm, hf⟩
    refine ⟨fun x hx => ?_, question, chunks, (h.calls _ _ rfl).2 hm, hf⟩
    by_cases hc : meters x.1 = true
    · obtain ⟨c, a⟩ := x
      cases c with
      | authorize | charge => trivial
      | _ => cases hc
    · exact hs x.1 x.2 ((h.calls x.1 x.2 (by simpa using hc)).1 hx)
  · rintro ⟨hs, question, chunks, hm, hf⟩
    refine ⟨fun c a hx => ?_, question, chunks, (h.calls _ _ rfl).1 hm, hf⟩
    by_cases hc : meters c = true
    · cases c with
      | authorize | charge => trivial
      | _ => cases hc
    · exact hs _ ((h.calls c a (by simpa using hc)).2 hx)

/-- The rows of a run that was charged for nothing so far are those its generation
appended, and its calls went as they may. -/
structure Accounted (g : Gateway) (loads : Bytes → Except String Json) (w : Meters.World) (r : Run) (log : TurnLog)
    (log' : MeterLog) : Prop where
  carries : Carries g log log'
  outcome : Outcome loads r log
  uncharged : r.charged = 0
  rows : ∀ e, e.reference = .run r.id → (e ∈ w.billing.store.ledger ↔ ⟨.billing (.append e), .ok (.ok e)⟩ ∈ log')
  same : ∀ e x, e.reference = .run r.id → ⟨.billing (.append e), .ok (.ok x)⟩ ∈ log' → x = e

variable (h : Accounted g loads w r log log')

include h

theorem Accounted.charge_of_row {e : LedgerEntry} (he : e ∈ w.billing.store.ledger) (hid : e.reference = .run r.id) :
    ∃ account usage, ⟨.charge account r.id usage, answered (.ok e)⟩ ∈ log ∧ Bills g account r.id usage e := by
  obtain ⟨account, usage, b, hm, hb, hbills⟩ := h.carries.entered e _ r.id ((h.rows e hid).1 he) hid
  cases hb
  exact ⟨account, usage, hm, hbills⟩

theorem Accounted.charge_of_failure {f : Error} (hf : AppendFails r.id log' f) :
    ∃ account usage, ⟨.charge account r.id usage, answered (.error f)⟩ ∈ log := by
  obtain ⟨e, hid, hm⟩ := hf
  obtain ⟨account, usage, b, hm, hb, _⟩ := h.carries.entered e _ r.id hm hid
  cases hb
  exact ⟨account, usage, hm⟩

theorem Accounted.clear (hc : Uncharged log) : ∀ e ∈ w.billing.store.ledger, e.reference ≠ .run r.id := by
  intro e he hid
  obtain ⟨account, usage, hm, _⟩ := h.charge_of_row he hid
  exact hc _ _ _ _ hm

theorem Accounted.unfailing (hc : Uncharged log) : ∀ f, ¬ AppendFails r.id log' f := by
  intro f hf
  obtain ⟨account, usage, hm⟩ := h.charge_of_failure hf
  exact hc _ _ _ _ hm

theorem Accounted.put_iff (run : Run) (a : Except Failure Run) :
    ⟨.put run, a⟩ ∈ log ↔ ⟨.run (.put run), .ok a⟩ ∈ log' := h.carries.calls (.put run) a rfl

theorem Accounted.free (hc : Uncharged log) (hp : ∀ run a, ⟨.put run, a⟩ ∈ log → run.charged = r.charged)
    (hs : ∀ scan, Found loads log' scan → scan.artifact ≠ "" → scan.usage.isEmpty = false → False) :
    ChargedOnDelivery g loads w r.id r log' := by
  have hclear := h.clear hc
  refine ⟨iff_of_false ?_ ?_, fun e he hid => absurd hid (hclear e he), fun run a hm => ⟨fun e he hid => absurd hid (hclear e he), ?_⟩,
    fun run a hm _ => hclear, fun f hf => absurd hf (h.unfailing hc f)⟩
  · rintro ⟨e, he, _, hid⟩
    exact hclear e he hid
  · rintro ⟨scan, n, hfound, ha, hu, _⟩
    exact hs scan hfound ha hu
  · intro _
    rw [hp run a ((h.put_iff run a).2 hm), h.uncharged]

section Charged

variable {scan : Scan} {a : Except Failure (Option Int)} (hc : ∀ account id usage b, ⟨.charge account id usage, b⟩ ∈ log ↔
    account = r.account ∧ id = r.id ∧ usage = scan.usage ∧ b = a)

include hc

theorem Accounted.row {e : LedgerEntry} (he : e ∈ w.billing.store.ledger) (hid : e.reference = .run r.id) :
    a = answered (.ok e) ∧ Bills g r.account r.id scan.usage e := by
  obtain ⟨account, usage, hm, hbills⟩ := h.charge_of_row he hid
  obtain ⟨rfl, _, rfl, hb⟩ := (hc _ _ _ _).1 hm
  exact ⟨hb.symm, hbills⟩

theorem Accounted.failure {f : Error} (hf : AppendFails r.id log' f) : a = .error (asFailure f) := by
  obtain ⟨account, usage, hm⟩ := h.charge_of_failure hf
  exact ((hc _ _ _ _).1 hm).2.2.2.symm

theorem Accounted.clear_cases (hclear : ∀ e ∈ w.billing.store.ledger, e.reference ≠ .run r.id) :
    (∃ n, g.catalog.pricing.billable scan.usage = .ok n ∧ n ≤ 0 ∧ a = .ok none) ∨ ∃ f, AppendFails r.id log' f := by
  have hm := (hc r.account r.id scan.usage a).2 ⟨rfl, rfl, rfl, rfl⟩
  cases h.carries.charged _ _ _ _ hm with
  | nothing hn hle ha => exact .inl ⟨_, hn, hle, ha⟩
  | @entered e b hm he ha =>
      cases b with
      | error f => exact .inr ⟨f, e, he.reference, hm⟩
      | ok x =>
          obtain rfl := h.same e x he.reference hm
          exact absurd he.reference (hclear x ((h.rows x he.reference).2 hm))

theorem Accounted.written (hs : ∀ x, Scanned loads log x ↔ x = scan) (ha : scan.artifact ≠ "")
    (hu : scan.usage.isEmpty = false) : (∃ e ∈ w.billing.store.ledger, e.kind = .usage ∧ e.reference = .run r.id) ↔
    ∃ scan n, Found loads log' scan ∧ scan.artifact ≠ "" ∧ scan.usage.isEmpty = false ∧
      g.catalog.pricing.billable scan.usage = .ok n ∧ 0 < n ∧ ∀ f, ¬ AppendFails r.id log' f := by
  constructor
  · rintro ⟨e, he, _, hid⟩
    obtain ⟨rfl, hbills⟩ := h.row hc he hid
    refine ⟨scan, -e.tokens, (h.carries.found_iff scan).2 ((hs scan).2 rfl), ha, hu, hbills.billable, hbills.tokens, ?_⟩
    intro f hf
    cases h.failure hc hf
  · rintro ⟨x, n, hfound, _, _, hn, hpos, hno⟩
    obtain rfl := (hs x).1 ((h.carries.found_iff x).1 hfound)
    by_contra hnone
    have hclear (e : LedgerEntry) (he : e ∈ w.billing.store.ledger) : e.reference ≠ .run r.id := by
      intro hid
      exact hnone ⟨e, he, (h.row hc he hid).2.kind, hid⟩
    rcases h.clear_cases hc hclear with ⟨m, hm, hle, _⟩ | ⟨f, hf⟩
    · cases hn.symm.trans hm
      omega
    · exact hno f hf

theorem Accounted.billed (hp : ∀ run a', ⟨.put run, a'⟩ ∈ log → run.state = .zipReady ∧ run.charged = billedBy r a) {run : Run}
    {b : Except Failure Run} (hm : ⟨.run (.put run), .ok b⟩ ∈ log') :
    (∀ e ∈ w.billing.store.ledger, e.reference = .run r.id → run.charged = -e.tokens) ∧
      ((∀ e ∈ w.billing.store.ledger, e.reference ≠ .run r.id) → run.charged = 0) := by
  obtain ⟨_, hcharged⟩ := hp run b ((h.put_iff run b).2 hm)
  rw [hcharged]
  constructor
  · intro e he hid
    obtain ⟨rfl, hbills⟩ := h.row hc he hid
    have hpos := hbills.tokens
    show ((e.tokens.natAbs : Nat) : Int) = -e.tokens
    omega
  · intro hclear
    rcases h.clear_cases hc hclear with ⟨_, _, _, rfl⟩ | ⟨f, hf⟩
    · exact h.uncharged
    · rw [h.failure hc hf]
      exact h.uncharged

theorem Accounted.charged (hs : ∀ x, Scanned loads log x ↔ x = scan) (ha : scan.artifact ≠ "")
    (hu : scan.usage.isEmpty = false)
    (hp : ∀ run a', ⟨.put run, a'⟩ ∈ log → run.state = .zipReady ∧ run.charged = billedBy r a)
    (hput : (∃ run, ⟨.put run, .ok run⟩ ∈ log) ↔ ∀ f, a = .error f → f.isException = true) :
    ChargedOnDelivery g loads w r.id r log' ↔ ∀ f, AppendFails r.id log' f → f.isException = true := by
  constructor
  · intro hcharged f hf
    obtain ⟨run, hm, _⟩ := hcharged.ready f hf
    rw [← asFailure_isException]
    exact hput.1 ⟨run, (h.put_iff run _).2 hm⟩ _ (h.failure hc hf)
  · intro hunbroken
    refine ⟨h.written hc hs ha hu, fun e he hid => ?_, fun run b hm => h.billed hc hp hm, fun run b hm hstate => ?_,
      fun f hf => ?_⟩
    · obtain ⟨_, hbills⟩ := h.row hc he hid
      refine ⟨hbills.account, fun x hx => ?_⟩
      rw [(hs x).1 ((h.carries.found_iff x).1 hx)]
      exact hbills.billable
    · rw [(hp run b ((h.put_iff run b).2 hm)).1] at hstate
      cases hstate
    · have hex : ∀ f', a = .error f' → f'.isException = true := by
        intro f' he
        rw [h.failure hc hf] at he
        cases he
        rw [asFailure_isException]
        exact hunbroken f hf
      obtain ⟨run, hm⟩ := hput.2 hex
      exact ⟨run, (h.put_iff run _).1 hm, (hp run _ hm).1⟩

end Charged

theorem Accounted.iff_unbroken (hacc : r.account ≠ "") : ChargedOnDelivery g loads w r.id r log' ↔
    ∀ f, AppendFails r.id log' f → f.isException = true := by
  cases h.outcome with
  | lost hs hc hp =>
      refine iff_of_true (h.free hc (fun run a hm => (hp run a hm).2) fun scan hf ha _ => ?_) fun f hf => ?_
      · exact ha (hs scan ((h.carries.found_iff scan).1 hf))
      · exact absurd hf (h.unfailing hc f)
  | free hs hu hc hput hp =>
      refine iff_of_true (h.free hc (fun run a hm => (hp run a hm).2) fun scan hf _ hne => ?_) fun f hf => ?_
      · obtain rfl := (hs scan).1 ((h.carries.found_iff scan).1 hf)
        rw [hu.resolve_left hacc] at hne
        cases hne
      · exact absurd hf (h.unfailing hc f)
  | charged hs ha hu hc hput hp => exact h.charged hc hs ha hu hp hput

end Accounts

section Theorem

variable {g settings loads}

/-- A request that generates a run, alone, charges it exactly when it delivers
it, unless the charge is broken off. -/
theorem charged_iff_unbroken (hm : settings.metered = true) {c : Config Meters.World Meters.Request _ _ Failure Unit}
    (h : Reaches (body g settings loads) World.step Served (both Alone Fresh) {} c) {v : InProgress} (hv : v ∈ c.views)
    {runId : String} (hq : v.request = .move (.generate runId)) (hres : v.result.isSome) {r : Run}
    (hr : generated runId r v) (hacc : r.account ≠ "") :
    ChargedOnDelivery g loads c.world runId r v.log ↔ ∀ f, AppendFails runId v.log f → f.isException = true := by
  have hinv := (protocol g settings loads hm runId).invariant inv_empty h
  obtain ⟨log, hcarries, hout⟩ := hinv.ended v hv hres runId hq
  obtain ⟨rfl, huncharged⟩ := hinv.uncharged v hv r hr
  refine Accounted.iff_unbroken ⟨hcarries, hout r ((hcarries.calls _ _ rfl).2 hr), huncharged, fun e he => ?_, fun e x he => ?_⟩ hacc
  · exact (hinv.rows v hv r hr e he).1
  · exact (hinv.rows v hv r hr e he).2 x

end Theorem

def gateway : Gateway := { catalog := defaultCatalog }

/-- What `json.loads` makes of the last event of a stream, which says what the
project is and what it has cost. -/
def loadsDone (bs : Bytes) : Except String Json :=
  if bs = StreamScans.ascii "done" then .ok (.dict [("type", .str "done"), ("project", .dict [("id", .str "p")]),
    ("cost", .dict [("tokens", .int 5000), ("calls", .int 1)])])
  else Turns.loadsPlan bs

/-- A run is started and approved, its stream is read to the end, and its charge
is to be appended. -/
def delivering : List (Event Meters.Request Meters.Reply) :=
  .start (.move (.start "bikes" "acct")) ::
    ([.billing (.time 0), .billing .done, .billing .done, .billing (.text "e1"), .billing (.time 0), .billing .done,
      .billing .done, .run (.text "r"), .run (.response ⟨200, []⟩), .run (.response ⟨200, Turns.planDocument "rent"⟩),
      .run (.swept [])] : List Meters.Reply).map (fun r => .step 0 r) ++
    ([.finish 0, .start (.move (.approve "r")), .step 1 (.run (.sweptTwice [] [])), .finish 1,
      .start (.move (.generate "r"))] : List (Event Meters.Request Meters.Reply)) ++
    ([.run (.sweptTwice [] []), .run (.streaming [StreamScans.ascii "data: done\n"]), .run .done, .run .done, .run .done,
      .run .done, .run .done, .run .done, .run .done, .billing (.text "e2"), .billing (.time 1)] :
        List Meters.Reply).map (fun r => .step 2 r)

def finished (runId : String) (v : InProgress) : Bool := v.result.isSome &&
  (match v.request with
    | .move (.generate id) => id = runId
    | _ => false) &&
  v.log.any fun
    | ⟨.run (.generating id), .ok (.ok r)⟩ => id = runId && r.account ≠ ""
    | _ => false

theorem finished_iff {runId : String} {v : InProgress} (h : finished runId v = true) :
    v.request = .move (.generate runId) ∧ v.result.isSome ∧ ∃ r, generated runId r v ∧ r.account ≠ "" := by
  simp only [finished, Bool.and_eq_true] at h
  obtain ⟨⟨hres, hq⟩, hlog⟩ := h
  refine ⟨?_, hres, ?_⟩
  · split at hq
    · rename_i hreq
      rw [hreq, of_decide_eq_true hq]
    · cases hq
  · obtain ⟨x, hx, he⟩ := List.any_eq_true.1 hlog
    split at he
    · simp only [Bool.and_eq_true, decide_eq_true_eq] at he
      obtain ⟨rfl, hacc⟩ := he
      exact ⟨_, hx, hacc⟩
    · cases he

def delivered : List (Event Meters.Request Meters.Reply) :=
  delivering ++ [.step 2 (.billing .done), .step 2 (.run (.swept [])), .finish 2]

theorem charged_iff_unbroken_delivered :
    ∃ c, Reaches (body gateway {} loadsDone) World.step Served (both Alone Fresh) {} c ∧ ∃ v ∈ c.views,
      (∃ e ∈ c.world.billing.store.ledger, e.reference = .run "r" ∧ e.tokens = -5000) ∧ ∃ r, generated "r" r v ∧
        (ChargedOnDelivery gateway loadsDone c.world "r" r v.log ↔
          ∀ f, AppendFails "r" v.log f → f.isException = true) := by
  have hrun : (run (body gateway {} loadsDone) World.step Served (both Alone Fresh) ⟨{}, []⟩ delivered).any (fun c =>
      (c.world.billing.store.ledger.any fun e => e.reference = .run "r" && e.tokens = -5000) &&
        c.views.any (finished "r")) = true := by decide +kernel
  obtain ⟨c, hc, hp⟩ := reaches_of_run hrun
  obtain ⟨hrow, hview⟩ := Bool.and_eq_true_iff.1 hp
  obtain ⟨e, he, hrow⟩ := List.any_eq_true.1 hrow
  simp only [Bool.and_eq_true, decide_eq_true_eq] at hrow
  obtain ⟨v, hv, hover⟩ := List.any_eq_true.1 hview
  obtain ⟨hq, hres, r, hr, hacc⟩ := finished_iff hover
  exact ⟨c, hc, v, hv, ⟨e, he, hrow⟩, r, hr, charged_iff_unbroken rfl hc hv hq hres hr hacc⟩

def brokenOff : List (Event Meters.Request Meters.Reply) :=
  delivering ++ [.step 2 (.billing (.raised .cancelled)), .finish 2]

def cancelled (runId : String) (v : InProgress) : Bool :=
  (v.log.any fun
    | ⟨.billing (.append e), .ok (.error .cancelled)⟩ => e.reference = .run runId
    | _ => false) &&
  v.log.all fun
    | ⟨.run (.put _), _⟩ => false
    | _ => true

theorem charge_broken_off :
    ∃ c, Reaches (body gateway {} loadsDone) World.step Served (both Alone Fresh) {} c ∧ ∃ v ∈ c.views,
      v.request = .move (.generate "r") ∧ v.result.isSome ∧ ∃ r, generated "r" r v ∧ r.account ≠ "" ∧
        ¬ ChargedOnDelivery gateway loadsDone c.world "r" r v.log := by
  have hrun : (run (body gateway {} loadsDone) World.step Served (both Alone Fresh) ⟨{}, []⟩ brokenOff).any (fun c =>
      c.views.any fun v => finished "r" v && cancelled "r" v) = true := by decide +kernel
  obtain ⟨c, hc, hp⟩ := reaches_of_run hrun
  obtain ⟨v, hv, hp⟩ := List.any_eq_true.1 hp
  simp only [cancelled, Bool.and_eq_true] at hp
  obtain ⟨hover, hfail, hnone⟩ := hp
  obtain ⟨hq, hres, r, hr, hacc⟩ := finished_iff hover
  refine ⟨c, hc, v, hv, hq, hres, r, hr, hacc, fun hcharged => ?_⟩
  obtain ⟨x, hx, hfail⟩ := List.any_eq_true.1 hfail
  split at hfail
  · obtain ⟨run, hput, _⟩ := hcharged.ready .cancelled ⟨_, of_decide_eq_true hfail, hx⟩
    cases List.all_eq_true.1 hnone _ hput
  · cases hfail

end CodeZard.Charges
