import CodeZard.Histories
import CodeZard.References

namespace CodeZard.Fallbacks

open Amounts Products Periods Storage Programs Ports Interleaving Histories References Requests BillingService

/-- The plan under an id costs nothing. -/
def IsFree (g : Gateway) (planId : String) : Prop := ∃ plan, g.catalog.plan planId = .ok plan ∧ plan.isFree = true

/-- The account has an active subscription to a plan that is free. -/
def OnFree (g : Gateway) (account : String) (w : World) : Prop :=
  ∃ s, w.store.subscription account = some s ∧ s.status = .active ∧ IsFree g s.planId

instance (g : Gateway) (planId : String) : Decidable (IsFree g planId) :=
  match h : g.catalog.plan planId with
  | .ok plan => decidable_of_iff (plan.isFree = true) (by simp [IsFree, h])
  | .error _ => isFalse (by simp [IsFree, h])

instance (g : Gateway) (account : String) (w : World) : Decidable (OnFree g account w) :=
  match h : w.store.subscription account with
  | some s => decidable_of_iff (s.status = .active ∧ IsFree g s.planId) (by simp [OnFree, h])
  | none => isFalse (by simp [OnFree, h])

def Quiet (w : World) : Call → Reply → Prop
  | .onChain _, .onChain (some o) => o.active w.clock = false
  | _, _ => True

instance (w : World) (c : Call) (r : Reply) : Decidable (Quiet w c r) := by
  unfold Quiet
  split <;> infer_instance

def quiet : Step Call Call.Answer Error World Reply := restrict Quiet World.step

/-- The world after two calls of `settle_period` that return, the chain being
quiet. -/
def settledTwice (g : Gateway) (account : String) (w : World) (rs rs' : List Reply) : Option World :=
  match exec quiet (settlePeriod g account) w rs with
  | some (.ok _, v) =>
      match exec quiet (settlePeriod g account) v rs' with
      | some (.ok _, v') => some v'
      | _ => none
  | _ => none

/-- The plan that an account is under: that of its row, else the one it would
start on. -/
def standing (plan : Plan) (account : String) (w : World) : String :=
  match w.store.subscription account with
  | some s => s.planId
  | none => plan.id

section Calls

variable {g : Gateway} {account : String} {α : Type}

theorem always_unwritten {p : Billing α} (h : Writes { subscription := fun _ => False } anyAnswer p) (w : World) :
    Always quiet (fun _ v => ∀ a, v.store.subscription a = w.store.subscription a) p w := by
  have hstep (log : BillingLog) (u : World) (c : Call) (r : Reply) (a : Except Error c.Answer) (v : World)
      (hu : ∀ a, u.store.subscription a = w.store.subscription a)
      (hg : allows { subscription := fun _ => False } log c) (hs : quiet u c r = some (a, v)) :
      anyAnswer log c a ∧ ∀ a, v.store.subscription a = w.store.subscription a := by
    have hput : ∀ s, c ≠ .putSubscription s := by
      rintro s rfl
      exact hg
    refine ⟨trivial, fun b => ?_⟩
    rw [subscription_step hput (restrict_eq_some.1 hs).2 b, hu b]
  exact always_invariant (fun v : World => ∀ a, v.store.subscription a = w.store.subscription a) hstep (h [] trivial)
    fun _ => rfl

theorem unwritten_grant (plan : Plan) (s : Subscription) :
    Writes { subscription := fun _ => False } anyAnswer (grant account plan s) :=
  writes_credit _ _ _ _ _ trivial

theorem unwritten_expireGrant (s : Subscription) (now : Datetime) :
    Writes { subscription := fun _ => False } anyAnswer (expireGrant account s now) := by
  apply writes_expireGrant
  constructor <;> intros <;> trivial

theorem always_mirrorChain (g : Gateway) (account : String) (w : World) :
    Always quiet (fun o v => v = w ∧ ∀ m, o = .ok m → m = none) (mirrorChain g account w.clock) w := by
  have hread : Always quiet (fun o v => v = w ∧ ∀ m, o = .ok (some m) → m.active w.clock = false)
      (readChain g account) w := by
    unfold readChain
    split
    · apply always_rescue.2
      apply always_perform.2
      intro r a v hs
      obtain ⟨hrule, hs⟩ := restrict_eq_some.1 hs
      obtain ⟨rfl, ⟨o, rfl, rfl⟩ | ⟨x, _, rfl⟩⟩ := step_onChain hs
      · refine ⟨rfl, fun m hm => ?_⟩
        cases hm
        exact hrule
      · dsimp only
        split
        · exact ⟨rfl, by simp⟩
        · exact ⟨rfl, by simp⟩
    · exact ⟨rfl, by simp⟩
  apply always_bind.2
  apply hread.mono
  rintro o v ⟨rfl, ho⟩
  cases o with
  | error e => exact ⟨rfl, by simp⟩
  | ok o =>
      cases o with
      | none => exact ⟨rfl, by simp⟩
      | some o =>
          dsimp only
          rw [if_pos (by simp [ho o rfl])]
          exact ⟨rfl, by simp⟩

/-- What a call of `settle_period` that returns leaves of an account: a row, for
the plan that the account was under. -/
def Settled (plan : Plan) (account : String) (w : World) {β : Type} (o : Except Error β) (v : World) : Prop :=
  ∀ x, o = .ok x → ∃ s, v.store.subscription account = some s ∧ s.planId = standing plan account w

theorem settled_error {β : Type} {plan : Plan} {w v : World} {e : Error} :
    Settled plan account w (.error e : Except Error β) v := by
  intro x hx
  cases hx

theorem always_put {plan : Plan} {s : Subscription} {w : World} (hacc : s.account = account)
    (hid : s.planId = standing plan account w) (u : World) :
    Always quiet (Settled plan account w) (store.putSubscription s) u := by
  apply always_perform.2
  intro r a v hs
  rcases step_putSubscription (restrict_eq_some.1 hs).2 with ⟨x, _, rfl, _⟩ | ⟨_, rfl, rfl⟩
  · exact settled_error
  · intro _ _
    subst hacc
    exact ⟨s, Store.subscription_put _ s, hid⟩

theorem always_renew {plan : Plan} {s : Subscription} {w : World} (sold : Plan) (hacc : s.account = account)
    (hid : s.planId = standing plan account w) (u : World) :
    Always quiet (Settled plan account w)
      ((store.putSubscription s).bind fun s => (grant account sold s).bind fun _ => .ret (some s)) u := by
  apply always_bind.2
  apply (always_put hacc hid u).mono
  intro o v ho
  cases o with
  | error e => exact settled_error
  | ok renewed =>
      obtain ⟨kept, hrow, hkept⟩ := ho renewed rfl
      apply always_bind.2
      apply (always_unwritten (unwritten_grant sold renewed) v).mono
      intro o v' hsame
      cases o with
      | error e => exact settled_error
      | ok entry =>
          intro _ _
          exact ⟨kept, by rw [hsame, hrow], hkept⟩

theorem always_settleRow {plan : Plan} (hfree : g.catalog.freePlan = some plan) (now : Datetime) (w : World) :
    Always quiet (Settled plan account w) (settleRow g account now) w := by
  apply always_bind.2
  apply always_perform.2
  intro r a v hs
  obtain ⟨rfl, rfl | ⟨x, _, rfl⟩⟩ := step_subscription (restrict_eq_some.1 hs).2
  swap
  · exact settled_error
  cases hrow : v.store.subscription account with
  | none =>
      simp only [beginFree, hfree]
      exact always_renew plan rfl (by simp [standing, hrow, Subscription.begin]) v
  | some s =>
      have hacc : s.account = account := Store.subscription_account hrow
      have hid : s.planId = standing plan account v := by simp [standing, hrow]
      dsimp only
      split
      · intro _ _
        exact ⟨s, hrow, hid⟩
      · apply always_bind.2
        apply (always_unwritten (unwritten_expireGrant s now) v).mono
        intro o u hsame
        cases o with
        | error e => exact settled_error
        | ok _ =>
            have hend : Always quiet (Settled plan account v) (some <$> store.putSubscription s.ended) u := by
              apply always_bind.2
              apply (always_put (s := s.ended) hacc hid u).mono
              intro o u' ho
              cases o with
              | error e => exact settled_error
              | ok ended => exact fun _ _ => ho ended rfl
            cases hplan : g.catalog.plan s.planId with
            | error e => exact hend
            | ok sold =>
                dsimp only
                split
                · exact always_renew (s := s.renewed sold now) sold hacc hid u
                · exact hend

theorem always_settlePeriod {plan : Plan} (hfree : g.catalog.freePlan = some plan) (w : World) :
    Always quiet (Settled plan account w) (settlePeriod g account) w := by
  apply always_bind.2
  apply always_perform.2
  intro r a v hs
  obtain ⟨now, _, _, rfl, rfl⟩ := step_now (restrict_eq_some.1 hs).2
  apply always_bind.2
  apply (always_mirrorChain g account { w with clock := now }).mono
  rintro o v ⟨rfl, ho⟩
  cases o with
  | error e => exact settled_error
  | ok o =>
      cases ho o rfl
      exact always_settleRow hfree now { w with clock := now }

end Calls

section Rows

variable {g : Gateway}

def Inv (g : Gateway) (w : World) : Prop :=
  ∀ account s, w.store.subscription account = some s → IsFree g s.planId → s.status = .active

def lively (g : Gateway) : Scope := { subscription := fun s => IsFree g s.planId → s.status = .active }

theorem standing_lively : Standing g (lively g).subscription where
  active _ h _ := h
  ended s h hfree := by
    obtain ⟨plan, hplan, hf⟩ := hfree
    exact absurd (h plan hplan) (by simp [hf])

theorem permits (g : Gateway) (q : Request) : References.Permits (lively g) anyAnswer g q := by
  have hperiodic : Periodic (lively g).entry := by constructor <;> intros <;> trivial
  have hrows : References.Rows (lively g).invoice anyAnswer := rows_any
  cases q with
  | checkout account sku asset => exact writes_checkout (fun _ => trivial) account sku asset
  | requirements account resource price => exact writes_requirements (fun _ => trivial) account resource price
  | confirm | reconcile => exact ⟨hrows, standing_lively, fun _ => trivial⟩
  | settle | redeem => exact ⟨hrows, fun _ => trivial⟩
  | settlePeriod | authorize => exact ⟨hperiodic, standing_lively⟩
  | credit | charge => trivial

theorem Inv.step {log : BillingLog} {w w' : World} {c : Call} {r : Reply} {a : Except Error c.Answer} (h : Inv g w)
    (hg : allows (lively g) log c) (hs : w.step c r = some (a, w')) : Inv g w' := by
  by_cases hc : ∃ s, c = .putSubscription s
  · obtain ⟨s, rfl⟩ := hc
    rcases step_putSubscription hs with ⟨x, _, _, rfl⟩ | ⟨_, _, rfl⟩
    · exact h
    · intro account row hrow
      by_cases hacc : s.account = account
      · subst hacc
        rw [Store.subscription_put] at hrow
        cases hrow
        exact hg
      · rw [Store.subscription_put_of_ne hacc] at hrow
        exact h account row hrow
  · push Not at hc
    intro account row hrow
    rw [subscription_step hc hs] at hrow
    exact h account row hrow

def protocol (g : Gateway) (starts : Request → Prop) (rule : Rule) : Protocol (body g) World.step starts rule where
  inv w _ := Inv g w
  guard _ := allows (lively g)
  admits _ := anyAnswer
  post _ _ _ := True
  arrive _ h := h
  follows {q} _ := writes_body (permits g q) [] trivial
  sound h _ hg _ hs := ⟨h.step hg hs, trivial⟩
  leave h _ _ := h

theorem Inv.exec {account : String} {w v : World} {rs : List Reply} {o : Except Error (Option Subscription)}
    (h : Inv g w) (he : exec quiet (settlePeriod g account) w rs = some (o, v)) : Inv g v := by
  have hperiodic : Periodic (lively g).entry := by constructor <;> intros <;> trivial
  exact exec_invariant (Inv g) (fun log w c r a w' hw hg hs => ⟨trivial, hw.step hg (restrict_eq_some.1 hs).2⟩)
    (writes_settlePeriod (A := anyAnswer) hperiodic standing_lively account [] trivial) he h

end Rows

theorem settledTwice_eq_some {g : Gateway} {account : String} {w v' : World} {rs rs' : List Reply}
    (h : settledTwice g account w rs rs' = some v') : ∃ x v x', exec quiet (settlePeriod g account) w rs = some (.ok x, v) ∧
      exec quiet (settlePeriod g account) v rs' = some (.ok x', v') := by
  unfold settledTwice at h
  split at h
  · split at h
    · cases h
      exact ⟨_, _, _, ‹_›, ‹_›⟩
    · cases h
  · cases h

/-- Whatever the history of the accounts was, two calls while the chain is quiet
leave one of them on a free plan if and only if it was under one before them. -/
theorem free_again_iff {g : Gateway} {starts : Request → Prop} {rule : Rule} {t : Datetime} {c : Pool} {plan : Plan}
    {account : String} {rs rs' : List Reply} {w : World} (hfree : g.catalog.freePlan = some plan)
    (h : Reachable g starts rule ⟨{}, t⟩ c) (htwice : settledTwice g account c.world rs rs' = some w) :
    OnFree g account w ↔ IsFree g (standing plan account c.world) := by
  obtain ⟨x, v, x', hfirst, hsecond⟩ := settledTwice_eq_some htwice
  have hempty : Inv g ⟨{}, t⟩ := by
    intro account s hrow
    cases hrow
  have hinv : Inv g w := (((protocol g starts rule).invariant hempty h).exec hfirst).exec hsecond
  obtain ⟨s, hrow, hs⟩ := (always_settlePeriod hfree c.world).exec hfirst x rfl
  obtain ⟨s', hrow', hs'⟩ := (always_settlePeriod hfree v).exec hsecond x' rfl
  have hsame : s'.planId = standing plan account c.world := by
    rw [hs', ← hs]
    simp [standing, hrow]
  constructor
  · rintro ⟨row, hr, _, hf⟩
    rw [hrow'] at hr
    cases hr
    rwa [hsame] at hf
  · intro hf
    have hactive : s'.status = .active := hinv account s' hrow' (hsame.symm ▸ hf)
    exact ⟨s', hrow', hactive, hsame.symm ▸ hf⟩

def shop : Gateway := { catalog := defaultCatalog, chainAvailable := true }

def freePlan : Plan := ⟨FREE_PLAN_ID, "Free", {}, shop.catalog.pricing.tokensFor FREE_WEEKLY_VALUE, .weekly⟩

/-- A month of a paid plan, as the contract keeps it. -/
def paidMonth : OnChainSubscription := ⟨"starter", 0, 30 * DAY, 1⟩

theorem free_again : ∃ w, settledTwice shop "GPAYER" ⟨{}, 0⟩
      [.time (40 * DAY), .onChain (some paidMonth), .done, .done, .text "e1", .time (40 * DAY), .done]
      [.time (48 * DAY), .onChain (some paidMonth), .done, .done, .text "e2", .done, .done, .text "e3",
        .time (48 * DAY), .done] = some w ∧ OnFree shop "GPAYER" w := by
  have hrun : (settledTwice shop "GPAYER" ⟨{}, 0⟩
      [.time (40 * DAY), .onChain (some paidMonth), .done, .done, .text "e1", .time (40 * DAY), .done]
      [.time (48 * DAY), .onChain (some paidMonth), .done, .done, .text "e2", .done, .done, .text "e3",
        .time (48 * DAY), .done]).isSome = true := by decide +kernel
  obtain ⟨w, hw⟩ := Option.isSome_iff_exists.1 hrun
  have hfree : shop.catalog.freePlan = some freePlan := by decide +kernel
  have hinit : Reachable shop (fun _ => True) anyStep ⟨{}, 0⟩ ⟨⟨{}, 0⟩, []⟩ := Reaches.init
  exact ⟨w, hw, (free_again_iff hfree hinit hw).2 (by decide +kernel)⟩

def everyone (_ : Request) : Prop := True

instance : DecidablePred everyone := fun _ => inferInstanceAs (Decidable True)

/-- Read once while its month runs, an account is left with a row that has
ended, and no free week begins. -/
theorem never_free_again : ∃ c w, Reachable shop everyone anyStep ⟨{}, 0⟩ c ∧
    settledTwice shop "GPAYER" c.world [.time (40 * DAY), .onChain (some paidMonth), .done, .done, .text "e2", .done, .done]
      [.time (41 * DAY), .onChain (some paidMonth), .done] = some w ∧
    w.store.subscription "GPAYER" = some ⟨"GPAYER", "starter", 0, 30 * DAY, .expired⟩ ∧ ¬ OnFree shop "GPAYER" w := by
  have hrun : (run (body shop) World.step everyone anyStep ⟨⟨{}, 0⟩, []⟩
      [.start (.settlePeriod "GPAYER"), .step 0 (.time 0), .step 0 (.onChain (some paidMonth)), .step 0 .done,
        .step 0 (.text "e1"), .step 0 (.time 0), .step 0 .done, .finish 0]).any (fun c =>
      (settledTwice shop "GPAYER" c.world [.time (40 * DAY), .onChain (some paidMonth), .done, .done, .text "e2", .done, .done]
        [.time (41 * DAY), .onChain (some paidMonth), .done]).any fun w =>
          w.store.subscription "GPAYER" = some ⟨"GPAYER", "starter", 0, 30 * DAY, .expired⟩ &&
            !decide (OnFree shop "GPAYER" w)) = true := by decide +kernel
  obtain ⟨c, hr, hc⟩ := reaches_of_run hrun
  obtain ⟨w, hw, hx⟩ := (Option.any_eq_true _ _).1 hc
  simp only [Bool.and_eq_true, decide_eq_true_eq, Bool.not_eq_true', decide_eq_false_iff_not] at hx
  exact ⟨c, w, hr, hw, hx⟩

end CodeZard.Fallbacks
