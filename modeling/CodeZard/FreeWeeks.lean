import CodeZard.Renewals

namespace CodeZard.FreeWeeks

open Amounts Products Ledgers Periods Storage Ports Interleaving Requests Renewals

def Renews (account : String) (q : Request) : Prop := renews account q = true

instance (account : String) : DecidablePred (Renews account) :=
  fun q => inferInstanceAs (Decidable (renews account q = true))

def isFreeGrant (account : String) (plan : Plan) (e : LedgerEntry) : Bool :=
  e.account = account && e.kind = .grant && match e.reference with
    | .grant planId _ => planId = plan.id
    | _ => false

def freeGrants (account : String) (plan : Plan) (s : Store) : List LedgerEntry :=
  s.ledger.filter (isFreeGrant account plan)

/-- When the period that an entry grants began. -/
def startOf (plan : Plan) (e : LedgerEntry) : Datetime :=
  match e.reference with
  | .grant _ renewsAt => renewsAt - plan.period
  | _ => 0

def Spaced (d t t' : Int) : Prop := t + d ≤ t' ∨ t' + d ≤ t

/-- No two of the grants are for overlapping weeks. -/
def Apart (account : String) (plan : Plan) (s : Store) : Prop :=
  (freeGrants account plan s).Pairwise fun e e' => Spaced plan.period (startOf plan e) (startOf plan e')

/-- Nobody finds the row wanting while another call that did has neither
written it nor returned. -/
def OneAtATime (account : String) : Rule := fun w vs v c r =>
  match c, r with
  | .subscription _, .done => wanting (w.store.subscription account) (clock v.log) = true →
      ∀ u ∈ vs, holding u = false
  | _, _ => True

instance (account : String) (w : World) (vs : List InProgress) (v : InProgress) (c : Call) (r : Reply) :
    Decidable (OneAtATime account w vs v c r) := by
  rcases c <;> rcases r <;> dsimp only [OneAtATime] <;> infer_instance

def Wrote (vs : List InProgress) (s : Subscription) : Prop :=
  s.status = .active ∧ ∃ v ∈ vs, ∃ x, ⟨.putSubscription s, .ok x⟩ ∈ v.log

structure Inv (account : String) (plan : Plan) (w : World) (vs : List InProgress) : Prop where
  requests : ∀ v ∈ vs, Renews account v.request
  single : AtMostOne (fun v => holding v = true) vs
  current : ∀ v ∈ vs, v.result = none → ∀ s now, held v.log = some (s, now) →
    w.store.subscription account = s
  row : ∀ s, w.store.subscription account = some s → s.planId = plan.id
  latest : ∀ s, Wrote vs s → s.planId = plan.id ∧
    ∃ s', w.store.subscription account = some s' ∧ s.renewsAt ≤ s'.renewsAt
  spaced : ∀ s s', Wrote vs s → Wrote vs s' → s.renewsAt ≠ s'.renewsAt →
    Spaced plan.period s.renewsAt s'.renewsAt
  granted : ∀ e ∈ freeGrants account plan w.store, ∃ s, Wrote vs s ∧ e.reference = s.grantReference
  apart : Apart account plan w.store

section Steps

variable {g : Gateway} {account : String} {plan : Plan} {w w' : World} {vs : List InProgress} {n : Nat}
  {q : Request} {log : BillingLog} {x : (c : Call) × Except Error c.Answer}

theorem inv_init (h₀ : w.store.subscription account = none) (hg : freeGrants account plan w.store = []) :
    Inv account plan w [] where
  requests := by simp
  single := atMostOne_nil
  current := by simp
  row := by simp [h₀]
  latest := by simp [Wrote]
  spaced := by simp [Wrote]
  granted := by simp [hg]
  apart := by simp [Apart, hg]

theorem Inv.arrive (h : Inv account plan w vs) (hq : Renews account q) :
    Inv account plan w (vs ++ [⟨q, [], none⟩]) := by
  have hw {s : Subscription} : Wrote (vs ++ [⟨q, [], none⟩]) s ↔ Wrote vs s := by simp [Wrote]
  refine ⟨fun v hv => ?_, h.single.concat (by simp [holding, held]), fun v hv => ?_, h.row,
    fun s hs => h.latest s (hw.1 hs), fun s s' hs hs' => h.spaced s s' (hw.1 hs) (hw.1 hs'),
    fun e he => (h.granted e he).imp fun s hs => ⟨hw.2 hs.1, hs.2⟩, h.apart⟩
  · rcases List.mem_append.1 hv with hv | hv
    · exact h.requests v hv
    · obtain rfl := List.mem_singleton.1 hv
      exact hq
  · rcases List.mem_append.1 hv with hv | hv
    · exact h.current v hv
    · obtain rfl := List.mem_singleton.1 hv
      simp [held]

theorem Inv.leave (h : Inv account plan w vs) (hn : vs[n]? = some ⟨q, log, none⟩) (o : Except Error Outcome) :
    Inv account plan w (vs.set n ⟨q, log, some o⟩) := by
  have hw {s : Subscription} : Wrote (vs.set n ⟨q, log, some o⟩) s ↔ Wrote vs s := by
    refine and_congr_right fun _ => ⟨fun hs => ?_, fun ⟨v, hv, hs⟩ => ?_⟩
    · exact (exists_of_set hs).elim (fun hs => ⟨⟨q, log, none⟩, List.mem_of_getElem? hn, hs⟩) (fun hs => hs)
    · rcases mem_set_or_eq hn hv ⟨q, log, some o⟩ with hv | rfl
      · exact ⟨v, hv, hs⟩
      · exact ⟨_, mem_set_self hn _, hs⟩
  refine ⟨fun v hv => ?_, h.single.set hn (by simp [holding]), fun v hv hr => ?_, h.row,
    fun s hs => h.latest s (hw.1 hs), fun s s' hs hs' => h.spaced s s' (hw.1 hs) (hw.1 hs'),
    fun e he => (h.granted e he).imp fun s hs => ⟨hw.2 hs.1, hs.2⟩, h.apart⟩
  · rcases List.mem_or_eq_of_mem_set hv with hv | rfl
    · exact h.requests v hv
    · exact h.requests ⟨q, log, none⟩ (List.mem_of_getElem? hn)
  · rcases List.mem_or_eq_of_mem_set hv with hv | rfl
    · exact h.current v hv hr
    · cases hr

theorem requests_set (h : Inv account plan w vs) (hn : vs[n]? = some ⟨q, log, none⟩) :
    ∀ v ∈ vs.set n ⟨q, x :: log, none⟩, Renews account v.request := by
  intro v hv
  rcases List.mem_or_eq_of_mem_set hv with hv | rfl
  · exact h.requests v hv
  · exact h.requests ⟨q, log, none⟩ (List.mem_of_getElem? hn)

theorem wrote_set (hn : vs[n]? = some ⟨q, log, none⟩) (hx : ∀ s y, x ≠ ⟨.putSubscription s, .ok y⟩)
    {s : Subscription} : Wrote (vs.set n ⟨q, x :: log, none⟩) s ↔ Wrote vs s := by
  refine and_congr_right fun _ => ⟨fun hs => ?_, fun ⟨v, hv, y, hs⟩ => ?_⟩
  · rcases exists_of_set hs with ⟨y, hs⟩ | hs
    · rcases List.mem_cons.1 hs with hs | hs
      · exact absurd hs.symm (hx s y)
      · exact ⟨_, List.mem_of_getElem? hn, y, hs⟩
    · exact hs
  · rcases mem_set_or_eq hn hv ⟨q, x :: log, none⟩ with hv | rfl
    · exact ⟨v, hv, y, hs⟩
    · exact ⟨_, mem_set_self hn _, y, List.mem_cons_of_mem _ hs⟩

theorem Inv.observe (h : Inv account plan w vs) (hn : vs[n]? = some ⟨q, log, none⟩)
    (hs : w'.store.subscription account = w.store.subscription account)
    (hg : ∀ e ∈ freeGrants account plan w'.store, ∃ s, Wrote vs s ∧ e.reference = s.grantReference)
    (ha : Apart account plan w'.store) (hx : ∀ s y, x ≠ ⟨.putSubscription s, .ok y⟩)
    (hheld : ∀ s now, held (x :: log) = some (s, now) → held log = some (s, now) ∨
      (w.store.subscription account = s ∧ ∀ u ∈ vs, holding u = false)) :
    Inv account plan w' (vs.set n ⟨q, x :: log, none⟩) := by
  have hw {s : Subscription} := wrote_set (s := s) hn hx
  refine ⟨requests_set h hn, ?_, fun v hv hr s now hv' => ?_, hs ▸ h.row,
    fun s hsw => hs ▸ h.latest s (hw.1 hsw), fun s s' hsw hsw' => h.spaced s s' (hw.1 hsw) (hw.1 hsw'),
    fun e he => (hg e he).imp fun s hs => ⟨hw.2 hs.1, hs.2⟩, ha⟩
  · by_cases hnone : ∀ u ∈ vs, holding u = false
    · exact atMostOne_set fun u hu => by simp [hnone u hu]
    · refine h.single.set hn fun hh => ?_
      obtain ⟨s, now, hh⟩ := holding_iff.1 hh
      exact holding_iff.2 ⟨s, now, (hheld s now hh).resolve_right fun hr => hnone hr.2⟩
  · rw [hs]
    rcases List.mem_or_eq_of_mem_set hv with hv | rfl
    · exact h.current v hv hr s now hv'
    · rcases hheld s now hv' with hv' | hv'
      · exact h.current _ (List.mem_of_getElem? hn) rfl s now hv'
      · exact hv'.1

theorem follows_cases (hf : g.catalog.freePlan = some plan) {now : Datetime} {s₀ : Option Subscription}
    {s : Subscription} (h : Follows g account now s₀ s) (hrow : ∀ r, s₀ = some r → r.planId = plan.id) :
    s.planId = plan.id ∧
      (s.renewsAt = now + plan.period ∨ (s.status = .expired ∧ ∃ r, s₀ = some r ∧ s.renewsAt = r.renewsAt)) := by
  cases s₀ with
  | none =>
      obtain ⟨p, hp, rfl⟩ := h
      obtain rfl : plan = p := Option.some.inj (hf.symm.trans hp)
      exact ⟨rfl, .inl rfl⟩
  | some r =>
      have hid := hrow r rfl
      rcases h with rfl | ⟨p, hp, hfree, rfl⟩
      · exact ⟨hid, .inr ⟨rfl, r, rfl, rfl⟩⟩
      · obtain rfl := Catalog.freePlan_unique hf (hid ▸ hp) hfree
        exact ⟨hid, .inl rfl⟩

theorem Inv.write (h : Inv account plan w vs) (hf : g.catalog.freePlan = some plan)
    (hn : vs[n]? = some ⟨q, log, none⟩) {s : Subscription} (hg : guard g account log (.putSubscription s)) :
    Inv account plan { w with store := w.store.putSubscription s }
      (vs.set n ⟨q, ⟨.putSubscription s, .ok s⟩ :: log, none⟩) := by
  obtain ⟨hacc, s₀, now, hh, hfol⟩ := hg
  have hv := List.mem_of_getElem? hn
  have hcur := h.current _ hv rfl s₀ now hh
  obtain ⟨hid, hends⟩ := follows_cases hf hfol fun r hr => h.row r (hcur.trans hr)
  have hnew : (w.store.putSubscription s).subscription account = some s := hacc ▸ w.store.subscription_put s
  have hold {r : Subscription} (hr : Wrote vs r) : r.renewsAt + plan.period ≤ now + plan.period ∧
      ∀ r', s₀ = some r' → r.renewsAt ≤ r'.renewsAt := by
    obtain ⟨_, r', hr', hle⟩ := h.latest r hr
    obtain rfl : s₀ = some r' := hcur.symm.trans hr'
    refine ⟨Int.add_le_add_right (le_trans hle (held_due hh).2) _, fun r'' hr'' => ?_⟩
    cases hr''
    exact hle
  have hpos := plan.period_pos
  have hw {r : Subscription} (hr : Wrote (vs.set n ⟨q, ⟨.putSubscription s, .ok s⟩ :: log, none⟩) r) :
      Wrote vs r ∨ (r = s ∧ s.renewsAt = now + plan.period) := by
    obtain ⟨ha, hr⟩ := hr
    rcases exists_of_set hr with ⟨y, hr⟩ | hr
    · rcases List.mem_cons.1 hr with hr | hr
      · cases hr
        refine .inr ⟨rfl, hends.resolve_right fun he => ?_⟩
        rw [he.1] at ha
        cases ha
      · exact .inl ⟨ha, _, hv, y, hr⟩
    · exact .inl ⟨ha, hr⟩
  refine ⟨requests_set h hn, h.single.set hn (by simp [holding, held]), fun v hm hr s' t hs' => ?_,
    fun r hr => ?_, fun r hr => ?_, fun r r' hr hr' hne => ?_, fun e he => ?_, h.apart⟩
  · rcases h.single.others hn (holding_iff.2 ⟨s₀, now, hh⟩) hm with rfl | hno
    · cases hs'
    · exact absurd (by simp [holding, hr, hs']) hno
  · obtain rfl : s = r := Option.some.inj (hnew.symm.trans hr)
    exact hid
  · rcases hw hr with hr | ⟨rfl, _⟩
    · refine ⟨(h.latest r hr).1, s, hnew, ?_⟩
      rcases hends with he | ⟨_, r', hr', he⟩
      · rw [he]
        exact le_trans (Int.le_add_of_nonneg_right hpos.le) (hold hr).1
      · rw [he]
        exact (hold hr).2 r' hr'
    · exact ⟨hid, r, hnew, le_rfl⟩
  · rcases hw hr with hr₁ | ⟨rfl, he⟩ <;> rcases hw hr' with hr₁' | ⟨rfl, he'⟩
    · exact h.spaced r r' hr₁ hr₁' hne
    · exact .inl (he' ▸ (hold hr₁).1)
    · exact .inr (he ▸ (hold hr₁').1)
    · exact absurd rfl hne
  · obtain ⟨r, ⟨ha, v, hvm, y, hr⟩, hre⟩ := h.granted e he
    refine ⟨r, ⟨ha, ?_⟩, hre⟩
    rcases mem_set_or_eq hn hvm ⟨q, ⟨.putSubscription s, .ok s⟩ :: log, none⟩ with hvm | rfl
    · exact ⟨v, hvm, y, hr⟩
    · exact ⟨_, mem_set_self hn _, y, List.mem_cons_of_mem _ hr⟩

theorem Inv.granted_append (h : Inv account plan w vs) (hn : vs[n]? = some ⟨q, log, none⟩) {e : LedgerEntry}
    (hg : Enters account log e) : (∀ x ∈ freeGrants account plan (w.store.append e).2, ∃ s, Wrote vs s ∧
      x.reference = s.grantReference) ∧ Apart account plan (w.store.append e).2 := by
  have hnew (hx : isFreeGrant account plan e = true) : ∃ s, Wrote vs s ∧ e.reference = s.grantReference := by
    rcases hg.2 with ⟨hk, _⟩ | ⟨_, s, hs, ha, hr⟩
    · simp [isFreeGrant, hk] at hx
    · obtain ⟨y, hy⟩ := written_mem hs
      exact ⟨s, ⟨ha, _, List.mem_of_getElem? hn, y, hy⟩, hr⟩
  refine ⟨fun x hx => ?_, ?_⟩
  · obtain ⟨hx, hfree⟩ := List.mem_filter.1 hx
    rcases Store.mem_append_ledger hx with hx | rfl
    · exact h.granted x (List.mem_filter.2 ⟨hx, hfree⟩)
    · exact hnew hfree
  · rcases w.store.append_cases e with ⟨_, _, _, ha⟩ | ⟨_, _, _, ha⟩ | ⟨_, hr, ha⟩
    · rw [ha]; exact h.apart
    · rw [ha]; exact h.apart
    · rw [ha, Apart, freeGrants, List.filter_append]
      refine List.pairwise_append.2 ⟨h.apart, List.Pairwise.filter _ (List.pairwise_singleton _ e), ?_⟩
      intro x hx y hy
      obtain ⟨hy, hfree⟩ := List.mem_filter.1 hy
      obtain rfl := List.mem_singleton.1 hy
      obtain ⟨s, hs, hsr⟩ := h.granted x hx
      obtain ⟨s', hs', hsr'⟩ := hnew hfree
      have hne := Store.recorded_none hr (by simp [hsr', Subscription.grantReference]) x (List.mem_filter.1 hx).1
      have hsp := h.spaced s s' hs hs' fun he => hne (by
        rw [hsr, hsr', Subscription.grantReference, Subscription.grantReference, he, (h.latest s hs).1,
          (h.latest s' hs').1])
      simp only [startOf, hsr, hsr', Subscription.grantReference]
      unfold Spaced at hsp ⊢
      omega

theorem Inv.step {c : Call} {r : Reply} {a : Except Error c.Answer} (h : Inv account plan w vs)
    (hf : g.catalog.freePlan = some plan) (hn : vs[n]? = some ⟨q, log, none⟩) (hg : guard g account log c)
    (hc : OneAtATime account w vs ⟨q, log, none⟩ c r) (hs : w.step c r = some (a, w')) :
    Inv account plan w' (vs.set n ⟨q, ⟨c, a⟩ :: log, none⟩) := by
  have hsame (hw : w'.store = w.store) (hx : ∀ s y, (⟨c, a⟩ : (c : Call) × Except Error c.Answer) ≠ ⟨.putSubscription s, .ok y⟩)
      (hheld : ∀ s now, held (⟨c, a⟩ :: log) = some (s, now) → held log = some (s, now) ∨
        (w.store.subscription account = s ∧ ∀ u ∈ vs, holding u = false)) :
      Inv account plan w' (vs.set n ⟨q, ⟨c, a⟩ :: log, none⟩) :=
    h.observe hn (by rw [hw]) (by rw [hw]; exact h.granted) (by rw [hw]; exact h.apart) hx hheld
  cases c with
  | subscription b =>
      obtain ⟨rfl, _⟩ := hg
      refine hsame (step_reads hs rfl) (by simp) fun s now hh => ?_
      rcases held_cons hh with hh | ⟨⟨_, hx⟩, rfl, hw⟩
      · exact .inl hh
      · obtain rfl : a = .ok s := by simpa using (Sigma.mk.inj hx).2
        obtain ⟨_, ha | ⟨_, _, ha⟩⟩ := step_subscription hs
        · obtain rfl := Except.ok.inj ha
          cases r <;> cases hs
          exact .inr ⟨rfl, hc hw⟩
        · cases ha
  | putSubscription s =>
      rcases step_putSubscription hs with ⟨_, _, rfl, rfl⟩ | ⟨_, rfl, rfl⟩
      · exact hsame rfl (by simp) (by simp [held])
      · exact h.write hf hn hg
  | append e =>
      have hheld : ∀ s now, held (⟨.append e, a⟩ :: log) = some (s, now) → held log = some (s, now) ∨
          (w.store.subscription account = s ∧ ∀ u ∈ vs, holding u = false) := fun s now hh => .inl hh
      rcases step_append hs with ⟨_, _, rfl, rfl⟩ | ⟨_, rfl, rfl⟩
      · exact hsame rfl (by simp) hheld
      · obtain ⟨hgr, hap⟩ := h.granted_append hn hg
        exact h.observe hn (by simp) hgr hap (by simp) hheld
  | putInvoice i => exact absurd hg id
  | allEntries | entryId => exact hsame (step_reads hs rfl) (by simp) fun s now hh => .inl hh
  | now | newInvoiceId | invoice | openInvoices | paymentFor | quote | verify | settle | onChain =>
      exact hsame (step_reads hs rfl) (by simp) (by simp [held])

end Steps

def protocol {g : Gateway} (account : String) {plan : Plan} (hf : g.catalog.freePlan = some plan) :
    Protocol (body g) World.step (Renews account) (both (Silent g) (OneAtATime account)) where
  inv := Inv account plan
  guard _ := guard g account
  admits _ := admits g
  post _ _ _ := True
  arrive hq h := h.arrive hq
  follows hq := follows hq
  sound h hn hg hc hs := ⟨h.step hf hn hg hc.2 hs, admits_step hc.1 hs⟩
  leave h hn _ := h.leave hn _

/-- An account that starts unseen is granted one week at a time. -/
theorem free_weeks_apart {g : Gateway} {account : String} {plan : Plan} (hf : g.catalog.freePlan = some plan)
    {w : World} (h₀ : w.store.subscription account = none) (hg : freeGrants account plan w.store = []) {c : Pool}
    (h : Reachable g (Renews account) (both (Silent g) (OneAtATime account)) w c) :
    Apart account plan c.world.store :=
  ((protocol account hf).invariant (inv_init h₀ hg) h).apart

def shop : Gateway := { catalog := defaultCatalog }

def freePlan : Plan := ⟨FREE_PLAN_ID, "Free", {}, shop.catalog.pricing.tokensFor FREE_WEEKLY_VALUE, .weekly⟩

def twoWeeks : List (Event Request Reply) := [
  .start (.settlePeriod "A"), .step 0 (.time 0), .step 0 .done, .step 0 .done, .step 0 (.text "e1"),
  .step 0 (.time 1), .step 0 .done, .finish 0,
  .start (.settlePeriod "A"), .step 1 (.time WEEK), .step 1 .done, .step 1 .done, .step 1 (.text "e2"),
  .step 1 .done, .step 1 .done, .step 1 (.text "e3"), .step 1 (.time WEEK), .step 1 .done, .finish 1]

theorem free_weeks_apart_renewed : ∃ c, shop.catalog.freePlan = some freePlan ∧
    Reachable shop (Renews "A") (both (Silent shop) (OneAtATime "A")) {} c ∧
    (freeGrants "A" freePlan c.world.store).map (startOf freePlan) = [0, WEEK] ∧
    Apart "A" freePlan c.world.store := by
  have hr : (run (body shop) World.step (Renews "A") (both (Silent shop) (OneAtATime "A")) ⟨{}, []⟩ twoWeeks).any
      (fun c => (freeGrants "A" freePlan c.world.store).map (startOf freePlan) = [0, WEEK]) = true := by
    decide +kernel
  obtain ⟨c, h, hp⟩ := reaches_of_run hr
  have hf : shop.catalog.freePlan = some freePlan := by decide +kernel
  exact ⟨c, hf, h, of_decide_eq_true hp, free_weeks_apart hf rfl rfl h⟩

def seenTwice : List (Event Request Reply) := [
  .start (.settlePeriod "A"), .start (.settlePeriod "A"), .step 0 (.time 0), .step 1 (.time 1),
  .step 0 .done, .step 1 .done, .step 0 .done, .step 0 (.text "e1"), .step 0 (.time 2), .step 0 .done, .finish 0,
  .step 1 .done, .step 1 (.text "e2"), .step 1 (.time 3), .step 1 .done, .finish 1]

theorem first_week_granted_twice : shop.catalog.freePlan = some freePlan ∧
    ∃ c, Reachable shop (Renews "A") (Silent shop) {} c ∧
      (freeGrants "A" freePlan c.world.store).map (startOf freePlan) = [0, 1] ∧
      ¬ Apart "A" freePlan c.world.store := by
  have hr : (run (body shop) World.step (Renews "A") (Silent shop) ⟨{}, []⟩ seenTwice).any
      (fun c => (freeGrants "A" freePlan c.world.store).map (startOf freePlan) = [0, 1]) = true := by
    decide +kernel
  obtain ⟨c, h, hp⟩ := reaches_of_run hr
  have hp := of_decide_eq_true hp
  refine ⟨by decide +kernel, c, h, hp, fun ha => ?_⟩
  have hs : [(0 : Int), 1].Pairwise (Spaced freePlan.period) := hp ▸ List.pairwise_map.2 ha
  exact absurd hs (by unfold Spaced; decide)

end CodeZard.FreeWeeks
