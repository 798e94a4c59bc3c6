import CodeZard.Grants

namespace CodeZard.LostGrants

open Amounts Products Ledgers Periods Storage Programs Ports Interleaving Requests Grants

/-- A world, while the period of one account is settled and nobody else calls. -/
structure Tally where
  world : World
  /-- The on-chain period that this call goes by. -/
  live : Option Reference := none
  /-- What the grant of the row in place is kept under. -/
  key : Option Reference := none
  /-- A grant of this call was not taken down. -/
  lost : Bool := false

namespace Tally

/-- Another call begins. -/
def enter (n : Tally) : Tally := { n with live := none, lost := false }

def note (g : Gateway) (n : Tally) : Call → Reply → Tally
  | .onChain _, .onChain o => { n with
      live := (o.filter fun o => Renewals.live g o n.world.clock).map OnChainSubscription.reference }
  | .putSubscription s, .done => { n with key := some (n.live.getD s.grantReference) }
  | .append e, r => if e.kind = .grant ∧ lands n.world.store e r = false then { n with lost := true } else n
  | _, _ => n

def step (g : Gateway) : Step Call Call.Answer Error Tally Reply :=
  fun n c r => (n.world.step c r).map fun s => (s.1, { n.note g c r with world := s.2 })

def row (account : String) (n : Tally) : Option Subscription := n.world.store.subscription account

end Tally

/-- The grant of the row in place is on record, if the row runs. -/
def Granted (account : String) (n : Tally) : Prop :=
  ∀ s, n.row account = some s → s.status = .active →
    ∃ x, n.key = some x ∧ onRecord n.world.store account x = true

/-- There is a row, and it is not over. -/
def stands (account : String) (n : Tally) (now : Datetime) : Bool := (n.row account).any fun s => !s.due now

/-- What comes of writing a row: nothing if it raises at once, or else the grant
is there unless it is lost. -/
def Wrote (account : String) (n : Tally) {α : Type} (o : Except Error α) (n' : Tally) : Prop :=
  match o with
  | .error _ => Granted account n → (Granted account n' ↔ n'.lost = false)
  | .ok _ => Granted account n' ↔ n'.lost = false

/-- What comes of settling a period. Left alone the row in place is as good as
it was, and a new one is as good as its grant. -/
def Outcome (account : String) (now : Datetime) (n : Tally) {α : Type} (o : Except Error α) (n' : Tally) : Prop :=
  match o with
  | .error _ => Granted account n → (Granted account n' ↔ n'.lost = false)
  | .ok _ =>
      (n'.live = none → stands account n now = true → (Granted account n' ↔ Granted account n) ∧ n'.lost = false) ∧
        (n'.live ≠ none ∨ stands account n now = false → (Granted account n' ↔ n'.lost = false))

section Steps

variable {g : Gateway} {account : String} {n n' : Tally} {c : Call} {r : Reply} {a : Except Error c.Answer}
  {s : Subscription} {x : Reference} {α : Type}

theorem step_cases (h : n.step g c r = some (a, n')) :
    ∃ w', n.world.step c r = some (a, w') ∧ n' = { n.note g c r with world := w' } := by
  obtain ⟨⟨b, w'⟩, hs, he⟩ := Option.map_eq_some_iff.1 h
  cases he
  exact ⟨w', hs, rfl⟩

/-- Nothing that matters to the grant of the row has changed. -/
structure Same (account : String) (n n' : Tally) : Prop where
  row : n'.row account = n.row account
  key : n'.key = n.key
  live : n'.live = n.live
  lost : n'.lost = n.lost
  records : ∀ x, onRecord n.world.store account x = true → onRecord n'.world.store account x = true

theorem Same.refl (account : String) (n : Tally) : Same account n n := ⟨rfl, rfl, rfl, rfl, fun _ h => h⟩

theorem Same.trans {n'' : Tally} (h : Same account n n') (h' : Same account n' n'') : Same account n n'' :=
  ⟨h'.row.trans h.row, h'.key.trans h.key, h'.live.trans h.live, h'.lost.trans h.lost,
    fun x hx => h'.records x (h.records x hx)⟩

theorem Same.granted (h : Same account n n') (hg : Granted account n) : Granted account n' := by
  intro s hs hact
  rw [h.row] at hs
  obtain ⟨x, hx, hr⟩ := hg s hs hact
  exact ⟨x, h.key.trans hx, h.records x hr⟩

theorem same_step (hput : ∀ s, c ≠ .putSubscription s) (happend : ∀ e, c = .append e → e.kind ≠ .grant)
    (hchain : ∀ b, c ≠ .onChain b) (h : n.step g c r = some (a, n')) : Same account n n' := by
  obtain ⟨w', hs, rfl⟩ := step_cases h
  have hnote : n.note g c r = n := by
    cases c with
    | putSubscription s => exact absurd rfl (hput s)
    | append e => exact if_neg fun hk => happend e rfl hk.1
    | onChain b => exact absurd rfl (hchain b)
    | _ => rfl
  rw [hnote]
  exact ⟨subscription_step hput hs account, rfl, rfl, rfl, fun x hx => onRecord_step hs hx⟩

theorem granted_iff (hr : n.row account = some s) (hact : s.status = .active) (hk : n.key = some x) :
    Granted account n ↔ onRecord n.world.store account x = true := by
  constructor
  · intro h
    obtain ⟨y, hy, hon⟩ := h s hr hact
    rw [hk] at hy
    cases hy
    exact hon
  · intro hon s' hs' _
    exact ⟨x, hk, hon⟩

theorem granted_of_not_active (h : ∀ s, n.row account = some s → s.status ≠ .active) : Granted account n :=
  fun s hs hact => absurd hact (h s hs)

theorem always_ask {post : Except Error c.Answer → Tally → Prop}
    (h : ∀ r a n', n.step g c r = some (a, n') → post a n') : Always (Tally.step g) post (ask c) n :=
  always_perform.2 h

theorem always_ask_bind {post : Except Error α → Tally → Prop} {f : c.Answer → Billing α}
    (h : ∀ r a n', n.step g c r = some (a, n') → match a with
      | .ok v => Always (Tally.step g) post (f v) n'
      | .error e => post (.error e) n') : Always (Tally.step g) post ((ask c).bind f) n := by
  refine always_bind.2 (always_perform.2 fun r a n' hs => ?_)
  have hpost := h r a n' hs
  cases a <;> exact hpost

theorem always_row {post : Except Error α → Tally → Prop} {f : Option Subscription → Billing α}
    (herror : ∀ e, post (.error e) n) (hok : Always (Tally.step g) post (f (n.row account)) n) :
    Always (Tally.step g) post ((store.subscription account).bind f) n := by
  apply always_ask_bind
  intro r a n' h
  obtain ⟨w', hs, rfl⟩ := step_cases h
  obtain ⟨rfl, rfl | ⟨e, rfl, rfl⟩⟩ := step_subscription hs
  · cases r <;> cases hs
    exact hok
  · exact herror e

theorem append_step (account : String) {e : LedgerEntry} {a : Except Error LedgerEntry} (hk : e.kind = .grant)
    (hb : e.reference ≠ .blank) (hl : n.lost = false) (h : n.step g (.append e) r = some (a, n')) :
    n'.row account = n.row account ∧ n'.key = n.key ∧ n'.live = n.live ∧
      (onRecord n'.world.store e.account e.reference = true ↔ n'.lost = false) := by
  obtain ⟨w', hs, rfl⟩ := step_cases h
  have hrow := subscription_step (by simp) hs account
  have hon := onRecord_append hs hk hb
  simp only [Tally.note, hk, true_and]
  cases hlands : lands n.world.store e r with
  | true =>
      rw [if_neg (by simp)]
      exact ⟨hrow, rfl, rfl, by rw [hon, hlands, hl]; simp⟩
  | false =>
      rw [if_pos rfl]
      exact ⟨hrow, rfl, rfl, by rw [hon, hlands]; simp⟩

theorem always_grant {tokens : Int} {amount : Money} {memo : String} (hr : n.row account = some s)
    (hact : s.status = .active) (hk : n.key = some x) (hx : x ≠ .blank) (hl : n.lost = false) (ht : 0 ≤ tokens) :
    Always (Tally.step g) (fun _ n' => n'.live = n.live ∧ (Granted account n' ↔ n'.lost = false))
      (BillingService.credit account tokens .grant x amount memo) n := by
  unfold BillingService.credit
  rw [if_neg (by omega)]
  apply always_ask_bind
  intro r a n₁ h₁
  obtain ⟨w₁, hs₁, _⟩ := step_cases h₁
  obtain ⟨_, id, rfl⟩ := step_entryId hs₁
  have hsame₁ : Same account n n₁ := same_step (by simp) (by simp) (by simp) h₁
  apply always_ask_bind
  intro r a n₂ h₂
  obtain ⟨w₂, hs₂, _⟩ := step_cases h₂
  obtain ⟨now, _, _, rfl, _⟩ := step_now hs₂
  have hsame := hsame₁.trans (same_step (by simp) (by simp) (by simp) h₂)
  apply always_ask
  intro r a n₃ h₃
  obtain ⟨hrow, hkey, hlive, hon⟩ := append_step account rfl hx (hsame.lost.trans hl) h₃
  refine ⟨hlive.trans hsame.live, (granted_iff (hrow.trans (hsame.row.trans hr)) hact ?_).trans hon⟩
  exact hkey.trans (hsame.key.trans hk)

theorem always_write (account : String) {f : Subscription → Reference} {tokens : Int} {amount : Money}
    {memo : String} {result : Subscription → α} (hs : s.account = account) (hact : s.status = .active)
    (hf : n.live.getD s.grantReference = f s) (hb : f s ≠ .blank) (hl : n.lost = false) (ht : 0 ≤ tokens) :
    Always (Tally.step g) (fun o n' => n'.live = n.live ∧ Wrote account n o n')
      ((store.putSubscription s).bind fun s =>
        (BillingService.credit account tokens .grant (f s) amount memo).bind fun _ => .ret (result s)) n := by
  apply always_ask_bind
  intro r a n₁ h₁
  obtain ⟨w₁, hs₁, rfl⟩ := step_cases h₁
  rcases step_putSubscription hs₁ with ⟨e, rfl, rfl, rfl⟩ | ⟨rfl, rfl, rfl⟩
  · exact ⟨rfl, fun hg => iff_of_true hg hl⟩
  · refine always_bind.2 (Always.mono (always_grant (s := s) (x := f s) ?_ hact ?_ hb ?_ ht) fun o n' h => ?_)
    · subst hs
      exact Store.subscription_put _ s
    · exact congrArg some hf
    · exact hl
    · cases o with
      | error e => exact ⟨h.1, fun _ => h.2⟩
      | ok x => exact h

theorem always_end (hs : s.account = account) (hl : n.lost = false) :
    Always (Tally.step g) (fun o n' => n'.live = n.live ∧ Wrote account n o n')
      (some <$> store.putSubscription s.ended) n := by
  apply always_ask_bind
  intro r a n₁ h₁
  obtain ⟨w₁, hs₁, rfl⟩ := step_cases h₁
  rcases step_putSubscription hs₁ with ⟨e, rfl, rfl, rfl⟩ | ⟨rfl, rfl, rfl⟩
  · exact ⟨rfl, fun hg => iff_of_true hg hl⟩
  · refine ⟨rfl, iff_of_true (granted_of_not_active fun s' hs' => ?_) hl⟩
    subst hs
    have hput := Store.subscription_put n.world.store s.ended
    rw [show s.ended.account = s.account from rfl] at hput
    cases hput.symm.trans hs'
    simp [Subscription.ended]

theorem always_expireGrant (s : Subscription) (now : Datetime) :
    Always (Tally.step g) (fun _ n' => Same account n n') (BillingService.expireGrant account s now) n := by
  refine always_bind.2 (always_ask_bind fun r a n₁ h₁ => ?_)
  have hsame : Same account n n₁ := same_step (by simp) (by simp) (by simp) h₁
  cases a with
  | error e => exact hsame
  | ok entries =>
      simp only [pure_eq, Always]
      split
      · exact hsame
      · refine always_ask_bind fun r a n₂ h₂ => ?_
        obtain ⟨w₂, hs₂, _⟩ := step_cases h₂
        obtain ⟨_, id, rfl⟩ := step_entryId hs₂
        have hsame := hsame.trans (same_step (by simp) (by simp) (by simp) h₂)
        refine always_ask_bind fun r a n₃ h₃ => ?_
        have hsame := hsame.trans (same_step (by simp) (fun e he => by cases he; simp) (by simp) h₃)
        cases a <;> exact hsame

theorem always_settleRow (hg : Giving g) (hlive : n.live = none) (hl : n.lost = false) (now : Datetime) :
    Always (Tally.step g) (fun o n' => n'.live = none ∧ Outcome account now n o n')
      (BillingService.settleRow g account now) n := by
  have hwrite {p : Billing (Option Subscription)} {n₁ : Tally} (hstands : stands account n now = false)
      (hsame : Same account n n₁)
      (h : Always (Tally.step g) (fun o n' => n'.live = n₁.live ∧ Wrote account n₁ o n') p n₁) :
      Always (Tally.step g) (fun o n' => n'.live = none ∧ Outcome account now n o n') p n₁ := by
    refine h.mono fun o n' h => ⟨h.1.trans (hsame.live.trans hlive), ?_⟩
    cases o with
    | error e => exact fun hgr => h.2 (hsame.granted hgr)
    | ok s => exact ⟨fun _ hst => absurd hst (by simp [hstands]), fun _ => h.2⟩
  apply always_row
  · exact fun e => ⟨hlive, fun hgr => iff_of_true hgr hl⟩
  · cases hrow : n.row account with
    | none =>
        have hstands : stands account n now = false := by simp [stands, hrow]
        simp only [BillingService.beginFree]
        cases hf : g.catalog.freePlan with
        | none =>
            refine ⟨hlive, fun _ hst => absurd hst (by simp [hstands]), fun _ => iff_of_true ?_ hl⟩
            refine granted_of_not_active fun s hs => ?_
            rw [hrow] at hs
            cases hs
        | some plan =>
            apply hwrite hstands (Same.refl account n)
            exact always_write account (s := .begin account plan now) (f := Subscription.grantReference) rfl
              rfl (by rw [hlive]; rfl) (by simp [Subscription.grantReference]) hl
              (hg plan (List.mem_of_find?_eq_some hf))
    | some s =>
        have hacc := Store.subscription_account hrow
        simp only
        split
        · rename_i hdue
          have hstands : stands account n now = true := by simpa [stands, hrow] using hdue
          refine ⟨hlive, fun _ _ => ⟨Iff.rfl, hl⟩, fun h => ?_⟩
          rcases h with h | h
          · exact absurd hlive h
          · exact absurd h (by simp [hstands])
        · rename_i hdue
          have hstands : stands account n now = false := by simpa [stands, hrow] using hdue
          refine always_bind.2 ((always_expireGrant s now).mono fun o n₂ hsame => ?_)
          have hlive₂ := hsame.live.trans hlive
          have hl₂ := hsame.lost.trans hl
          cases o with
          | error e => exact ⟨hlive₂, fun hgr => iff_of_true (hsame.granted hgr) hl₂⟩
          | ok _ =>
              apply hwrite hstands hsame
              cases hp : g.catalog.plan s.planId with
              | error e => exact always_end hacc hl₂
              | ok plan =>
                  simp only
                  split
                  · exact always_write account (s := s.renewed plan now) (f := Subscription.grantReference) hacc
                      rfl (by rw [hlive₂]; rfl) (by simp [Subscription.grantReference]) hl₂ (tokens_nonneg hg hp)
                  · exact always_end hacc hl₂

theorem always_mirror (g : Gateway) (account : String) {plan : Plan} {o : OnChainSubscription}
    (hlive : n.live = some o.reference) (hl : n.lost = false) (ht : 0 ≤ plan.tokens) :
    Always (Tally.step g) (fun x n' => n'.live = some o.reference ∧ Wrote account n x n')
      (BillingService.mirror account plan o) n := by
  have hwrite : Always (Tally.step g) (fun x n' => n'.live = n.live ∧ Wrote account n x n')
      (BillingService.mirror account plan o) n :=
    always_write account (s := ⟨account, plan.id, o.started, o.expires, .active⟩)
      (f := fun _ => o.reference) rfl rfl (by rw [hlive]; rfl) (by simp [OnChainSubscription.reference]) hl ht
  exact hwrite.mono fun x n' h => ⟨h.1.trans hlive, h.2⟩

theorem always_settle (account : String) (hg : Giving g) (hlive : n.live = none) (hl : n.lost = false) :
    Always (Tally.step g) (fun o n' => Outcome account n.world.clock n o n')
      ((BillingService.mirrorChain g account n.world.clock).bind fun s => match s with
        | some mirrored => .ret (some mirrored)
        | none => BillingService.settleRow g account n.world.clock) n := by
  have hrow (n' : Tally) (hw : n'.world = n.world) (hk : n'.key = n.key) (hlive' : n'.live = none)
      (hl' : n'.lost = false) :
      Always (Tally.step g) (fun o n' => Outcome account n.world.clock n o n')
        (BillingService.settleRow g account n.world.clock) n' := by
    have he : n' = n := by
      rcases n with ⟨w, live, key, lost⟩
      rcases n' with ⟨w', live', key', lost'⟩
      simp_all
    subst he
    exact (always_settleRow hg hlive' hl' _).mono fun o n' h => h.2
  unfold BillingService.mirrorChain BillingService.readChain
  split
  · refine always_bind.2 (always_bind.2 (always_rescue.2 (always_ask fun r a n₁ h₁ => ?_)))
    obtain ⟨w₁, hs₁, rfl⟩ := step_cases h₁
    obtain ⟨rfl, ⟨o, rfl, rfl⟩ | ⟨e, rfl, rfl⟩⟩ := step_onChain hs₁
    · cases o with
      | none => exact hrow _ rfl rfl rfl hl
      | some o =>
          simp only
          have hlive₁ : (Tally.note g n (.onChain account) (.onChain (some o))).live =
              if Renewals.live g o n.world.clock then some o.reference else none := by
            simp only [Tally.note, Option.filter_some]
            split <;> rfl
          split
          · rename_i ha
            have ha : o.active n.world.clock = false := by simpa using ha
            have hdead : Renewals.live g o n.world.clock = false := by rw [Renewals.live, ha, Bool.false_and]
            rw [hdead] at hlive₁
            exact hrow _ rfl rfl hlive₁ hl
          · rename_i ha
            have ha : o.active n.world.clock = true := by simpa using ha
            cases hp : g.catalog.plan o.plan with
            | error f =>
                have hdead : Renewals.live g o n.world.clock = false := by rw [Renewals.live, ha, hp]; rfl
                rw [hdead] at hlive₁
                exact hrow _ rfl rfl hlive₁ hl
            | ok plan =>
                have halive : Renewals.live g o n.world.clock = true := by rw [Renewals.live, ha, hp]; rfl
                rw [halive, if_pos rfl] at hlive₁
                have hmirror := always_mirror g account hlive₁ hl (tokens_nonneg hg hp)
                refine always_bind.2 (hmirror.mono fun x n' h => ?_)
                cases x with
                | error e => exact h.2
                | ok s => exact ⟨fun hnone => absurd hnone (by simp [h.1]), fun _ => h.2⟩
    · simp only
      split
      · exact hrow _ rfl rfl hlive hl
      · exact fun hgr => iff_of_true hgr hl
  · exact hrow n rfl rfl hlive hl

theorem exec_settlePeriod (hg : Giving g) (hlive : n.live = none) (hl : n.lost = false)
    {o : Except Error (Option Subscription)} {rs : List Reply}
    (h : exec (Tally.step g) (BillingService.settlePeriod g account) n rs = some (o, n')) :
    ∃ now rs', rs = .time now :: rs' ∧ Outcome account now n o n' := by
  cases rs with
  | nil => cases h
  | cons r rs =>
      obtain ⟨⟨a, n₁⟩, hs, hk⟩ := Option.bind_eq_some_iff.1 h
      obtain ⟨w₁, hw, rfl⟩ := step_cases hs
      obtain ⟨now, rfl, _, rfl, rfl⟩ := step_now hw
      have hsettle := always_settle account (n := { n with world := { n.world with clock := now } })
        hg hlive hl
      exact ⟨now, rs, rfl, hsettle.exec hk⟩

theorem granted_retry (hg : Giving g) (hgr : Granted account n) (hlive : n.live = none) (hl : n.lost = false)
    {e : Error} {o : Option Subscription} {n₁ n₂ : Tally} {now : Datetime} {rs rs' : List Reply}
    (hcut : exec (Tally.step g) (BillingService.settlePeriod g account) n rs = some (.error e, n₁))
    (hretry : exec (Tally.step g) (BillingService.settlePeriod g account) n₁.enter (.time now :: rs') =
      some (.ok o, n₂)) :
    Granted account n₂ ↔
      n₂.lost = false ∧ (n₁.lost = false ∨ n₂.live ≠ none ∨ stands account n₁ now = false) := by
  obtain ⟨_, _, _, hout⟩ := exec_settlePeriod hg hlive hl hcut
  have hcut : Granted account n₁ ↔ n₁.lost = false := hout hgr
  obtain ⟨_, _, ht, hleft, hwrote⟩ := exec_settlePeriod hg rfl rfl hretry
  cases ht
  change n₂.live = none → stands account n₁ now = true → (Granted account n₂ ↔ Granted account n₁) ∧ _ at hleft
  change _ ∨ stands account n₁ now = false → _ at hwrote
  by_cases h : n₂.live ≠ none ∨ stands account n₁ now = false
  · rw [hwrote h]
    exact ⟨fun hl => ⟨hl, .inr h⟩, fun hl => hl.1⟩
  · have hlive : n₂.live = none := by_contra fun hne => h (.inl hne)
    have hstands : stands account n₁ now = true := by simpa using fun hno => h (.inr hno)
    obtain ⟨hsame, hl⟩ := hleft hlive hstands
    rw [hsame, hcut]
    exact ⟨fun hl₁ => ⟨hl, .inl hl₁⟩, fun hc => hc.2.resolve_right h⟩

end Steps

/-- Wherever no grant was cut off every row that runs has its grant. If a call is
cut off there, the next one that completes leaves it so exactly if it loses no
grant, and either the first lost none or its row is not left alone. -/
theorem grants_kept {g : Gateway} (hg : Giving g) {t : Datetime} {c : Pool}
    (h : Reachable g Serves (Spares g) ⟨{}, t⟩ c) (hrest : AtRest c) {account : String} {key : Option Reference}
    (hk : Keyed g c account key) :
    Granted account ⟨c.world, none, key, false⟩ ∧
      ∀ {e o now n₁ n₂ rs rs'},
        exec (Tally.step g) (BillingService.settlePeriod g account) ⟨c.world, none, key, false⟩ rs =
          some (.error e, n₁) →
        exec (Tally.step g) (BillingService.settlePeriod g account) n₁.enter (.time now :: rs') = some (.ok o, n₂) →
        (Granted account n₂ ↔
          n₂.lost = false ∧ (n₁.lost = false ∨ n₂.live ≠ none ∨ stands account n₁ now = false)) := by
  have hgr : Granted account ⟨c.world, none, key, false⟩ :=
    fun _ hs hact => onRecord_at_rest hg h hrest hk hs hact
  exact ⟨hgr, fun hcut hretry => granted_retry hg hgr rfl rfl hcut hretry⟩

def shop : Gateway := { catalog := defaultCatalog }

/-- The database goes away. -/
def gone : Reply := .raised (.failed "connection lost")

/-- A call that is cut off, and another one that completes and finds or leaves a
row that runs. -/
def resumes {W : Type} (step : Step Call Call.Answer Error W Reply) (enter : W → W) (account : String) (w : W)
    (rs rs' : List Reply) (p : W → W → Subscription → Bool) : Bool :=
  (exec step (BillingService.settlePeriod shop account) w rs).any fun
    | (.error _, w₁) => (exec step (BillingService.settlePeriod shop account) (enter w₁) rs').any fun
        | (.ok (some s), w₂) => s.status = .active && p w₁ w₂ s
        | _ => false
    | _ => false

theorem resumes_iff {W : Type} {step : Step Call Call.Answer Error W Reply} {enter : W → W} {account : String}
    {w : W} {rs rs' : List Reply} {p : W → W → Subscription → Bool}
    (h : resumes step enter account w rs rs' p = true) :
    ∃ e w₁ s w₂, exec step (BillingService.settlePeriod shop account) w rs = some (.error e, w₁) ∧
      exec step (BillingService.settlePeriod shop account) (enter w₁) rs' = some (.ok (some s), w₂) ∧
      s.status = .active ∧ p w₁ w₂ s = true := by
  obtain ⟨⟨e | _, w₁⟩, hcut, h⟩ := (Option.any_eq_true _ _).1 h
  · obtain ⟨⟨_ | (_ | s), w₂⟩, hretry, h⟩ := (Option.any_eq_true _ _).1 h
    · cases h
    · cases h
    · obtain ⟨hact, hp⟩ := Bool.and_eq_true_iff.1 h
      exact ⟨e, w₁, s, w₂, hcut, hretry, of_decide_eq_true hact, hp⟩
  · cases h

theorem grants_kept_resumed : ∃ e n₁ s n₂,
    exec (Tally.step shop) (BillingService.settlePeriod shop "A") ⟨{}, none, none, false⟩ [.time 0, gone] =
      some (.error e, n₁) ∧
    exec (Tally.step shop) (BillingService.settlePeriod shop "A") n₁.enter
      [.time 1, .done, .done, .text "e1", .time 1, .done] = some (.ok (some s), n₂) ∧
    n₂.row "A" = some s ∧ s.status = .active ∧ Granted "A" n₂ := by
  have hrun : resumes (Tally.step shop) Tally.enter "A" ⟨{}, none, none, false⟩ [.time 0, gone]
      [.time 1, .done, .done, .text "e1", .time 1, .done]
      (fun n₁ n₂ s => n₂.row "A" = some s && !n₁.lost && !n₂.lost) = true := by decide +kernel
  obtain ⟨e, n₁, s, n₂, hcut, hretry, hact, hp⟩ := resumes_iff hrun
  simp only [Bool.and_eq_true, decide_eq_true_eq, Bool.not_eq_true'] at hp
  have hg : Giving shop := by unfold Giving; decide +kernel
  have hrest : AtRest ⟨{}, []⟩ := fun v hv => nomatch hv
  have hk : Keyed shop ⟨{}, []⟩ "A" none := fun s hs => nomatch hs
  have hkept := (grants_kept hg .init hrest hk).2 hcut hretry
  exact ⟨e, n₁, s, n₂, hcut, hretry, hp.1.1, hact, hkept.2 ⟨hp.2, .inl hp.1.2⟩⟩

/-- The first call writes the row of the first week and no grant, and the next
one finds the row. -/
theorem first_week_lost : ∃ e w₁ s w₂,
    exec World.step (BillingService.settlePeriod shop "A") {} [.time 0, .done, .done, .text "e1", .time 0, gone] =
      some (.error e, w₁) ∧
    exec World.step (BillingService.settlePeriod shop "A") w₁ [.time 1, .done] = some (.ok (some s), w₂) ∧
    w₂.store.subscription "A" = some s ∧ s.status = .active ∧ s.due 1 = false ∧ w₂.store.ledger = [] := by
  have hrun : resumes World.step id "A" {} [.time 0, .done, .done, .text "e1", .time 0, gone] [.time 1, .done]
      (fun _ w₂ s => w₂.store.subscription "A" = some s && !s.due 1 && decide (w₂.store.ledger = [])) = true := by
    decide +kernel
  obtain ⟨e, w₁, s, w₂, hcut, hretry, hact, hp⟩ := resumes_iff hrun
  simp only [Bool.and_eq_true, decide_eq_true_eq, Bool.not_eq_true'] at hp
  exact ⟨e, w₁, s, w₂, hcut, hretry, hp.1.1, hact, hp.1.2, hp.2⟩

end CodeZard.LostGrants
