import CodeZard.Requests

namespace CodeZard.Renewals

open Amounts Products Ledgers Periods Storage Programs Ports Interleaving Requests

def renews (account : String) : Request → Bool
  | .settlePeriod a => a = account
  | .authorize a _ => a = account
  | _ => false

/-- The time a call goes by: the last it was told. -/
def clock : BillingLog → Datetime
  | ⟨.now, .ok t⟩ :: _ => t
  | _ :: log => clock log
  | [] => 0

def Told (log : BillingLog) (now : Datetime) : Prop := clock log = now ∧ ⟨.now, .ok now⟩ ∈ log

def wanting (s : Option Subscription) (now : Datetime) : Bool := s.all fun s => s.due now

/-- The row a call found wanting, and the time by which it did, until it writes
another one. -/
def held : BillingLog → Option (Option Subscription × Datetime)
  | ⟨.subscription _, .ok s⟩ :: log => if wanting s (clock log) then some (s, clock log) else none
  | ⟨.allEntries _, _⟩ :: log => held log
  | ⟨.entryId, _⟩ :: log => held log
  | ⟨.append _, _⟩ :: log => held log
  | _ => none

def holding (v : InProgress) : Bool := v.result.isNone && (held v.log).isSome

def written : BillingLog → Option Subscription
  | ⟨.putSubscription s, .ok _⟩ :: _ => some s
  | ⟨.entryId, _⟩ :: log => written log
  | ⟨.now, _⟩ :: log => written log
  | _ => none

/-- The rows that may follow one found wanting. -/
def Follows (g : Gateway) (account : String) (now : Datetime) : Option Subscription → Subscription → Prop
  | none, s => ∃ plan, g.catalog.freePlan = some plan ∧ s = .begin account plan now
  | some s, s' => s' = s.ended ∨
      ∃ plan, g.catalog.plan s.planId = .ok plan ∧ plan.isFree = true ∧ s' = s.renewed plan now

def Enters (account : String) (log : BillingLog) (e : LedgerEntry) : Prop :=
  e.account = account ∧
    ((e.kind = .expiry ∧ ∃ s now, held log = some (some s, now) ∧ e.at_ = now ∧ e.reference = s.expiryReference) ∨
      (e.kind = .grant ∧ ∃ s, written log = some s ∧ s.status = .active ∧ e.reference = s.grantReference))

/-- What `settle_period` asks of the store while the chain has nothing to say. -/
def guard (g : Gateway) (account : String) (log : BillingLog) : Call → Prop
  | .subscription a => a = account ∧ ⟨.now, .ok (clock log)⟩ ∈ log
  | .putSubscription s => s.account = account ∧ ∃ s₀ now, held log = some (s₀, now) ∧ Follows g account now s₀ s
  | .append e => Enters account log e
  | .putInvoice _ => False
  | _ => True

def live (g : Gateway) (o : OnChainSubscription) (now : Datetime) : Bool :=
  o.active now && (g.catalog.plan o.plan).isOk

def admits (g : Gateway) (log : BillingLog) : (c : Call) → Except Error c.Answer → Prop
  | .now, a => ∃ t, a = .ok t
  | .entryId, a => ∃ s, a = .ok s
  | .putSubscription s, a => ∀ x, a = .ok x → x = s
  | .subscription account, a => ∀ s, a = .ok (some s) → s.account = account
  | .onChain _, a => ∀ o, a = .ok (some o) → live g o (clock log) = false
  | _, _ => True

/-- The contract reports nothing live on a plan of this catalog. -/
def Silent (g : Gateway) : Rule := fun _ _ v c r =>
  match c, r with
  | .onChain _, .onChain o => ∀ x ∈ o, live g x (clock v.log) = false
  | _, _ => True

instance (g : Gateway) (w : World) (vs : List InProgress) (v : InProgress) (c : Call) (r : Reply) :
    Decidable (Silent g w vs v c r) := by
  rcases c <;> rcases r <;> dsimp only [Silent] <;> infer_instance

theorem admits_step {g : Gateway} {w w' : World} {vs : List InProgress} {v : InProgress} {c : Call} {r : Reply}
    {a : Except Error c.Answer} (hc : Silent g w vs v c r) (h : w.step c r = some (a, w')) :
    admits g v.log c a := by
  cases c with
  | now => exact (step_now h).imp fun t ht => ht.2.2.1
  | entryId => exact (step_entryId h).2
  | putSubscription s => rcases step_putSubscription h with ⟨x, _, rfl, _⟩ | ⟨_, rfl, _⟩ <;> simp [admits]
  | subscription account =>
      obtain ⟨_, rfl | ⟨x, _, rfl⟩⟩ := step_subscription h
      · exact fun s hs => Store.subscription_account (Except.ok.inj hs)
      · simp [admits]
  | onChain account =>
      obtain ⟨_, ⟨o, rfl, rfl⟩ | ⟨x, _, rfl⟩⟩ := step_onChain h
      · intro x hx
        exact hc x (by simpa using hx)
      · simp [admits]
  | _ => trivial

section Logs

variable {log : BillingLog} {s : Option Subscription} {now : Datetime}

theorem held_wanting (h : held log = some (s, now)) : wanting s now = true := by
  induction log using held.induct with
  | case1 a s' log hw =>
      rw [held, if_pos hw] at h
      cases h
      exact hw
  | case2 a s' log hw =>
      rw [held, if_neg hw] at h
      cases h
  | case3 _ _ _ ih | case4 _ _ ih | case5 _ _ _ ih => exact ih h
  | case6 log h₁ h₂ h₃ h₄ =>
      rw [held] at h <;> simp_all

theorem held_due {s : Subscription} (h : held log = some (some s, now)) : s.status = .active ∧ s.renewsAt ≤ now :=
  Subscription.due_iff.1 (held_wanting h)

theorem holding_iff {q : Request} : holding ⟨q, log, none⟩ = true ↔ ∃ s now, held log = some (s, now) := by
  simp [holding, Option.isSome_iff_exists]

theorem held_cons {x : (c : Call) × Except Error c.Answer} (h : held (x :: log) = some (s, now)) :
    held log = some (s, now) ∨
      (∃ a, x = ⟨.subscription a, .ok s⟩) ∧ now = clock log ∧ wanting s now = true := by
  have hw := held_wanting h
  unfold held at h
  split at h
  · rename_i hx
    obtain ⟨rfl, rfl⟩ := List.cons.inj hx
    split at h
    · cases h
      exact .inr ⟨⟨_, rfl⟩, rfl, hw⟩
    · cases h
  iterate 3
    rename_i hx
    obtain ⟨rfl, rfl⟩ := List.cons.inj hx
    exact .inl h
  · cases h

theorem written_mem {s : Subscription} (h : written log = some s) : ∃ x, ⟨.putSubscription s, .ok x⟩ ∈ log := by
  induction log using written.induct with
  | case1 s' a log =>
      cases h
      exact ⟨a, List.mem_cons_self⟩
  | case2 _ _ ih | case3 _ _ ih => exact (ih h).imp fun x hx => List.mem_cons_of_mem _ hx
  | case4 log h₁ h₂ h₃ => rw [written] at h <;> simp_all

end Logs

section Programs

variable {g : Gateway} {account : String} {log : BillingLog}

theorem keeps_grant {s : Subscription} (hs : written log = some s) (ha : s.status = .active) (plan : Plan) :
    Keeps (guard g account) (admits g) (fun _ _ => True) (BillingService.grant account plan s) log := by
  unfold BillingService.grant BillingService.credit
  split
  · trivial
  · refine keeps_perform_bind.2 ⟨trivial, fun a hid => ?_⟩
    obtain ⟨id, rfl⟩ := hid
    refine keeps_perform_bind.2 ⟨trivial, fun a hnow => ?_⟩
    obtain ⟨now, rfl⟩ := hnow
    exact keeps_perform.2 ⟨⟨rfl, .inr ⟨rfl, s, hs, ha, rfl⟩⟩, fun _ _ => trivial⟩

theorem keeps_expireGrant {s : Subscription} {now : Datetime} (hs : held log = some (some s, now)) :
    Keeps (guard g account) (admits g) (fun _ log => held log = some (some s, now))
      (BillingService.expireGrant account s now) log := by
  unfold BillingService.expireGrant
  refine keeps_bind.2 (keeps_perform_bind.2 ⟨trivial, fun a _ => ?_⟩)
  cases a with
  | error e => exact hs
  | ok entries =>
      simp only [pure_eq, Keeps]
      split
      · exact hs
      · refine keeps_perform_bind.2 ⟨trivial, fun a ha => ?_⟩
        obtain ⟨id, rfl⟩ := ha
        refine keeps_perform_bind.2 ⟨⟨rfl, .inl ⟨rfl, s, now, hs, rfl, rfl⟩⟩, fun a _ => ?_⟩
        cases a <;> exact hs

theorem keeps_renew {s₀ : Option Subscription} {now : Datetime} (h₀ : held log = some (s₀, now))
    {s : Subscription} (hacc : s.account = account) (hs : Follows g account now s₀ s) (hact : s.status = .active)
    (plan : Plan) :
    Keeps (guard g account) (admits g) (fun _ _ => True) ((store.putSubscription s).bind fun s =>
      (BillingService.grant account plan s).bind fun _ => .ret (some s)) log := by
  refine keeps_perform_bind.2 ⟨⟨hacc, s₀, now, h₀, hs⟩, fun a ha => ?_⟩
  cases a with
  | error e => trivial
  | ok x =>
      rw [ha x rfl]
      refine keeps_bind.2 ((keeps_grant rfl hact plan).mono fun o log _ => ?_)
      cases o <;> trivial

theorem keeps_end {s₀ : Option Subscription} {now : Datetime} (h₀ : held log = some (s₀, now))
    {s : Subscription} (hacc : s.account = account) (hs : Follows g account now s₀ s) :
    Keeps (guard g account) (admits g) (fun _ _ => True) (some <$> store.putSubscription s) log := by
  refine keeps_perform_bind.2 ⟨⟨hacc, s₀, now, h₀, hs⟩, fun a _ => ?_⟩
  cases a <;> trivial

theorem keeps_settleRow {now : Datetime} (hc : Told log now) :
    Keeps (guard g account) (admits g) (fun _ _ => True) (BillingService.settleRow g account now) log := by
  obtain ⟨hc, hm⟩ := hc
  refine keeps_perform_bind.2 ⟨⟨rfl, hc ▸ hm⟩, fun a ha => ?_⟩
  match a with
  | .error e => trivial
  | .ok none =>
      simp only [BillingService.beginFree]
      cases hf : g.catalog.freePlan with
      | none => trivial
      | some plan =>
          have hh : held (⟨.subscription account, .ok none⟩ :: log) = some (none, now) := by
            simp [held, wanting, hc]
          exact keeps_renew hh rfl ⟨plan, hf, rfl⟩ rfl plan
  | .ok (some s) =>
      simp only
      split
      · trivial
      · have hd : s.due now = true := by simpa using ‹¬(!s.due now) = true›
        have hh : held (⟨.subscription account, .ok (some s)⟩ :: log) = some (some s, now) := by
          simp [held, wanting, hc, hd]
        refine keeps_bind.2 ((keeps_expireGrant hh).mono fun o log hl => ?_)
        cases o with
        | error e => trivial
        | ok _ =>
            simp only
            cases hp : g.catalog.plan s.planId with
            | error e => exact keeps_end (s := s.ended) hl (ha s rfl) (.inl rfl)
            | ok plan =>
                simp only
                split
                · exact keeps_renew (s := s.renewed plan now) hl (ha s rfl) (.inr ⟨plan, hp, ‹_›, rfl⟩) rfl plan
                · exact keeps_end (s := s.ended) hl (ha s rfl) (.inl rfl)

theorem keeps_mirrorChain (g : Gateway) (account : String) {now : Datetime} (hc : Told log now) :
    Keeps (guard g account) (admits g) (fun o log => Told log now ∧ ∀ s, o = .ok s → s = none)
      (BillingService.mirrorChain g account now) log := by
  have hread : Keeps (guard g account) (admits g)
      (fun o log => Told log now ∧ ∀ x, o = .ok (some x) → live g x now = false)
      (BillingService.readChain g account) log := by
    unfold BillingService.readChain
    split
    · refine keeps_rescue.2 (keeps_perform.2 ⟨trivial, fun a ha => ?_⟩)
      have hc' (a : Except Error (Option OnChainSubscription)) : Told (⟨.onChain account, a⟩ :: log) now :=
        ⟨hc.1, List.mem_cons_of_mem _ hc.2⟩
      cases a with
      | ok o =>
          refine ⟨hc' _, fun x hx => ?_⟩
          rw [← hc.1]
          exact ha x (by simpa using hx)
      | error e =>
          simp only
          split
          · exact ⟨hc' _, by simp⟩
          · exact ⟨hc' _, by simp⟩
    · exact ⟨hc, by simp⟩
  refine keeps_bind.2 (hread.mono fun o log ho => ?_)
  match o, ho with
  | .error e, ho => exact ⟨ho.1, by simp⟩
  | .ok none, ho => exact ⟨ho.1, by simp⟩
  | .ok (some o), ⟨hl, ho⟩ =>
      have hdead := ho o rfl
      simp only
      split
      · exact ⟨hl, by simp⟩
      · have ha : o.active now = true := by simpa using ‹¬(!o.active now) = true›
        cases hp : g.catalog.plan o.plan with
        | error e => exact ⟨hl, by simp⟩
        | ok plan =>
            rw [live, ha, hp] at hdead
            cases hdead

theorem keeps_settlePeriod :
    Keeps (guard g account) (admits g) (fun _ _ => True) (BillingService.settlePeriod g account) log := by
  refine keeps_perform_bind.2 ⟨trivial, fun a ha => ?_⟩
  obtain ⟨now, rfl⟩ := ha
  have hc : Told (⟨.now, .ok now⟩ :: log) now := ⟨rfl, List.mem_cons_self⟩
  have hm := keeps_mirrorChain g account hc
  refine keeps_bind.2 (hm.mono fun o log ho => ?_)
  cases o with
  | error e => trivial
  | ok s =>
      obtain rfl := ho.2 s rfl
      exact keeps_settleRow ho.1

theorem follows {q : Request} (hq : renews account q = true) :
    Keeps (guard g account) (admits g) (fun _ _ => True) (body g q) [] := by
  cases q with
  | settlePeriod a =>
      obtain rfl : a = account := by simpa [renews] using hq
      refine keeps_bind.2 (keeps_settlePeriod.mono fun o log _ => ?_)
      cases o <;> trivial
  | authorize a needed =>
      obtain rfl : a = account := by simpa [renews] using hq
      refine keeps_bind.2 (keeps_bind.2 (keeps_settlePeriod.mono fun o log _ => ?_))
      cases o with
      | error e => trivial
      | ok s =>
          refine keeps_bind.2 (keeps_perform_bind.2 ⟨trivial, fun a _ => ?_⟩)
          cases a with
          | error e => trivial
          | ok entries =>
              simp only [pure_eq, Keeps]
              split <;> trivial
  | _ => cases hq

end Programs

end CodeZard.Renewals
