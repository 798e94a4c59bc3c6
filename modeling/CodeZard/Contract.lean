import CodeZard.Periods
import Mathlib.Logic.Function.Basic

namespace CodeZard.Contract

open Products Periods

abbrev Address := String

abbrev Symbol := String

def U32_LIMIT : Nat := 2 ^ 32

def U64_LIMIT : Nat := 2 ^ 64

/-- What a plan costs and what it grants. The period is in seconds. -/
structure Plan where
  price : Int
  period : Nat
  tokens : Nat
  active : Bool
  deriving DecidableEq, Repr

/-- One subscriber's standing, as the chain knows it. -/
structure Subscription where
  plan : Symbol
  started : Nat
  expires : Nat
  periods : Nat
  deriving DecidableEq, Repr

inductive Error
  | alreadyInitialised
  | notInitialised
  | noSuchPlan
  | planNotForSale
  | badPlan
  | notSubscribed
  | badAmount
  deriving DecidableEq, Repr

/-- Why an invocation reverts: an error of the contract, a signature that is
missing, an addition that overflows, or a payment that the token refuses. -/
inductive Failure
  | error (e : Error)
  | unauthorised (who : Address)
  | overflow
  | refused
  deriving DecidableEq, Repr

abbrev Balances := Address → Int

/-- The payment token, which is another contract: it moves an amount from one
address to another or refuses to. -/
abbrev Transfer := Balances → Address → Address → Int → Option Balances

/-- A token that keeps to the standard interface. -/
def standard : Transfer := fun balances sender receiver amount =>
  if amount < 0 ∨ balances sender < amount then none
  else
    let taken := Function.update balances sender (balances sender - amount)
    some (Function.update taken receiver (taken receiver + amount))

/-- The invocation: who has signed it, the close time of its ledger, and the
address of the contract itself. -/
structure Env where
  signed : Address → Bool
  timestamp : Nat
  contract : Address := "C"

/-- The storage of the contract, and the balances of its token. -/
structure State where
  admin : Option Address := none
  token : Option Address := none
  plans : List Symbol := []
  plan : Symbol → Option Plan := fun _ => none
  sub : Address → Option Subscription := fun _ => none
  balances : Balances := fun _ => 0

abbrev Result := Except Failure

def requireAuth (env : Env) (who : Address) : Result Unit :=
  if env.signed who then .ok () else .error (.unauthorised who)

def checkedAdd (limit a b : Nat) : Result Nat := if a + b < limit then .ok (a + b) else .error .overflow

def orElse {α : Type} (e : Error) : Option α → Result α
  | some a => .ok a
  | none => .error (.error e)

def adminOf (s : State) : Result Address := orElse .notInitialised s.admin

def tokenOf (s : State) : Result Address := orElse .notInitialised s.token

def requirePlan (s : State) (id : Symbol) : Result Plan := orElse .noSuchPlan (s.plan id)

def initialise (s : State) (admin token : Address) : Result State :=
  if s.admin.isSome then .error (.error .alreadyInitialised)
  else .ok { s with admin := some admin, token := some token, plans := [] }

def setPlan (env : Env) (s : State) (id : Symbol) (plan : Plan) : Result State := do
  requireAuth env (← adminOf s)
  if plan.price ≤ 0 ∨ plan.period = 0 then .error (.error .badPlan)
  else .ok { s with
    plan := Function.update s.plan id (some plan)
    plans := if id ∈ s.plans then s.plans else s.plans ++ [id] }

/-- The standing that a payment leads to. -/
def renewed (current : Option Subscription) (id : Symbol) (plan : Plan) (now : Nat) : Result Subscription :=
  match current with
  | some existing =>
      if existing.plan = id ∧ now < existing.expires then do
        .ok ⟨id, existing.started, ← checkedAdd U64_LIMIT existing.expires plan.period,
          ← checkedAdd U32_LIMIT existing.periods 1⟩
      else do
        .ok ⟨id, now, ← checkedAdd U64_LIMIT now plan.period, ← checkedAdd U32_LIMIT existing.periods 1⟩
  | none => do .ok ⟨id, now, ← checkedAdd U64_LIMIT now plan.period, 1⟩

section Calls

variable (transfer : Transfer)

/-- Pay for a period, and have it recorded. The two are one transaction. -/
def subscribe (env : Env) (s : State) (subscriber : Address) (id : Symbol) : Result (Subscription × State) := do
  requireAuth env subscriber
  let plan ← requirePlan s id
  if !plan.active then .error (.error .planNotForSale)
  else do
    let _ ← tokenOf s
    match transfer s.balances subscriber env.contract plan.price with
    | none => .error .refused
    | some balances => do
        let updated ← renewed (s.sub subscriber) id plan env.timestamp
        .ok (updated, { s with sub := Function.update s.sub subscriber (some updated), balances := balances })

def withdraw (env : Env) (s : State) (to_ : Address) (amount : Int) : Result State := do
  requireAuth env (← adminOf s)
  let _ ← tokenOf s
  if amount ≤ 0 ∨ s.balances env.contract < amount then .error (.error .badAmount)
  else match transfer s.balances env.contract to_ amount with
    | none => .error .refused
    | some balances => .ok { s with balances := balances }

def setAdmin (env : Env) (s : State) (newAdmin : Address) : Result State := do
  requireAuth env (← adminOf s)
  requireAuth env newAdmin
  .ok { s with admin := some newAdmin }

end Calls

inductive Invocation
  | initialise (admin token : Address)
  | setPlan (id : Symbol) (plan : Plan)
  | subscribe (subscriber : Address) (id : Symbol)
  | withdraw (to_ : Address) (amount : Int)
  | setAdmin (newAdmin : Address)

def invoke (transfer : Transfer) (env : Env) (s : State) : Invocation → Result State
  | .initialise admin token => Contract.initialise s admin token
  | .setPlan id plan => Contract.setPlan env s id plan
  | .subscribe subscriber id => Prod.snd <$> Contract.subscribe transfer env s subscriber id
  | .withdraw to_ amount => Contract.withdraw transfer env s to_ amount
  | .setAdmin newAdmin => Contract.setAdmin env s newAdmin

/-- An invocation that fails reverts. -/
def State.after (transfer : Transfer) (s : State) (env : Env) (i : Invocation) : State :=
  match invoke transfer env s i with
  | .ok s' => s'
  | .error _ => s

def State.run (transfer : Transfer) (s : State) (calls : List (Env × Invocation)) : State :=
  calls.foldl (fun s c => s.after transfer c.1 c.2) s

/-- What an address is told when it pays for a period. -/
def paid (transfer : Transfer) (who : Address) (s : State) (env : Env) : Invocation → Option Subscription
  | .subscribe subscriber id =>
      if subscriber = who then (subscribe transfer env s subscriber id).toOption.map Prod.fst else none
  | _ => none

/-- The standings that the payments of one address lead to, one after the other. -/
def standings (transfer : Transfer) (who : Address) : State → List (Env × Invocation) → List Subscription
  | _, [] => []
  | s, (env, i) :: rest => (paid transfer who s env i).toList ++ standings transfer who (s.after transfer env i) rest

/-- `_read`: the contract's answer as the gateway takes it, up to the last year
that a date can have. -/
def read : Option Subscription → Option OnChainSubscription
  | none => none
  | some s =>
      if s.plan = "" ∨ s.expires = 0 then none
      else some ⟨s.plan, s.started * SECOND, s.expires * SECOND, s.periods⟩

section Standings

variable {transfer : Transfer} {who : Address} {s : State} {env : Env} {i : Invocation}

theorem bind_ok {α β : Type} {x : Result α} {f : α → Result β} {b : β} (h : x >>= f = .ok b) :
    ∃ a, x = .ok a ∧ f a = .ok b := by
  cases x with
  | error e => cases h
  | ok a => exact ⟨a, rfl, h⟩

theorem checkedAdd_ok {limit a b c : Nat} (h : checkedAdd limit a b = .ok c) : c = a + b := by
  unfold checkedAdd at h
  split at h
  · cases h; rfl
  · cases h

theorem renewed_ok {current : Option Subscription} {id : Symbol} {plan : Plan} {now : Nat} {u : Subscription}
    (h : renewed current id plan now = .ok u) :
    u.plan = id ∧ u.periods = current.elim 0 Subscription.periods + 1 ∧
      ((∃ e, current = some e ∧ e.plan = id ∧ now < e.expires ∧ u.started = e.started ∧
        u.expires = e.expires + plan.period) ∨
      ((∀ e, current = some e → e.plan ≠ id ∨ e.expires ≤ now) ∧ u.started = now ∧ u.expires = now + plan.period)) := by
  unfold renewed at h
  cases current with
  | none =>
      obtain ⟨x, hx, h⟩ := bind_ok h
      cases h
      exact ⟨rfl, rfl, .inr ⟨by simp, rfl, checkedAdd_ok hx⟩⟩
  | some e =>
      simp only at h
      split at h
      · rename_i hc
        obtain ⟨x, hx, h⟩ := bind_ok h
        obtain ⟨y, hy, h⟩ := bind_ok h
        cases h
        exact ⟨rfl, checkedAdd_ok hy, .inl ⟨e, rfl, hc.1, hc.2, rfl, checkedAdd_ok hx⟩⟩
      · rename_i hc
        obtain ⟨x, hx, h⟩ := bind_ok h
        obtain ⟨y, hy, h⟩ := bind_ok h
        cases h
        refine ⟨rfl, checkedAdd_ok hy, .inr ⟨?_, rfl, checkedAdd_ok hx⟩⟩
        rintro e' ⟨⟩
        by_cases hp : e.plan = id
        · exact .inr (not_lt.1 fun hlt => hc ⟨hp, hlt⟩)
        · exact .inl hp

theorem subscribe_ok {subscriber : Address} {id : Symbol} {u : Subscription} {s' : State}
    (h : subscribe transfer env s subscriber id = .ok (u, s')) :
    ∃ plan, s.plan id = some plan ∧ renewed (s.sub subscriber) id plan env.timestamp = .ok u ∧
      s'.sub = Function.update s.sub subscriber (some u) := by
  obtain ⟨_, _, h⟩ := bind_ok h
  obtain ⟨plan, hp, h⟩ := bind_ok h
  have hp : s.plan id = some plan := by
    unfold requirePlan orElse at hp
    split at hp
    · cases hp; assumption
    · cases hp
  split at h
  · cases h
  obtain ⟨_, _, h⟩ := bind_ok h
  split at h
  · cases h
  obtain ⟨v, hv, h⟩ := bind_ok h
  cases h
  exact ⟨plan, hp, hv, rfl⟩

theorem invoke_sub {s' : State} (hi : ∀ subscriber id, i ≠ .subscribe subscriber id)
    (h : invoke transfer env s i = .ok s') : s'.sub = s.sub := by
  cases i with
  | subscribe subscriber id => exact absurd rfl (hi subscriber id)
  | initialise admin token =>
      simp only [invoke, initialise] at h
      split at h
      · cases h
      · cases h; rfl
  | setPlan id plan =>
      obtain ⟨_, _, h⟩ := bind_ok h
      obtain ⟨_, _, h⟩ := bind_ok h
      split at h
      · cases h
      · cases h; rfl
  | withdraw to_ amount =>
      obtain ⟨_, _, h⟩ := bind_ok h
      obtain ⟨_, _, h⟩ := bind_ok h
      obtain ⟨_, _, h⟩ := bind_ok h
      split at h
      · cases h
      · split at h
        · cases h
        · cases h; rfl
  | setAdmin newAdmin =>
      obtain ⟨_, _, h⟩ := bind_ok h
      obtain ⟨_, _, h⟩ := bind_ok h
      obtain ⟨_, _, h⟩ := bind_ok h
      cases h
      rfl

theorem sub_after_other (hi : ∀ subscriber id, i ≠ .subscribe subscriber id) :
    (s.after transfer env i).sub = s.sub := by
  unfold State.after
  split
  · exact invoke_sub hi ‹_›
  · rfl

theorem sub_after : (s.after transfer env i).sub who = (paid transfer who s env i).or (s.sub who) := by
  cases i with
  | subscribe subscriber id =>
      simp only [State.after, invoke, paid]
      cases h : subscribe transfer env s subscriber id with
      | error e => by_cases hw : subscriber = who <;> simp [hw, Except.toOption]
      | ok p =>
          obtain ⟨u, s'⟩ := p
          obtain ⟨_, _, _, hs⟩ := subscribe_ok h
          by_cases hw : subscriber = who
          · simp [hw, hs, Except.toOption]
          · simp [hw, hs, Function.update_of_ne (Ne.symm hw)]
  | _ => rw [sub_after_other (by simp)]; rfl

theorem paid_periods {u : Subscription} (h : paid transfer who s env i = some u) :
    u.periods = (s.sub who).elim 0 Subscription.periods + 1 := by
  unfold paid at h
  split at h
  · rename_i subscriber id
    split at h
    · rename_i hw
      subst hw
      cases hs : subscribe transfer env s subscriber id with
      | error e => simp [hs, Except.toOption] at h
      | ok p =>
          obtain ⟨v, s'⟩ := p
          obtain ⟨plan, _, hr, _⟩ := subscribe_ok hs
          obtain rfl : v = u := by simpa [hs, Except.toOption] using h
          exact (renewed_ok hr).2.1
    · cases h
  · cases h

theorem periods_run (calls : List (Env × Invocation)) :
    ((s.run transfer calls).sub who).elim 0 Subscription.periods =
      (s.sub who).elim 0 Subscription.periods + (standings transfer who s calls).length := by
  induction calls generalizing s with
  | nil => rfl
  | cons c rest ih =>
      have hrun : s.run transfer (c :: rest) = (s.after transfer c.1 c.2).run transfer rest := rfl
      rw [hrun, ih, sub_after, standings, List.length_append]
      cases hp : paid transfer who s c.1 c.2 with
      | none => simp
      | some u =>
          have := paid_periods hp
          simp only [Option.some_or, Option.elim_some, Option.toList_some, List.length_singleton]
          omega

end Standings

end CodeZard.Contract
