import CodeZard.Receipts
import Mathlib.Data.List.Nodup

namespace CodeZard.Takings

open Products Contract Receipts

/-- What a token of the standard interface moves it moves as the interface says,
and it may refuse for reasons of its own. -/
def Follows (transfer : Transfer) : Prop :=
  ∀ balances sender receiver amount balances',
    transfer balances sender receiver amount = some balances' → standard balances sender receiver amount = some balances'

/-- An invocation of the contract at an address, which signs nothing itself. -/
def At (C : Address) (env : Env) : Prop := env.contract = C ∧ env.signed C = false

/-- The price a call paid, as it was when the call was made. -/
def price (transfer : Transfer) (s : State) (env : Env) (i : Invocation) : Int :=
  match i, invoke transfer env s i with
  | .subscribe _ id, .ok _ => (s.plan id).elim 0 Plan.price
  | _, _ => 0

/-- The amount a call withdrew to somebody else. -/
def payout (transfer : Transfer) (s : State) (env : Env) (i : Invocation) : Int :=
  match i, invoke transfer env s i with
  | .withdraw to_ amount, .ok _ => if to_ = env.contract then 0 else amount
  | _, _ => 0

def initialises (transfer : Transfer) (s : State) (env : Env) (i : Invocation) : Int :=
  match i, invoke transfer env s i with
  | .initialise .., .ok _ => 1
  | _, _ => 0

/-- A sum over the calls of a history. -/
def total (transfer : Transfer) (f : State → Env → Invocation → Int) : State → List (Env × Invocation) → Int
  | _, [] => 0
  | s, (env, i) :: rest => f s env i + total transfer f (s.after transfer env i) rest

section Calls

variable {transfer : Transfer} {s s' : State} {env : Env} {i : Invocation} {C : Address}

theorem requireAuth_ok {who : Address} {u : Unit} (h : requireAuth env who = .ok u) : env.signed who = true := by
  unfold requireAuth at h
  split at h
  · assumption
  · cases h

theorem adminOf_ok {a : Address} (h : adminOf s = .ok a) : s.admin = some a := by
  unfold adminOf orElse at h
  split at h
  · cases h; assumption
  · cases h

theorem subscribe_spends {subscriber : Address} {id : Symbol} {u : Subscription}
    (h : subscribe transfer env s subscriber id = .ok (u, s')) :
    ∃ plan balances, env.signed subscriber = true ∧ s.plan id = some plan ∧
      transfer s.balances subscriber env.contract plan.price = some balances ∧
      s' = { s with sub := Function.update s.sub subscriber (some u), balances := balances } := by
  obtain ⟨_, ha, h⟩ := bind_ok h
  obtain ⟨plan, hp, h⟩ := bind_ok h
  have hp : s.plan id = some plan := by
    unfold requirePlan orElse at hp
    split at hp
    · cases hp; assumption
    · cases hp
  split at h
  · cases h
  obtain ⟨_, _, h⟩ := bind_ok h
  split at h
  · cases h
  obtain ⟨v, hv, h⟩ := bind_ok h
  cases h
  exact ⟨plan, _, requireAuth_ok ha, hp, ‹_›, rfl⟩

theorem invoke_cases (h : invoke transfer env s i = .ok s') :
    (∃ admin token, i = .initialise admin token ∧ s.admin = none ∧
        s' = { s with admin := some admin, token := some token, plans := [] }) ∨
      (∃ id plan a, i = .setPlan id plan ∧ s.admin = some a ∧ env.signed a = true ∧ 0 < plan.price ∧ 0 < plan.period ∧
        s' = { s with
          plan := Function.update s.plan id (some plan)
          plans := if id ∈ s.plans then s.plans else s.plans ++ [id] }) ∨
      (∃ subscriber id plan u balances, i = .subscribe subscriber id ∧ env.signed subscriber = true ∧
        s.plan id = some plan ∧ transfer s.balances subscriber env.contract plan.price = some balances ∧
        s' = { s with sub := Function.update s.sub subscriber (some u), balances := balances }) ∨
      (∃ to_ amount a balances, i = .withdraw to_ amount ∧ s.admin = some a ∧ env.signed a = true ∧ 0 < amount ∧
        amount ≤ s.balances env.contract ∧ transfer s.balances env.contract to_ amount = some balances ∧
        s' = { s with balances := balances }) ∨
      (∃ newAdmin a, i = .setAdmin newAdmin ∧ s.admin = some a ∧ env.signed a = true ∧
        env.signed newAdmin = true ∧ s' = { s with admin := some newAdmin }) := by
  cases i with
  | initialise admin token =>
      simp only [invoke, initialise] at h
      split at h
      · cases h
      · cases h
        exact .inl ⟨admin, token, rfl, Option.not_isSome_iff_eq_none.1 ‹_›, rfl⟩
  | setPlan id plan =>
      obtain ⟨a, ha, h⟩ := bind_ok h
      obtain ⟨_, hs, h⟩ := bind_ok h
      split at h
      · cases h
      · cases h
        rename_i hbad
        exact .inr (.inl ⟨id, plan, a, rfl, adminOf_ok ha, requireAuth_ok hs, by omega, by omega, rfl⟩)
  | subscribe subscriber id =>
      simp only [invoke] at h
      cases hs : subscribe transfer env s subscriber id with
      | error e => rw [hs] at h; cases h
      | ok p =>
          rw [hs] at h
          cases h
          obtain ⟨plan, balances, ha, hp, ht, hs'⟩ := subscribe_spends hs
          exact .inr (.inr (.inl ⟨subscriber, id, plan, p.1, balances, rfl, ha, hp, ht, hs'⟩))
  | withdraw to_ amount =>
      obtain ⟨a, ha, h⟩ := bind_ok h
      obtain ⟨_, hs, h⟩ := bind_ok h
      obtain ⟨_, _, h⟩ := bind_ok h
      split at h
      · cases h
      · rename_i hbad
        split at h
        · cases h
        · cases h
          exact .inr (.inr (.inr (.inl ⟨to_, amount, a, _, rfl, adminOf_ok ha, requireAuth_ok hs, by omega, by omega,
            ‹_›, rfl⟩)))
  | setAdmin newAdmin =>
      obtain ⟨a, ha, h⟩ := bind_ok h
      obtain ⟨_, hs, h⟩ := bind_ok h
      obtain ⟨_, hn, h⟩ := bind_ok h
      cases h
      exact .inr (.inr (.inr (.inr ⟨newAdmin, a, rfl, adminOf_ok ha, requireAuth_ok hs, requireAuth_ok hn, rfl⟩)))

theorem after_of_ok (h : invoke transfer env s i = .ok s') : s.after transfer env i = s' := by
  simp only [State.after, h]

theorem after_of_error {e : Failure} (h : invoke transfer env s i = .error e) : s.after transfer env i = s := by
  simp only [State.after, h]

/-- The plans are fit to be sold, and the list of ids is the list of the plans. -/
structure Listed (s : State) : Prop where
  fit : ∀ id p, s.plan id = some p → 0 < p.price ∧ 0 < p.period
  nodup : s.plans.Nodup
  listed : ∀ id, id ∈ s.plans ↔ (s.plan id).isSome = true
  closed : s.admin = none → s.plans = []

theorem listed_deployed (balances : Balances) : Listed (deployed balances) :=
  ⟨by simp [deployed], by simp [deployed], by simp [deployed], fun _ => rfl⟩

theorem Listed.invoke (hl : Listed s) (h : invoke transfer env s i = .ok s') : Listed s' := by
  rcases invoke_cases h with ⟨admin, token, _, hnone, rfl⟩ | ⟨id, plan, a, _, ha, _, hprice, hperiod, rfl⟩ |
    ⟨subscriber, id, plan, u, balances, _, _, _, _, rfl⟩ | ⟨to_, amount, a, balances, _, _, _, _, _, _, rfl⟩ |
    ⟨newAdmin, a, _, ha, _, _, rfl⟩
  · have hempty := hl.closed hnone
    refine ⟨hl.fit, List.nodup_nil, fun id => ?_, by simp⟩
    rw [← hl.listed id, hempty]
  · refine ⟨fun id' p hp => ?_, ?_, fun id' => ?_, fun hn => absurd (ha.symm.trans hn) (by simp)⟩
    · by_cases hid : id' = id
      · subst hid
        dsimp only at hp
        rw [Function.update_self] at hp
        cases hp
        exact ⟨hprice, hperiod⟩
      · dsimp only at hp
        rw [Function.update_of_ne hid] at hp
        exact hl.fit id' p hp
    · dsimp only
      split
      · exact hl.nodup
      · rename_i hmem
        exact List.nodup_append.2 ⟨hl.nodup, List.nodup_singleton _, by
          intro x hx y hy
          rw [List.mem_singleton.1 hy]
          rintro rfl
          exact hmem hx⟩
    · have hmem : id' ∈ (if id ∈ s.plans then s.plans else s.plans ++ [id]) ↔ id' ∈ s.plans ∨ id' = id := by
        split
        · rename_i hin
          constructor
          · exact .inl
          · rintro (h' | rfl)
            · exact h'
            · exact hin
        · simp
      dsimp only
      rw [hmem, hl.listed id']
      by_cases hid : id' = id
      · simp [hid]
      · simp [hid]
  · exact ⟨hl.fit, hl.nodup, hl.listed, hl.closed⟩
  · exact ⟨hl.fit, hl.nodup, hl.listed, hl.closed⟩
  · exact ⟨hl.fit, hl.nodup, hl.listed, by simp⟩

theorem Listed.after (hl : Listed s) : Listed (s.after transfer env i) := by
  cases h : Contract.invoke transfer env s i with
  | error e => rwa [after_of_error h]
  | ok s' =>
      rw [after_of_ok h]
      exact hl.invoke h

theorem standard_ok {balances balances' : Balances} {sender receiver : Address} {amount : Int}
    (h : standard balances sender receiver amount = some balances') :
    0 ≤ amount ∧ amount ≤ balances sender ∧ ∀ who, balances' who =
      balances who - (if who = sender then amount else 0) + (if who = receiver then amount else 0) := by
  unfold standard at h
  split at h
  · cases h
  · cases h
    refine ⟨by omega, by omega, fun who => ?_⟩
    simp only [Function.update_apply]
    by_cases hr : who = receiver
    · subst hr
      by_cases hs : who = sender
      · subst hs
        simp
      · simp [hs]
    · by_cases hs : who = sender
      · subst hs
        simp [hr]
      · simp [hr, hs]

theorem balance_after (ht : Follows transfer) (hc : At C env) :
    (s.after transfer env i).balances C = s.balances C + price transfer s env i - payout transfer s env i := by
  obtain ⟨rfl, hsigned⟩ := hc
  cases h : invoke transfer env s i with
  | error e => cases i <;> simp [after_of_error h, price, payout, h]
  | ok s' =>
      rw [after_of_ok h]
      rcases invoke_cases h with ⟨admin, token, rfl, _, rfl⟩ | ⟨id, plan, a, rfl, _, _, _, _, rfl⟩ |
        ⟨subscriber, id, plan, u, balances, rfl, ha, hp, hmoved, rfl⟩ |
        ⟨to_, amount, a, balances, rfl, _, _, _, _, hmoved, rfl⟩ | ⟨newAdmin, a, rfl, _, _, _, rfl⟩
      · simp [price, payout]
      · simp [price, payout]
      · obtain ⟨_, _, hb⟩ := standard_ok (ht _ _ _ _ _ hmoved)
        have hne : env.contract ≠ subscriber := by
          rintro rfl
          exact absurd (hsigned.symm.trans ha) (by simp)
        simp [price, payout, h, hp, hb, hne]
      · obtain ⟨_, _, hb⟩ := standard_ok (ht _ _ _ _ _ hmoved)
        simp only [price, payout, h, hb, if_true]
        by_cases hto : to_ = env.contract
        · simp [hto]
        · simp [hto, Ne.symm hto]
      · simp [price, payout]

theorem balance_run (ht : Follows transfer) (calls : List (Env × Invocation)) (hc : ∀ c ∈ calls, At C c.1) :
    (s.run transfer calls).balances C =
      s.balances C + total transfer (price transfer) s calls - total transfer (payout transfer) s calls := by
  induction calls generalizing s with
  | nil => simp [State.run, total]
  | cons c rest ih =>
      have hrun : s.run transfer (c :: rest) = (s.after transfer c.1 c.2).run transfer rest := rfl
      rw [hrun, ih fun c' hc' => hc c' (List.mem_cons_of_mem c hc'), balance_after ht (hc c List.mem_cons_self)]
      simp only [total]
      omega

theorem Listed.run (hl : Listed s) (calls : List (Env × Invocation)) : Listed (s.run transfer calls) := by
  induction calls generalizing s with
  | nil => exact hl
  | cons c rest ih => exact ih hl.after

theorem admin_signed (ht : Follows transfer) (hc : At C env) (hl : Listed s) (hadmin : s.admin.isSome = true)
    (h : (s.after transfer env i).admin ≠ s.admin ∨ (s.after transfer env i).plan ≠ s.plan ∨
      (s.after transfer env i).plans ≠ s.plans ∨ (s.after transfer env i).balances C < s.balances C) :
    ∃ a, s.admin = some a ∧ env.signed a = true := by
  cases hi : invoke transfer env s i with
  | error e => simp [after_of_error hi] at h
  | ok s' =>
      have hbalance := balance_after (i := i) ht hc (s := s)
      rw [after_of_ok hi] at h hbalance
      rcases invoke_cases hi with ⟨admin, token, rfl, hnone, rfl⟩ | ⟨id, plan, a, rfl, ha, hs, _⟩ |
        ⟨subscriber, id, plan, u, balances, rfl, _, hp, _, rfl⟩ | ⟨to_, amount, a, balances, rfl, ha, hs, _⟩ |
        ⟨newAdmin, a, rfl, ha, hs, _⟩
      · simp [hnone] at hadmin
      · exact ⟨a, ha, hs⟩
      · -- a payment leaves all of it alone and only brings tokens in
        have := (hl.fit id plan hp).1
        simp only [price, payout, hi, hp, Option.elim_some] at hbalance
        simp only [ne_eq, not_true_eq_false, false_or] at h
        omega
      · exact ⟨a, ha, hs⟩
      · exact ⟨a, ha, hs⟩

theorem initialise_again {admin token : Address} (hadmin : s.admin.isSome = true) :
    invoke transfer env s (.initialise admin token) = .error (.error .alreadyInitialised) := by
  simp only [invoke, initialise, hadmin, if_true]

theorem isSome_after (hadmin : s.admin.isSome = true) : (s.after transfer env i).admin.isSome = true := by
  cases hi : invoke transfer env s i with
  | error e => rwa [after_of_error hi]
  | ok s' =>
      rw [after_of_ok hi]
      rcases invoke_cases hi with ⟨_, _, _, _, rfl⟩ | ⟨_, _, _, _, _, _, _, _, rfl⟩ | ⟨_, _, _, _, _, _, _, _, _, rfl⟩ |
        ⟨_, _, _, _, _, _, _, _, _, _, rfl⟩ | ⟨_, _, _, _, _, _, rfl⟩
      · rfl
      · exact hadmin
      · exact hadmin
      · exact hadmin
      · rfl

theorem total_initialises (calls : List (Env × Invocation)) :
    total transfer (initialises transfer) s calls ≤ if s.admin.isSome then 0 else 1 := by
  induction calls generalizing s with
  | nil => simp only [total]; split <;> omega
  | cons c rest ih =>
      obtain ⟨env, i⟩ := c
      have hrest := ih (s := s.after transfer env i)
      simp only [total]
      cases i with
      | initialise admin token =>
          cases hadmin : s.admin.isSome with
          | true =>
              rw [isSome_after hadmin, if_pos rfl] at hrest
              simp only [initialises, initialise_again hadmin]
              simpa using hrest
          | false =>
              have hi : invoke transfer env s (.initialise admin token) =
                  .ok { s with admin := some admin, token := some token, plans := [] } := by
                simp [invoke, initialise, hadmin]
              rw [after_of_ok hi] at hrest ⊢
              simp only [initialises, hi]
              simp at hrest ⊢
              omega
      | _ =>
          cases hadmin : s.admin.isSome with
          | true =>
              rw [isSome_after hadmin, if_pos rfl] at hrest
              simpa [initialises] using hrest
          | false =>
              have hone : total transfer (initialises transfer) (s.after transfer env _) rest ≤ 1 :=
                hrest.trans (by split <;> omega)
              simpa [initialises] using hone

end Calls

/-- What a call of the contract at an address may do in a state. -/
structure Guarded (transfer : Transfer) (C : Address) (s : State) (env : Env) (i : Invocation) : Prop where
  reverted : ∀ e, invoke transfer env s i = .error e → s.after transfer env i = s
  held : ∀ to_ amount s', i = .withdraw to_ amount → invoke transfer env s i = .ok s' → amount ≤ s.balances C
  signed : s.admin.isSome = true → (s.after transfer env i).admin ≠ s.admin ∨ (s.after transfer env i).plan ≠ s.plan ∨
      (s.after transfer env i).plans ≠ s.plans ∨ (s.after transfer env i).balances C < s.balances C →
    ∃ a, s.admin = some a ∧ env.signed a = true
  once : s.admin.isSome = true → ∀ admin token, i = .initialise admin token →
    invoke transfer env s i = .error (.error .alreadyInitialised)

theorem guarded_of_listed {transfer : Transfer} {C : Address} {s : State} {env : Env} (ht : Follows transfer)
    (hl : Listed s) (hc : At C env) (i : Invocation) : Guarded transfer C s env i := by
  refine ⟨fun e => after_of_error, ?_, fun hadmin h => admin_signed ht hc hl hadmin h, ?_⟩
  · rintro to_ amount s' rfl hi
    rcases invoke_cases hi with ⟨_, _, he, _⟩ | ⟨_, _, _, he, _⟩ | ⟨_, _, _, _, _, he, _⟩ |
      ⟨_, _, _, _, he, _, _, _, hle, _⟩ | ⟨_, _, he, _⟩
    · cases he
    · cases he
    · cases he
    · cases he
      rwa [hc.1] at hle
    · cases he
  · rintro hadmin admin token rfl
    exact initialise_again hadmin

/-- In every history of the contract its balance is what it was paid less what
was withdrawn, its plans are fit for sale and listed once each, it is initialised
once at most, and what a call may do is what the admin of that moment signed. -/
theorem money_accounted (transfer : Transfer) (ht : Follows transfer) (balances : Balances) (C : Address)
    (calls : List (Env × Invocation)) (hc : ∀ c ∈ calls, At C c.1) :
    (reached transfer balances calls).balances C = balances C +
        total transfer (price transfer) (deployed balances) calls -
        total transfer (payout transfer) (deployed balances) calls ∧
      total transfer (initialises transfer) (deployed balances) calls ≤ 1 ∧
      Listed (reached transfer balances calls) ∧
      ∀ env i, At C env → Guarded transfer C (reached transfer balances calls) env i := by
  have hl : Listed (reached transfer balances calls) := (listed_deployed balances).run calls
  refine ⟨balance_run ht calls hc, ?_, hl, fun env i he => guarded_of_listed ht hl he i⟩
  exact (total_initialises calls).trans (by simp [deployed])

def signedBy (who : Address) (i : Invocation) : Env × Invocation := ({ signed := fun a => a = who, timestamp := 0 }, i)

def oneSale : List (Env × Invocation) := [
  signedBy "M" (.initialise "M" "XLM"), signedBy "M" (.setPlan "PRO" ⟨10, 60, 5, true⟩),
  signedBy "A" (.subscribe "A" "PRO"), signedBy "M" (.withdraw "M" 5)]

theorem money_accounted_oneSale :
    (∀ c ∈ oneSale, At "C" c.1) ∧
      (reached standard (fun who => if who = "A" then 10 else 0) oneSale).balances "C" = 5 ∧
      total standard (price standard) (deployed fun who => if who = "A" then 10 else 0) oneSale = 10 ∧
      total standard (payout standard) (deployed fun who => if who = "A" then 10 else 0) oneSale = 5 := by
  have hc : ∀ c ∈ oneSale, At "C" c.1 := by simp [oneSale, signedBy, At]
  have hbalance := (money_accounted standard (fun _ _ _ _ _ h => h) (fun who => if who = "A" then 10 else 0) "C"
    oneSale hc).1
  have hprice : total standard (price standard) (deployed fun who => if who = "A" then 10 else 0) oneSale = 10 := by
    decide +kernel
  have hpayout : total standard (payout standard) (deployed fun who => if who = "A" then 10 else 0) oneSale = 5 := by
    decide +kernel
  rw [hprice, hpayout] at hbalance
  exact ⟨hc, hbalance, hprice, hpayout⟩

end CodeZard.Takings
