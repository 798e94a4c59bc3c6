import CodeZard.Contract

namespace CodeZard.Receipts

open Contract

/-- The contract as it is deployed: only its token has moved so far. -/
def deployed (balances : Balances) : State := { balances := balances }

def remaining (sub : Option Subscription) (id : Symbol) (now : Nat) : Nat :=
  match sub with
  | some r => if r.plan = id then r.expires - now else 0
  | none => 0

def Running (sub : Option Subscription) (id : Symbol) (now : Nat) : Prop :=
  ∃ r, sub = some r ∧ r.plan = id ∧ now < r.expires

/-- What a payment at a time does to a subscriber's standing. -/
structure Accounted (before : Option Subscription) (id : Symbol) (plan : Plan) (now : Nat) (u : Subscription) :
    Prop where
  bought : u.plan = id
  periods : u.periods = before.elim 0 Subscription.periods + 1
  raised : remaining (some u) id now = remaining before id now + plan.period
  kept : ∀ r, before = some r → r.plan = id → now < r.expires → u.started = r.started
  reset : ¬ Running before id now → u.started = now
  ordered : (∀ r, before = some r → r.started ≤ r.expires) → u.started ≤ u.expires

theorem accounted_of_renewed {current : Option Subscription} {id : Symbol} {plan : Plan} {now : Nat} {u : Subscription}
    (h : renewed current id plan now = .ok u) : Accounted current id plan now u := by
  obtain ⟨hid, hperiods, ⟨e, rfl, hp, hn, hs, he⟩ | ⟨hno, hs, he⟩⟩ := renewed_ok h
  · refine ⟨hid, hperiods, ?_, ?_, fun hr => absurd ⟨e, rfl, hp, hn⟩ hr, fun ho => ?_⟩
    · simp only [remaining, hid, hp, if_true]
      omega
    · rintro r ⟨rfl⟩ _ _
      exact hs
    · have := ho e rfl
      omega
  · have hzero : remaining current id now = 0 := by
      cases hc : current with
      | none => rfl
      | some e =>
          rcases hno e hc with hp | hle
          · simp [remaining, hp]
          · simp only [remaining]
            split <;> omega
    refine ⟨hid, hperiods, ?_, ?_, fun _ => hs, fun _ => by omega⟩
    · rw [hzero]
      simp only [remaining, hid, if_true]
      omega
    · intro r hr hp hn
      rcases hno r hr with h' | h'
      · exact absurd hp h'
      · omega

section Calls

variable {transfer : Transfer} {who : Address} {s : State} {env : Env} {i : Invocation} {u : Subscription}

theorem paid_subscribe (h : paid transfer who s env i = some u) :
    ∃ id plan, i = .subscribe who id ∧ s.plan id = some plan ∧ (s.after transfer env i).sub who = some u ∧
      Accounted (s.sub who) id plan env.timestamp u := by
  have hsub : (s.after transfer env i).sub who = some u := by rw [sub_after, h, Option.some_or]
  unfold paid at h
  split at h
  · rename_i subscriber id
    split at h
    · rename_i hw
      subst hw
      cases hs : subscribe transfer env s subscriber id with
      | error e => simp [hs, Except.toOption] at h
      | ok p =>
          obtain ⟨v, s'⟩ := p
          obtain ⟨plan, hp, hr, _⟩ := subscribe_ok hs
          obtain rfl : v = u := by simpa [hs, Except.toOption] using h
          exact ⟨id, plan, rfl, hp, hsub, accounted_of_renewed hr⟩
    · cases h
  · cases h

/-- Every standing on record started before it expires. -/
def Ordered (s : State) : Prop := ∀ who r, s.sub who = some r → r.started ≤ r.expires

theorem Ordered.after (h : Ordered s) : Ordered (s.after transfer env i) := by
  intro who r hr
  rw [sub_after] at hr
  cases hp : paid transfer who s env i with
  | none =>
      rw [hp, Option.none_or] at hr
      exact h who r hr
  | some u =>
      rw [hp, Option.some_or] at hr
      cases hr
      obtain ⟨id, plan, _, _, _, ha⟩ := paid_subscribe hp
      exact ha.ordered fun r hr => h who r hr

theorem Ordered.run (h : Ordered s) (calls : List (Env × Invocation)) : Ordered (s.run transfer calls) := by
  induction calls generalizing s with
  | nil => exact h
  | cons c rest ih => exact ih h.after

end Calls

/-- The contract after a history of calls. -/
def reached (transfer : Transfer) (balances : Balances) (calls : List (Env × Invocation)) : State :=
  (deployed balances).run transfer calls

/-- At every point of a history of the contract, an address has as many periods
as it made successful payments, its standing starts before it expires and only
such a payment changes it, and a payment adds exactly the plan's period to what
was left of that plan. -/
theorem time_accounted (transfer : Transfer) (balances : Balances) (calls : List (Env × Invocation)) (who : Address) :
    ((reached transfer balances calls).sub who).elim 0 Subscription.periods =
        (standings transfer who (deployed balances) calls).length ∧
      (∀ r, (reached transfer balances calls).sub who = some r → r.started ≤ r.expires) ∧
      ∀ env i,
        (paid transfer who (reached transfer balances calls) env i = none →
          ((reached transfer balances calls).after transfer env i).sub who =
            (reached transfer balances calls).sub who) ∧
        ∀ u, paid transfer who (reached transfer balances calls) env i = some u →
          ∃ id plan, i = .subscribe who id ∧ (reached transfer balances calls).plan id = some plan ∧
            ((reached transfer balances calls).after transfer env i).sub who = some u ∧
            Accounted ((reached transfer balances calls).sub who) id plan env.timestamp u := by
  have hordered : Ordered (reached transfer balances calls) := by
    apply Ordered.run
    intro who r hr
    cases hr
  refine ⟨?_, hordered who, fun env i => ⟨fun hn => ?_, fun u hu => paid_subscribe hu⟩⟩
  · rw [reached, periods_run]
    simp [deployed]
  · rw [sub_after, hn, Option.none_or]

end CodeZard.Receipts
