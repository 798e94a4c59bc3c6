import CodeZard.BillingService
import CodeZard.Contract
import Mathlib.Data.List.Induction

namespace CodeZard.Extensions

open Amounts Products Ledgers Periods Invoices Storage Programs Ports BillingService

/-- The time in a ledger, in the unit of the gateway's clock. -/
def ledgerTime (seconds : Nat) : Datetime := seconds * SECOND

/-- The plan is paid for by invoices, delivered at these times. -/
inductive Delivered (g : Gateway) (account planId : String) (w : World) : List Datetime → World → Prop
  | nil : Delivered g account planId w [] w
  | snoc {ts : List Datetime} {u v : World} {i : Invoice} {rs : List Reply} (h : Delivered g account planId w ts u)
      (ha : i.account = account) (hs : i.sku = planId) (he : exec World.step (deliver g i) u rs = some (.ok (), v)) :
      Delivered g account planId w (ts ++ [v.clock]) v

/-- The plan is paid for on the chain, in ledgers that closed at these times. -/
inductive Subscribed (transfer : Contract.Transfer) (account planId : String) (s : Contract.State) :
    List Nat → Contract.State → Prop
  | nil : Subscribed transfer account planId s [] s
  | snoc {ts : List Nat} {u v : Contract.State} {env : Contract.Env} {r : Contract.Subscription}
      (h : Subscribed transfer account planId s ts u)
      (he : Contract.subscribe transfer env u account planId = .ok (r, v)) :
      Subscribed transfer account planId s (ts ++ [env.timestamp]) v

/-- The end of an account's time on a plan, as the gateway keeps it. -/
def keptEnd (w : World) (account planId : String) : Option Datetime :=
  ((w.store.subscription account).filter fun s => s.planId = planId).map Subscription.renewsAt

/-- The same by the contract, which counts in seconds. -/
def chainEnd (s : Contract.State) (account planId : String) : Option Nat :=
  ((s.sub account).filter fun r => r.plan = planId).map Contract.Subscription.expires

/-- The last payment comes when everything paid for before it is used up: a
payment with `k` others between it and the last is over `k + 1` periods old. -/
def UsedUp (period : Nat) (ts : List Nat) : Prop :=
  ∀ before x between t, ts = before ++ x :: (between ++ [t]) → x + (between.length + 1) * period ≤ t

/-- Of the times to which the payments from one on to the last reach, the latest. -/
structure Latest (period : Nat) (ts : List Nat) (e : Nat) : Prop where
  bound : ∀ before x rest, ts = before ++ x :: rest → x + (rest.length + 1) * period ≤ e
  reached : ∃ before x rest, ts = before ++ x :: rest ∧ e = x + (rest.length + 1) * period

section Times

variable {period e t : Nat} {ts : List Nat}

theorem ledgerTime_add (a b : Nat) : ledgerTime (a + b) = ledgerTime a + ledgerTime b := by
  rw [ledgerTime, ledgerTime, ledgerTime, Nat.cast_add, add_mul]

theorem ledgerTime_inj {a b : Nat} : ledgerTime a = ledgerTime b ↔ a = b := by
  constructor
  · intro h
    have h : (a : Int) * 1000000 = b * 1000000 := h
    omega
  · rintro rfl
    rfl

theorem split_snoc {before rest : List Nat} {x : Nat} (h : ts ++ [t] = before ++ x :: rest) :
    (ts = before ∧ t = x ∧ rest = []) ∨ ∃ between, rest = between ++ [t] ∧ ts = before ++ x :: between := by
  induction rest using List.reverseRecOn with
  | nil =>
      obtain ⟨hb, hx⟩ := List.append_inj' h rfl
      cases hx
      exact .inl ⟨hb, rfl, rfl⟩
  | append_singleton between y _ =>
      rw [← List.cons_append, ← List.append_assoc] at h
      obtain ⟨hb, hy⟩ := List.append_inj' h rfl
      cases hy
      exact .inr ⟨between, rfl, hb⟩

theorem usedUp_singleton (t : Nat) : UsedUp period [t] := by
  intro before x between t' h
  have hlength := congrArg List.length h
  simp at hlength
  omega

theorem latest_singleton (t : Nat) : Latest period [t] (t + period) := by
  constructor
  · intro before x rest h
    rcases split_snoc (show [] ++ [t] = _ from h) with ⟨_, rfl, rfl⟩ | ⟨between, _, hn⟩
    · simp
    · simp at hn
  · exact ⟨[], t, [], rfl, by simp⟩

theorem Latest.snoc (h : Latest period ts e) (t : Nat) : Latest period (ts ++ [t]) (max e t + period) := by
  constructor
  · intro before x rest hs
    rcases split_snoc hs with ⟨_, rfl, rfl⟩ | ⟨between, rfl, hts⟩
    · simp only [List.length_nil]
      omega
    · have hle := h.bound before x between hts
      rw [List.length_append, List.length_singleton, add_mul (between.length + 1), one_mul]
      omega
  · rcases le_total t e with hte | het
    · obtain ⟨before, x, rest, rfl, rfl⟩ := h.reached
      refine ⟨before, x, rest ++ [t], by simp, ?_⟩
      rw [max_eq_left hte, List.length_append, List.length_singleton, add_mul (rest.length + 1), one_mul]
      omega
    · exact ⟨ts, t, [], rfl, by rw [max_eq_right het]; simp⟩

theorem Latest.usedUp_iff (h : Latest period ts e) (t : Nat) : UsedUp period (ts ++ [t]) ↔ e ≤ t := by
  constructor
  · intro hu
    obtain ⟨before, x, rest, rfl, rfl⟩ := h.reached
    exact hu before x rest t (by simp)
  · intro hle before x between t' hs
    rw [← List.cons_append, ← List.append_assoc] at hs
    obtain ⟨hts, ht⟩ := List.append_inj' hs rfl
    cases ht
    exact le_trans (h.bound before x between hts) hle

end Times

section Invoices

variable {g : Gateway} {account planId : String} {plan : Plan}

theorem always_any {α : Type} {p : Billing α} {post : Except Error α → World → Prop} (h : ∀ o w, post o w) (w : World) :
    Always World.step post p w :=
  always_of_exec fun _ o w' _ => h o w'

theorem always_subscribe (account : String) (plan : Plan) (w : World) :
    Always World.step (fun o v => o.isOk = true → keptEnd v account plan.id = some (v.clock + plan.period))
      (BillingService.subscribe account plan) w := by
  apply always_bind.2
  apply always_perform.2
  intro r a w₁ hs
  obtain ⟨now, _, _, rfl, rfl⟩ := step_now hs
  apply always_bind.2
  apply always_perform.2
  intro r a w₂ hs
  obtain ⟨rfl, ha⟩ := step_subscription hs
  have hput (s : Subscription) (hacc : s.account = account) (hid : s.planId = plan.id)
      (hend : s.renewsAt = now + plan.period) :
      Always World.step (fun o v => o.isOk = true → keptEnd v account plan.id = some (v.clock + plan.period))
        (store.putSubscription s) { w with clock := now } := by
    apply always_perform.2
    intro r a v hs
    rcases step_putSubscription hs with ⟨x, _, rfl, _⟩ | ⟨_, rfl, rfl⟩
    · intro ho
      cases ho
    · intro _
      subst hacc
      simp [keptEnd, Store.subscription_put, hid, hend]
  rcases ha with rfl | ⟨x, _, rfl⟩
  · cases hrow : w.store.subscription account with
    | none => exact hput _ rfl rfl rfl
    | some s =>
        dsimp only
        by_cases hid : s.planId = plan.id
        · rw [if_pos hid]
          have hacc : s.account = account := Store.subscription_account hrow
          exact hput _ hacc hid rfl
        · rw [if_neg hid]
          exact hput _ rfl rfl rfl
  · intro ho
    cases ho

theorem always_deliver {i : Invoice} (hp : g.catalog.product i.sku = .ok (.plan plan)) (w : World) :
    Always World.step (fun o v => o.isOk = true → keptEnd v i.account plan.id = some (v.clock + plan.period))
      (deliver g i) w := by
  unfold deliver
  rw [hp, ofExcept_ok, bind_eq, ret_bind]
  apply always_bind.2
  apply always_any
  intro o v
  cases o with
  | error e =>
      intro ho
      cases ho
  | ok entry =>
      apply always_bind.2
      apply (always_subscribe i.account plan v).mono
      intro o v' hend
      cases o with
      | error e =>
          intro ho
          cases ho
      | ok s => exact fun _ => hend rfl

theorem Delivered.nil_eq {w v : World} (h : Delivered g account planId w [] v) : v = w := by
  generalize hl : [] = l at h
  cases h with
  | nil => rfl
  | snoc h ha hs he => simp at hl

theorem Delivered.end_eq (hp : g.catalog.product planId = .ok (.plan plan)) {w v : World} {ts : List Datetime}
    {t : Datetime} (h : Delivered g account planId w (ts ++ [t]) v) :
    keptEnd v account planId = some (t + plan.period) := by
  generalize hl : ts ++ [t] = l at h
  cases h with
  | nil => simp at hl
  | snoc h ha hs he =>
      obtain ⟨_, ht⟩ := List.append_inj' hl rfl
      cases ht
      subst ha hs
      have hid : plan.id = _ := Catalog.product_id hp
      exact hid ▸ (always_deliver hp _).exec he rfl

end Invoices

section Chain

variable {transfer : Contract.Transfer} {account planId : String} {s s' : Contract.State} {p : Contract.Plan}

theorem subscribe_plans {env : Contract.Env} {r : Contract.Subscription}
    (h : Contract.subscribe transfer env s account planId = .ok (r, s')) : s'.plan = s.plan := by
  obtain ⟨_, _, h⟩ := Contract.bind_ok h
  obtain ⟨plan, _, h⟩ := Contract.bind_ok h
  split at h
  · cases h
  obtain ⟨_, _, h⟩ := Contract.bind_ok h
  split at h
  · cases h
  obtain ⟨v, _, h⟩ := Contract.bind_ok h
  cases h
  rfl

theorem Subscribed.plans {ts : List Nat} (h : Subscribed transfer account planId s ts s') : s'.plan = s.plan := by
  induction h with
  | nil => rfl
  | snoc _ he ih => rw [subscribe_plans he, ih]

theorem subscribe_end {env : Contract.Env} {r : Contract.Subscription} (hp : s.plan planId = some p)
    (h : Contract.subscribe transfer env s account planId = .ok (r, s')) :
    chainEnd s' account planId =
      some ((chainEnd s account planId).elim env.timestamp (fun e => max e env.timestamp) + p.period) := by
  obtain ⟨plan, hplan, hr, hsub⟩ := Contract.subscribe_ok h
  obtain rfl : p = plan := Option.some.inj (hp.symm.trans hplan)
  obtain ⟨hid, _, hcase⟩ := Contract.renewed_ok hr
  have hnew : chainEnd s' account planId = some r.expires := by simp [chainEnd, hsub, hid]
  rw [hnew]
  cases hcur : s.sub account with
  | none =>
      have hold : chainEnd s account planId = none := by simp [chainEnd, hcur]
      rcases hcase with ⟨e, he, _⟩ | ⟨_, _, hexp⟩
      · rw [hcur] at he
        cases he
      · rw [hold, hexp, Option.elim_none]
  | some e =>
      by_cases hplan : e.plan = planId
      · have hold : chainEnd s account planId = some e.expires := by simp [chainEnd, hcur, hplan]
        rw [hold, Option.elim_some]
        rcases hcase with ⟨e', he, _, hlt, _, hexp⟩ | ⟨hlate, _, hexp⟩
        · obtain rfl : e = e' := Option.some.inj (hcur.symm.trans he)
          rw [hexp, max_eq_left hlt.le]
        · have hle := (hlate e hcur).resolve_left (not_not.2 hplan)
          rw [hexp, max_eq_right hle]
      · have hold : chainEnd s account planId = none := by simp [chainEnd, hcur, hplan]
        rcases hcase with ⟨e', he, hid', _⟩ | ⟨_, _, hexp⟩
        · obtain rfl : e = e' := Option.some.inj (hcur.symm.trans he)
          exact absurd hid' hplan
        · rw [hold, hexp, Option.elim_none]

theorem Subscribed.snoc_cases {ts : List Nat} {t : Nat} (h : Subscribed transfer account planId s (ts ++ [t]) s') :
    ∃ u env r, Subscribed transfer account planId s ts u ∧ env.timestamp = t ∧
      Contract.subscribe transfer env u account planId = .ok (r, s') := by
  generalize hl : ts ++ [t] = l at h
  cases h with
  | nil => simp at hl
  | @snoc ts' u v env r h he =>
      obtain ⟨rfl, ht⟩ := List.append_inj' hl rfl
      cases ht
      exact ⟨u, env, r, h, rfl, he⟩

theorem Subscribed.latest (hp : s.plan planId = some p) (hfresh : chainEnd s account planId = none) {ts : List Nat}
    (h : Subscribed transfer account planId s ts s') :
    (ts = [] ∧ chainEnd s' account planId = none) ∨
      ∃ e, chainEnd s' account planId = some e ∧ Latest p.period ts e := by
  induction h with
  | nil => exact .inl ⟨rfl, hfresh⟩
  | @snoc ts u v env r h he ih =>
      have hend := subscribe_end (by rw [h.plans, hp]) he
      rcases ih with ⟨rfl, hnone⟩ | ⟨e, hsome, hlatest⟩
      · rw [hnone] at hend
        exact .inr ⟨_, hend, latest_singleton env.timestamp⟩
      · rw [hsome] at hend
        exact .inr ⟨_, hend, hlatest.snoc env.timestamp⟩

end Chain

/-- Paid by invoice and on the chain at the same times, a plan ends at the same
time exactly if the last payment is made when nothing paid before is left. -/
theorem same_end_iff_used_up {g : Gateway} {transfer : Contract.Transfer} {account planId : String} {plan : Plan}
    {p : Contract.Plan} {w w' : World} {s s' : Contract.State} {ts : List Nat}
    (hplan : g.catalog.product planId = .ok (.plan plan)) (hchain : s.plan planId = some p)
    (hperiod : plan.period = ledgerTime p.period) (hw : keptEnd w account planId = none)
    (hs : chainEnd s account planId = none) (hd : Delivered g account planId w (ts.map ledgerTime) w')
    (hc : Subscribed transfer account planId s ts s') :
    keptEnd w' account planId = (chainEnd s' account planId).map ledgerTime ↔
      UsedUp p.period ts := by
  rcases List.eq_nil_or_concat' ts with rfl | ⟨init, t, rfl⟩
  · have hnone : chainEnd s' account planId = none := by
      rcases hc.latest hchain hs with ⟨_, hnone⟩ | ⟨e, _, h⟩
      · exact hnone
      · obtain ⟨before, x, rest, hnil, _⟩ := h.reached
        simp at hnil
    rw [hd.nil_eq, hw, hnone]
    simp [UsedUp]
  · rw [List.map_append] at hd
    obtain ⟨u, env, r, hu, rfl, he⟩ := hc.snoc_cases
    have hend := subscribe_end (by rw [hu.plans, hchain]) he
    have hkept : keptEnd w' account planId = some (ledgerTime (env.timestamp + p.period)) := by
      rw [hd.end_eq hplan, hperiod, ledgerTime_add]
    rw [hkept, hend, Option.map_some, Option.some_inj, ledgerTime_inj]
    rcases hu.latest hchain hs with ⟨rfl, hnone⟩ | ⟨e, hsome, hlatest⟩
    · rw [hnone]
      simp only [List.nil_append, Option.elim_none, usedUp_singleton]
    · rw [hsome, hlatest.usedUp_iff, Option.elim_some]
      omega

def gateway : Gateway := { catalog := defaultCatalog }

def starter : Contract.Plan := ⟨1900000000, 30 * 86400, 4000000, true⟩

def onSale : Contract.State :=
  { token := some "XLM", plan := fun id => if id = "starter" then some starter else none, balances := fun _ => 10000000000 }

def invoice (id : String) : Invoice :=
  ⟨id, "A", "starter", 4000000, .usd 19, "XLM", "190.0000000", "G", 0, INVOICE_TTL, .paid, "plan", "", ""⟩

def env (t : Nat) : Contract.Env := { signed := fun _ => true, timestamp := t }

def replies (id : String) (t : Nat) : List Reply :=
  [.text id, .time (ledgerTime t), .done, .time (ledgerTime t), .done, .done]

/-- What a delivery and a payment on the chain leave, if they go through. -/
def delivered (w : World) (id : String) (t : Nat) : World :=
  ((exec World.step (deliver gateway (invoice id)) w (replies id t)).map Prod.snd).getD w

def subscribed (s : Contract.State) (t : Nat) : Contract.State :=
  ((Contract.subscribe Contract.standard (env t) s "A" "starter").toOption.map Prod.snd).getD s

theorem Delivered.concat {w u : World} {ts : List Datetime} (h : Delivered gateway "A" "starter" w ts u)
    (id : String) (t : Nat)
    (he : exec World.step (deliver gateway (invoice id)) u (replies id t) = some (.ok (), delivered u id t)) :
    Delivered gateway "A" "starter" w (ts ++ [(delivered u id t).clock]) (delivered u id t) :=
  h.snoc rfl rfl he

theorem same_end_iff_used_up_on_time :
    (keptEnd (delivered (delivered {} "1" 0) "2" 2592000) "A" "starter" =
        (chainEnd (subscribed (subscribed onSale 0) 2592000) "A" "starter").map ledgerTime ↔
      UsedUp starter.period [0, 2592000]) ∧
      chainEnd (subscribed (subscribed onSale 0) 2592000) "A" "starter" = some 5184000 := by
  have hd := ((Delivered.nil (w := {})).concat "1" 0 rfl).concat "2" 2592000 rfl
  have hc : Subscribed Contract.standard "A" "starter" onSale ([] ++ [(env 0).timestamp] ++ [(env 2592000).timestamp])
      (subscribed (subscribed onSale 0) 2592000) := (Subscribed.nil.snoc rfl).snoc rfl
  exact ⟨same_end_iff_used_up rfl rfl rfl rfl rfl hd hc, rfl⟩

/-- A renewal a day after the first payment: the contract goes on from the end
of the first month, and the gateway from now, so that 29 days are lost. -/
theorem early_renewal_cut_short :
    Delivered gateway "A" "starter" {} ([0, 86400].map ledgerTime) (delivered (delivered {} "1" 0) "2" 86400) ∧
      Subscribed Contract.standard "A" "starter" onSale [0, 86400] (subscribed (subscribed onSale 0) 86400) ∧
      keptEnd (delivered (delivered {} "1" 0) "2" 86400) "A" "starter" = some (ledgerTime (31 * 86400)) ∧
      chainEnd (subscribed (subscribed onSale 0) 86400) "A" "starter" = some (60 * 86400) ∧
      keptEnd (delivered (delivered {} "1" 0) "2" 86400) "A" "starter" ≠
        (chainEnd (subscribed (subscribed onSale 0) 86400) "A" "starter").map ledgerTime := by
  have hd := ((Delivered.nil (w := {})).concat "1" 0 rfl).concat "2" 86400 rfl
  have hc : Subscribed Contract.standard "A" "starter" onSale ([] ++ [(env 0).timestamp] ++ [(env 86400).timestamp])
      (subscribed (subscribed onSale 0) 86400) := (Subscribed.nil.snoc rfl).snoc rfl
  exact ⟨hd, hc, rfl, rfl, by decide +kernel⟩

end CodeZard.Extensions
