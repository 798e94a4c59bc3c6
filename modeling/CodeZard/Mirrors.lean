import CodeZard.Contract
import CodeZard.Renewals
import Mathlib.Data.List.Dedup

namespace CodeZard.Mirrors

open Amounts Products Ledgers Periods Storage Programs Ports Interleaving Requests Renewals

/-- What the grant of an on-chain period is keyed on. -/
def keyOf (s : Contract.Subscription) : Reference := .chain s.plan s.started

def isChain : Reference → Bool
  | .chain .. => true
  | _ => false

def chainGrants (account : String) (s : Store) : List LedgerEntry :=
  s.ledger.filter fun e => e.account = account && e.kind = .grant && isChain e.reference

def seen : BillingLog → Option (OnChainSubscription × Datetime)
  | ⟨.onChain _, .ok (some o)⟩ :: log => some (o, clock log)
  | _ :: log => seen log
  | [] => none

/-- The call returned, having read the period of this key while it ran. -/
def readsPeriod (g : Gateway) (key : Reference) (v : InProgress) : Bool :=
  (v.result.any fun r => r.isOk) && (seen v.log).any fun p => live g p.1 p.2 && p.1.reference = key

def Renews (account : String) (q : Request) : Prop := renews account q = true

instance (account : String) : DecidablePred (Renews account) :=
  fun q => inferInstanceAs (Decidable (renews account q = true))

/-- A read of the contract gives one of its standings, if it gives any. -/
def Reports (S : List Contract.Subscription) : Rule := fun _ _ _ c r =>
  match c, r with
  | .onChain _, .onChain (some o) => ∃ s ∈ S, Contract.read (some s) = some o
  | _, _ => True

instance (S : List Contract.Subscription) (w : World) (vs : List InProgress) (v : InProgress) (c : Call) (r : Reply) :
    Decidable (Reports S w vs v c r) := by
  rcases c <;> rcases r with _ | _ | _ | _ | _ | _ | _ | (_ | _) <;> dsimp only [Reports] <;> infer_instance

variable {g : Gateway} {account : String} {S : List Contract.Subscription}

theorem reference_of_read {s : Contract.Subscription} {o : OnChainSubscription} (h : Contract.read (some s) = some o) :
    o.reference = keyOf s := by
  simp only [Contract.read] at h
  split at h
  · cases h
  · cases h
    rw [OnChainSubscription.reference, keyOf, Int.mul_tdiv_cancel _ (by decide)]

section Logs

def Granting (g : Gateway) (account : String) (log : BillingLog) (e : LedgerEntry) : Prop :=
  ∃ o now plan, seen log = some (o, now) ∧ g.catalog.plan o.plan = .ok plan ∧ e.account = account ∧
    e.kind = .grant ∧ e.tokens = plan.tokens ∧ e.reference = o.reference

def guard (g : Gateway) (account : String) (log : BillingLog) : Call → Prop
  | .append e => isChain e.reference = false ∨ Granting g account log e
  | _ => True

def admits (S : List Contract.Subscription) : (c : Call) → Except Error c.Answer → Prop
  | .onChain _, a => ∀ o, a = .ok (some o) → ∃ s ∈ S, Contract.read (some s) = some o
  | _, _ => True

def Credited (g : Gateway) (log : BillingLog) : Prop :=
  ∀ o now, seen log = some (o, now) → live g o now = true →
    ∃ e y, ⟨.append e, .ok y⟩ ∈ log ∧ e.reference = o.reference

def post (g : Gateway) {α : Type} (r : Except Error α) (log : BillingLog) : Prop := ∀ x, r = .ok x → Credited g log

theorem Credited.suffix {log log' : BillingLog} (h : Credited g log) (hs : seen log' = seen log) (hl : log <:+ log') :
    Credited g log' := by
  intro o now ho hlive
  obtain ⟨e, y, hm, he⟩ := h o now (hs ▸ ho) hlive
  exact ⟨e, y, hl.subset hm, he⟩

theorem seen_cons {log : BillingLog} {x : (c : Call) × Except Error c.Answer} {o : OnChainSubscription}
    {now : Datetime} (h : seen (x :: log) = some (o, now)) :
    seen log = some (o, now) ∨ ∃ account, x = ⟨.onChain account, .ok (some o)⟩ := by
  unfold seen at h
  split at h
  · rename_i hx
    obtain ⟨rfl, rfl⟩ := List.cons.inj hx
    cases h
    exact .inr ⟨_, rfl⟩
  · rename_i hx
    obtain ⟨rfl, rfl⟩ := List.cons.inj hx
    exact .inl h
  · cases h

end Logs

section Programs

variable {log : BillingLog}

theorem keeps_credit {tokens : Int} {kind : EntryKind} {x : Reference} {amount : Money} {memo : String}
    (h : ∀ e : LedgerEntry, e.account = account → e.kind = kind → e.tokens = tokens → e.reference = x →
      isChain e.reference = false ∨ Granting g account log e) :
    Keeps (guard g account) (fun _ => admits S) (fun r log' => seen log' = seen log ∧ ∀ y, r = .ok y →
        ∃ e y, ⟨.append e, .ok y⟩ ∈ log' ∧ e.reference = x)
      (BillingService.credit account tokens kind x amount memo) log := by
  unfold BillingService.credit
  split
  · exact ⟨rfl, by simp⟩
  refine keeps_perform_bind.2 ⟨trivial, fun a _ => ?_⟩
  cases a with
  | error e => exact ⟨rfl, by simp⟩
  | ok id =>
      refine keeps_perform_bind.2 ⟨trivial, fun a _ => ?_⟩
      cases a with
      | error e => exact ⟨rfl, by simp⟩
      | ok now =>
          let e : LedgerEntry := ⟨id, account, kind, tokens, now, amount, x, memo⟩
          have he : guard g account (⟨.now, .ok now⟩ :: ⟨.entryId, .ok id⟩ :: log) (.append e) :=
            h e rfl rfl rfl rfl
          refine keeps_perform.2 ⟨he, fun a _ => ⟨rfl, fun y hy => ⟨e, y, ?_, rfl⟩⟩⟩
          rw [hy]
          exact List.mem_cons_self

theorem keeps_grant (plan : Plan) (s : Subscription) :
    Keeps (guard g account) (fun _ => admits S) (fun _ log' => seen log' = seen log)
      (BillingService.grant account plan s) log :=
  (keeps_credit fun e _ _ _ he => .inl (by rw [he]; rfl)).mono fun _ _ h => h.1

theorem keeps_expireGrant (s : Subscription) (now : Datetime) :
    Keeps (guard g account) (fun _ => admits S) (fun _ log' => seen log' = seen log)
      (BillingService.expireGrant account s now) log := by
  refine keeps_bind.2 (keeps_perform_bind.2 ⟨trivial, fun a _ => ?_⟩)
  cases a with
  | error e => rfl
  | ok entries =>
      simp only [pure_eq, Keeps]
      split
      · rfl
      refine keeps_perform_bind.2 ⟨trivial, fun a _ => ?_⟩
      cases a with
      | error e => rfl
      | ok id =>
          refine keeps_perform_bind.2 ⟨.inl rfl, fun a _ => ?_⟩
          cases a <;> rfl

theorem keeps_settleRow (now : Datetime) :
    Keeps (guard g account) (fun _ => admits S) (fun _ log' => seen log' = seen log)
      (BillingService.settleRow g account now) log := by
  have hput (s : Subscription) (log' : BillingLog) (hl : seen log' = seen log) :
      Keeps (guard g account) (fun _ => admits S) (fun _ log' => seen log' = seen log)
        (some <$> store.putSubscription s) log' := by
    refine keeps_perform_bind.2 ⟨trivial, fun a _ => ?_⟩
    cases a <;> exact hl
  have hrenew (s : Subscription) (plan : Plan) (log' : BillingLog) (hl : seen log' = seen log) :
      Keeps (guard g account) (fun _ => admits S) (fun _ log' => seen log' = seen log)
        ((store.putSubscription s).bind fun s => (BillingService.grant account plan s).bind fun _ => .ret (some s))
        log' := by
    refine keeps_perform_bind.2 ⟨trivial, fun a _ => ?_⟩
    cases a with
    | error e => exact hl
    | ok s =>
        refine keeps_bind.2 ((keeps_grant plan s).mono fun r log'' h => ?_)
        cases r <;> exact h.trans hl
  refine keeps_perform_bind.2 ⟨trivial, fun a _ => ?_⟩
  match a with
  | .error e => exact rfl
  | .ok none =>
      simp only [BillingService.beginFree]
      split
      · exact rfl
      · exact hrenew _ _ _ rfl
  | .ok (some s) =>
      simp only
      split
      · exact rfl
      refine keeps_bind.2 ((keeps_expireGrant s now).mono fun r log' h => ?_)
      cases r with
      | error e => exact h
      | ok _ =>
          simp only
          split
          · split
            · exact hrenew _ _ _ h
            · exact hput _ _ h
          · exact hput _ _ h

theorem keeps_readChain (hl : seen log = none) :
    Keeps (guard g account) (fun _ => admits S)
      (fun r log' => ∀ x, r = .ok x → seen log' = x.map fun o => (o, clock log))
      (BillingService.readChain g account) log := by
  unfold BillingService.readChain
  split
  swap
  · intro x hx
    cases hx
    exact hl
  refine keeps_rescue.2 ((keeps_perform (c := Call.onChain account)).2 ⟨trivial, fun a _ => ?_⟩)
  match a with
  | .error e =>
      simp only
      split
      · intro x hx
        cases hx
        exact hl
      · simp [Keeps]
  | .ok none =>
      intro x hx
      cases hx
      exact hl
  | .ok (some o) =>
      intro x hx
      cases hx
      rfl

theorem keeps_mirrorChain (hl : seen log = none) :
    Keeps (guard g account) (fun _ => admits S) (fun r log' => ∀ x, r = .ok x →
        Credited g log' ∨ x = none ∧ ∀ o now, seen log' = some (o, now) → live g o now = false)
      (BillingService.mirrorChain g account (clock log)) log := by
  refine keeps_bind.2 ((keeps_readChain hl).mono fun r log' h => ?_)
  match r, h with
  | .error e, _ => simp
  | .ok none, h =>
      intro x hx
      cases hx
      exact .inr ⟨rfl, by simp [h none rfl]⟩
  | .ok (some o), h =>
      have hseen : seen log' = some (o, clock log) := h _ rfl
      simp only
      split
      · rename_i hact
        have hact : o.active (clock log) = false := by simpa using hact
        intro x hx
        cases hx
        refine .inr ⟨rfl, fun o' now ho => ?_⟩
        cases hseen.symm.trans ho
        rw [live, hact]
        rfl
      cases hp : g.catalog.plan o.plan with
      | error e =>
          intro x hx
          cases hx
          refine .inr ⟨rfl, fun o' now ho => ?_⟩
          cases hseen.symm.trans ho
          rw [live, hp]
          exact Bool.and_false _
      | ok plan =>
          refine keeps_bind.2 (keeps_perform_bind.2 ⟨trivial, fun a _ => ?_⟩)
          cases a with
          | error e => simp
          | ok m =>
              refine keeps_bind.2 ((keeps_credit fun e he hk ht hr =>
                .inr ⟨o, clock log, plan, by exact hseen, hp, he, hk, ht, hr⟩).mono fun r log'' hlog => ?_)
              cases r with
              | error e => simp
              | ok y =>
                  intro x hx
                  refine .inl fun o' now ho _ => ?_
                  cases (hlog.1.trans hseen).symm.trans ho
                  exact hlog.2 y rfl

theorem keeps_settlePeriod (hl : seen log = none) :
    Keeps (guard g account) (fun _ => admits S) (post g) (BillingService.settlePeriod g account) log := by
  refine keeps_perform_bind.2 ⟨trivial, fun a _ => ?_⟩
  cases a with
  | error e => simp [post]
  | ok now =>
      have hl' : seen (⟨.now, .ok now⟩ :: log) = none := hl
      refine keeps_bind.2 ((keeps_mirrorChain hl').mono fun r log' h => ?_)
      match r, h with
      | .error e, _ => simp [post]
      | .ok (some s), h =>
          intro _ _
          rcases h _ rfl with h | ⟨h, _⟩
          · exact h
          · cases h
      | .ok none, h =>
          have hc : Credited g log' := by
            rcases h _ rfl with h | ⟨_, h⟩
            · exact h
            · intro o t ho hlive
              rw [h o t ho] at hlive
              cases hlive
          exact (keeps_settleRow now).suffix.mono fun r log'' h'' _ _ => hc.suffix h''.1 h''.2

theorem keeps_body {q : Request} (hq : Renews account q) :
    Keeps (guard g account) (fun _ => admits S) (post g) (body g q) [] := by
  cases q with
  | settlePeriod a =>
      obtain rfl : a = account := of_decide_eq_true hq
      refine keeps_bind.2 ((keeps_settlePeriod rfl).mono fun r log h => ?_)
      cases r with
      | error e => simp [post]
      | ok x => exact fun _ _ => h x rfl
  | authorize a needed =>
      obtain rfl : a = account := of_decide_eq_true hq
      refine keeps_bind.2 (keeps_bind.2 ((keeps_settlePeriod rfl).mono fun r log h => ?_))
      cases r with
      | error e => simp [post]
      | ok x =>
          refine keeps_bind.2 (keeps_perform_bind.2 ⟨trivial, fun a _ => ?_⟩)
          cases a with
          | error e => simp [post]
          | ok entries =>
              simp only [pure_eq, Keeps]
              split
              · exact fun _ _ => (h x rfl).suffix rfl (List.suffix_cons _ _)
              · simp [post, Keeps]
  | _ => cases hq

end Programs

/-- An entry keyed on an on-chain period grants the tokens of its plan, for a
standing that the contract has had. -/
def Stands (g : Gateway) (account : String) (S : List Contract.Subscription) (e : LedgerEntry) : Prop :=
  e.account = account ∧ e.kind = .grant ∧ ∃ s ∈ S, e.reference = keyOf s ∧
    ∃ plan, g.catalog.plan s.plan = .ok plan ∧ e.tokens = plan.tokens

structure Inv (g : Gateway) (account : String) (S : List Contract.Subscription) (w : World) (vs : List InProgress) :
    Prop where
  told : ∀ v ∈ vs, ∀ o now, seen v.log = some (o, now) → ∃ s ∈ S, Contract.read (some s) = some o
  appended : ∀ v ∈ vs, ∀ e y, ⟨.append e, .ok y⟩ ∈ v.log → ∃ x ∈ w.store.ledger, x.reference = e.reference
  returned : ∀ v ∈ vs, ∀ x, v.result = some (.ok x) → Credited g v.log
  stands : ∀ e ∈ w.store.ledger, isChain e.reference = true → Stands g account S e
  distinct : (w.store.ledger.filter fun e => isChain e.reference).Pairwise fun e e' => e.reference ≠ e'.reference

section Steps

variable {w w' : World} {vs : List InProgress} {n : Nat} {q : Request} {log : BillingLog} {c : Call} {r : Reply}
  {a : Except Error c.Answer}

theorem admits_step {v : InProgress} (hc : Reports S w vs v c r) (hs : w.step c r = some (a, w')) : admits S c a := by
  cases c with
  | onChain account =>
      obtain ⟨_, ⟨o, rfl, rfl⟩ | ⟨x, _, rfl⟩⟩ := step_onChain hs
      · intro x hx
        obtain rfl := Except.ok.inj hx
        exact hc
      · simp [admits]
  | _ => trivial

theorem plan_of_read {s : Contract.Subscription} {o : OnChainSubscription} (h : Contract.read (some s) = some o) :
    o.plan = s.plan := by
  simp only [Contract.read] at h
  split at h
  · cases h
  · cases h; rfl

theorem Inv.stands_append {e : LedgerEntry} (h : Inv g account S w vs) (hn : vs[n]? = some ⟨q, log, none⟩)
    (hg : guard g account log (.append e)) (hx : isChain e.reference = true) : Stands g account S e := by
  rcases hg with hg | ⟨o, now, plan, hseen, hp, ha, hk, ht, hr⟩
  · rw [hx] at hg
    cases hg
  · obtain ⟨s, hs, hread⟩ := h.told _ (List.mem_of_getElem? hn) o now hseen
    exact ⟨ha, hk, s, hs, hr.trans (reference_of_read hread), plan, plan_of_read hread ▸ hp, ht⟩

theorem Inv.ledger_step (h : Inv g account S w vs) (hn : vs[n]? = some ⟨q, log, none⟩) (hg : guard g account log c)
    (hs : w.step c r = some (a, w')) :
    (∀ e ∈ w'.store.ledger, isChain e.reference = true → Stands g account S e) ∧
      (w'.store.ledger.filter fun e => isChain e.reference).Pairwise fun e e' => e.reference ≠ e'.reference := by
  by_cases hc : ∃ e, c = .append e
  swap
  · push Not at hc
    rw [Ports.ledger_step hc hs]
    exact ⟨h.stands, h.distinct⟩
  obtain ⟨e, rfl⟩ := hc
  rcases step_append hs with ⟨x, _, _, rfl⟩ | ⟨_, _, rfl⟩
  · exact ⟨h.stands, h.distinct⟩
  refine ⟨fun x hx hchain => ?_, ?_⟩
  · rcases Store.mem_append_ledger hx with hx | rfl
    · exact h.stands x hx hchain
    · exact h.stands_append hn hg hchain
  · rcases w.store.append_cases e with ⟨_, _, _, ha⟩ | ⟨_, _, _, ha⟩ | ⟨_, hrec, ha⟩ <;> rw [ha]
    · exact h.distinct
    · exact h.distinct
    · rw [List.filter_append]
      refine List.pairwise_append.2 ⟨h.distinct, List.Pairwise.filter _ (List.pairwise_singleton _ e), ?_⟩
      intro x hx y hy
      obtain ⟨hx, _⟩ := List.mem_filter.1 hx
      obtain ⟨hy, hchain⟩ := List.mem_filter.1 hy
      obtain rfl := List.mem_singleton.1 hy
      refine Store.recorded_none hrec ?_ x hx
      intro hb
      rw [hb] at hchain
      cases hchain

theorem Inv.step {v : InProgress} (h : Inv g account S w vs) (hn : vs[n]? = some ⟨q, log, none⟩)
    (hg : guard g account log c) (hc : Reports S w vs v c r) (hs : w.step c r = some (a, w')) :
    Inv g account S w' (vs.set n ⟨q, ⟨c, a⟩ :: log, none⟩) := by
  obtain ⟨hst, hdi⟩ := h.ledger_step hn hg hs
  refine ⟨fun u hu o now ho => ?_, fun u hu e y hm => ?_, fun u hu x hx => ?_, hst, hdi⟩
  · rcases List.mem_or_eq_of_mem_set hu with hu | rfl
    · exact h.told u hu o now ho
    · have hold := h.told _ (List.mem_of_getElem? hn) o now
      have hadm := admits_step hc hs
      rcases seen_cons ho with ho | ⟨_, hx⟩
      · exact hold ho
      · cases hx
        exact hadm o rfl
  · rcases List.mem_or_eq_of_mem_set hu with hu | rfl
    · obtain ⟨x, hx, hr⟩ := h.appended u hu e y hm
      exact ⟨x, ledger_subset hs x hx, hr⟩
    · rcases List.mem_cons.1 hm with heq | hm
      · cases heq
        rcases step_append hs with ⟨x, _, hx, _⟩ | ⟨_, ha, rfl⟩
        · cases hx
        · rcases w.store.append_cases e with ⟨x, hx, hr, happ⟩ | ⟨x, _, _, happ⟩ | ⟨_, _, happ⟩ <;> rw [happ] at ha ⊢
          · exact ⟨x, hx, hr⟩
          · cases ha
          · exact ⟨e, List.mem_append_right _ (List.mem_singleton_self _), rfl⟩
      · obtain ⟨x, hx, hr⟩ := h.appended _ (List.mem_of_getElem? hn) e y hm
        exact ⟨x, ledger_subset hs x hx, hr⟩
  · rcases List.mem_or_eq_of_mem_set hu with hu | rfl
    · exact h.returned u hu x hx
    · cases hx

end Steps

def protocol (g : Gateway) (account : String) (S : List Contract.Subscription) :
    Protocol (body g) World.step (Renews account) (Reports S) where
  inv := Inv g account S
  guard _ := guard g account
  admits _ _ := admits S
  post _ := post g
  arrive {q w vs} _ h := by
    refine ⟨fun v hv o now ho => ?_, fun v hv e y hm => ?_, fun v hv x hx => ?_, h.stands, h.distinct⟩
    · rcases mem_concat hv with hv | rfl
      · exact h.told v hv o now ho
      · cases ho
    · rcases mem_concat hv with hv | rfl
      · exact h.appended v hv e y hm
      · cases hm
    · rcases mem_concat hv with hv | rfl
      · exact h.returned v hv x hx
      · cases hx
  follows hq := keeps_body hq
  sound h hn hg hc hs := ⟨h.step hn hg hc hs, admits_step hc hs⟩
  leave {w vs i q log o} h hn hp := by
    have hold := List.mem_of_getElem? hn
    refine ⟨fun v hv x now hx => ?_, fun v hv e y hm => ?_, fun v hv x hx => ?_, h.stands, h.distinct⟩
    · rcases List.mem_or_eq_of_mem_set hv with hv | rfl
      · exact h.told v hv x now hx
      · exact h.told _ hold x now hx
    · rcases List.mem_or_eq_of_mem_set hv with hv | rfl
      · exact h.appended v hv e y hm
      · exact h.appended _ hold e y hm
    · rcases List.mem_or_eq_of_mem_set hv with hv | rfl
      · exact h.returned v hv x hx
      · cases hx
        exact hp x rfl

theorem keyOf_renewed {current u : Contract.Subscription} {id : Contract.Symbol} {plan : Contract.Plan} {now : Nat}
    (h : Contract.renewed (some current) id plan now = .ok u) (hp : current.plan = id) (hn : now < current.expires) :
    keyOf u = keyOf current := by
  obtain ⟨hid, _, ⟨e, he, _, _, hs, _⟩ | ⟨hno, _⟩⟩ := Contract.renewed_ok h
  · cases he
    rw [keyOf, keyOf, hid, hp, hs]
  · rcases hno current rfl with hno | hno
    · exact absurd hp hno
    · exact absurd hn (not_lt.2 hno)

theorem periods_granted (g : Gateway) (account : String) (transfer : Contract.Transfer) (s₀ : Contract.State)
    (h₀ : s₀.sub account = none) (calls : List (Contract.Env × Contract.Invocation)) (w : World)
    (hw : ∀ e ∈ w.store.ledger, isChain e.reference = false) (c : Pool)
    (h : Reachable g (Renews account) (Reports (Contract.standings transfer account s₀ calls)) w c)
    (hread : ∀ s ∈ Contract.standings transfer account s₀ calls, ∃ v ∈ c.views, readsPeriod g (keyOf s) v = true) :
    ((chainGrants account c.world.store).map LedgerEntry.reference).Perm
        ((Contract.standings transfer account s₀ calls).map keyOf).dedup ∧
      (∀ e ∈ chainGrants account c.world.store, ∀ s, e.reference = keyOf s →
        ∃ plan, g.catalog.plan s.plan = .ok plan ∧ e.tokens = plan.tokens) ∧
      ((s₀.run transfer calls).sub account).elim 0 Contract.Subscription.periods =
        (Contract.standings transfer account s₀ calls).length ∧
      (∀ current id plan now u, Contract.renewed (some current) id plan now = .ok u → current.plan = id →
        now < current.expires → keyOf u = keyOf current) := by
  have hinit : Inv g account (Contract.standings transfer account s₀ calls) w [] := by
    have hnone : (w.store.ledger.filter fun e => isChain e.reference) = [] := by simpa using hw
    refine ⟨by simp, by simp, by simp, fun e he hc => ?_, by simp [hnone]⟩
    rw [hw e he] at hc
    cases hc
  have hinv := (protocol g account _).invariant hinit h
  have hgrants : chainGrants account c.world.store = c.world.store.ledger.filter fun e => isChain e.reference := by
    refine List.filter_congr fun e he => ?_
    cases hx : isChain e.reference with
    | false => simp
    | true => simp [(hinv.stands e he hx).1, (hinv.stands e he hx).2.1]
  refine ⟨?_, fun e he s hs => ?_, ?_, fun current id plan now u => keyOf_renewed⟩
  · refine (List.perm_ext_iff_of_nodup ?_ (List.nodup_dedup _)).2 fun x => ?_
    · rw [hgrants]
      exact List.pairwise_map.2 hinv.distinct
    · rw [List.mem_dedup, List.mem_map, List.mem_map, hgrants]
      constructor
      · rintro ⟨e, he, rfl⟩
        obtain ⟨he, hc⟩ := List.mem_filter.1 he
        obtain ⟨_, _, s, hs, hr, _⟩ := hinv.stands e he hc
        exact ⟨s, hs, hr.symm⟩
      · rintro ⟨s, hs, rfl⟩
        obtain ⟨v, hv, hreads⟩ := hread s hs
        simp only [readsPeriod, Bool.and_eq_true, Option.any_eq_true, decide_eq_true_eq] at hreads
        obtain ⟨⟨r, hr, hok⟩, ⟨o, now⟩, hseen, hlive, hkey⟩ := hreads
        cases r with
        | error e => cases hok
        | ok x =>
        obtain ⟨e, y, hm, he⟩ := hinv.returned v hv x hr o now hseen hlive
        obtain ⟨z, hz, hr⟩ := hinv.appended v hv e y hm
        have hzs : z.reference = keyOf s := hr.trans (he.trans hkey)
        exact ⟨z, List.mem_filter.2 ⟨hz, by rw [hzs]; rfl⟩, hzs⟩
  · rw [hgrants] at he
    obtain ⟨he, hc⟩ := List.mem_filter.1 he
    obtain ⟨_, _, s', _, hr, plan, hp, ht⟩ := hinv.stands e he hc
    have hplan : s'.plan = s.plan := by
      have hk := hr.symm.trans hs
      simp only [keyOf, Reference.chain.injEq] at hk
      exact hk.1
    exact ⟨plan, hplan ▸ hp, ht⟩
  · rw [Contract.periods_run, h₀]
    simp

def gateway : Gateway := { catalog := defaultCatalog, chainAvailable := true }

def funded : Contract.State := { balances := fun who => if who = "A" then 1000000000 else 0 }

def signed (timestamp : Nat) (i : Contract.Invocation) : Contract.Env × Contract.Invocation :=
  (⟨fun _ => true, timestamp, "C"⟩, i)

def month : Nat := 30 * 24 * 60 * 60

/-- The contract is set up, and then paid for a month of starter at each of the times. -/
def paidAt (times : List Nat) : List (Contract.Env × Contract.Invocation) :=
  [signed 0 (.initialise "ADMIN" "XLM"), signed 0 (.setPlan "starter" ⟨190000000, month, 4000000, true⟩)] ++
    times.map fun t => signed t (.subscribe "A" "starter")

def reads (first second : Contract.Subscription) (now later : Datetime) : List (Event Request Reply) := [
  .start (.settlePeriod "A"), .step 0 (.time now), .step 0 (.onChain (Contract.read (some first))), .step 0 .done,
  .step 0 (.text "e1"), .step 0 (.time now), .step 0 .done, .finish 0,
  .start (.settlePeriod "A"), .step 1 (.time later), .step 1 (.onChain (Contract.read (some second))), .step 1 .done,
  .step 1 (.text "e2"), .step 1 (.time later), .step 1 .done, .finish 1]

def lapsed : List Contract.Subscription := Contract.standings Contract.standard "A" funded (paidAt [0, 2 * month])

theorem periods_granted_lapsed : ∃ c,
    Reachable gateway (Renews "A") (Reports lapsed) {} c ∧
    (∀ s ∈ lapsed, ∃ v ∈ c.views, readsPeriod gateway (keyOf s) v = true) ∧
    ((chainGrants "A" c.world.store).map LedgerEntry.reference).Perm (lapsed.map keyOf).dedup ∧
    (chainGrants "A" c.world.store).length = 2 := by
  have hr : (run (body gateway) World.step (Renews "A") (Reports lapsed) ⟨{}, []⟩
      (reads ⟨"starter", 0, month, 1⟩ ⟨"starter", 2 * month, 3 * month, 2⟩ DAY (2 * MONTH))).any
        (fun c => (lapsed.all fun s => c.views.any (readsPeriod gateway (keyOf s))) &&
          decide ((chainGrants "A" c.world.store).length = 2)) = true := by
    decide +kernel
  obtain ⟨c, h, hp⟩ := reaches_of_run hr
  simp only [Bool.and_eq_true, List.all_eq_true, List.any_eq_true, decide_eq_true_eq] at hp
  exact ⟨c, h, hp.1, (periods_granted gateway "A" Contract.standard funded rfl _ {} (by simp) c h hp.1).1, hp.2⟩

/-- A month, and another that is paid for before it ends. -/
def early : List Contract.Subscription := Contract.standings Contract.standard "A" funded (paidAt [0, month - 1])

/-- Both months are read, the second of them after the first is over, and one
is granted. -/
theorem early_month_ungranted : ∃ c,
    Reachable gateway (Renews "A") (Reports early) {} c ∧
    early = [⟨"starter", 0, month, 1⟩, ⟨"starter", 0, 2 * month, 2⟩] ∧
    (∀ s ∈ early, ∃ v ∈ c.views, readsPeriod gateway (keyOf s) v = true) ∧
    ((funded.run Contract.standard (paidAt [0, month - 1])).sub "A").map Contract.Subscription.periods = some 2 ∧
    (chainGrants "A" c.world.store).length = 1 := by
  have hl : early = [⟨"starter", 0, month, 1⟩, ⟨"starter", 0, 2 * month, 2⟩] := by decide +kernel
  have hr : (run (body gateway) World.step (Renews "A") (Reports early) ⟨{}, []⟩
      (reads ⟨"starter", 0, month, 1⟩ ⟨"starter", 0, 2 * month, 2⟩ DAY (MONTH + DAY))).any
        (fun c => (early.all fun s => c.views.any (readsPeriod gateway (keyOf s))) &&
          decide ((chainGrants "A" c.world.store).length = 1)) = true := by
    decide +kernel
  obtain ⟨c, h, hp⟩ := reaches_of_run hr
  simp only [Bool.and_eq_true, List.all_eq_true, List.any_eq_true, decide_eq_true_eq] at hp
  exact ⟨c, h, hl, hp.1, by decide +kernel, hp.2⟩

end CodeZard.Mirrors
