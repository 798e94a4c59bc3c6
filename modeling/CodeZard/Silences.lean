import CodeZard.BillingService
import Mathlib.Data.Fintype.EquivFin

namespace CodeZard.Silences

open Amounts Products Ledgers Periods Storage Programs Ports BillingService

variable (g : Gateway) (account : String) (o : OnChainSubscription)

def granted (w : World) : Int := (balanceOf account (w.store.allEntries account)).granted

/-- A `settle_period` that reads the contract, finds `o` running and returns. -/
def Reads (w w' : World) : Prop :=
  ∃ now rs s, o.active now = true ∧
    exec World.step (settlePeriod g account) w (.time now :: .onChain (some o) :: rs) = some (.ok s, w')

/-- No expiry is written, the row is not ended, and the next read of `o` shows
the same granted tokens as if nothing had happened. -/
structure Harmless (w w₁ : World) : Prop where
  unexpired : ∀ M, w₁.store.ledger = w.store.ledger ++ M → ∀ e ∈ M, e.kind ≠ .expiry
  standing : ∀ s, w₁.store.subscription account = some s → s.status = .expired →
    ∃ s₀, w.store.subscription account = some s₀ ∧ s₀.status = .expired
  restored : ∀ w₂ v, Reads g account o w₁ w₂ → Reads g account o w v → granted account w₂ = granted account v

/-- However the rest of a `settle_period` goes whose read of the contract
raised `e` at `now`, it is harmless. -/
def Silence (e : Error) (now : Datetime) (w : World) : Prop :=
  ∀ rs r w₁, exec World.step (settlePeriod g account) w (.time now :: .raised e :: rs) = some (r, w₁) →
    Harmless g account o w w₁

/-- What the next read of `o` credits. -/
def owed (plan : Plan) (s : Store) : Int := if (s.recorded o.reference).isSome then 0 else plan.tokens

/-- The grant of a free period that begins at `now` adds nothing to what the
next read of `o` shows: it is on record already or nothing at all, a debt takes
the whole of both, or the plan of `o` cannot be credited. -/
def Unseen (plan free : Plan) (now : Datetime) (s : Store) : Prop :=
  plan.tokens < 0 ∨ free.tokens ≤ 0 ∨ (s.recorded (.grant free.id (now + free.period))).isSome ∨
    shown (s.allEntries account) + owed o plan s + free.tokens ≤ 0

/-- The row kept for the account is not over at `now`, or its end is not seen. -/
def Unmoved (plan : Plan) (now : Datetime) (s : Store) : Prop :=
  match s.subscription account with
  | none => ∀ free, g.catalog.freePlan = some free → Unseen account o plan free now s
  | some r => r.due now = true → ∃ free, g.catalog.plan r.planId = .ok free ∧ free.isFree = true ∧
      ((balanceOf account (s.allEntries account)).granted ≤ 0 ∨ (s.recorded r.expiryReference).isSome) ∧
      Unseen account o plan free now s

variable {g account o} {plan : Plan} {now : Datetime} {w : World}

theorem exists_fresh (L : List LedgerEntry) : ∃ id : String, ∀ x ∈ L, x.id ≠ id := by
  obtain ⟨id, hid⟩ := Infinite.exists_notMem_finset (L.map LedgerEntry.id).toFinset
  refine ⟨id, fun x hx h => hid ?_⟩
  rw [List.mem_toFinset]
  exact List.mem_map.2 ⟨x, hx, h⟩

theorem always_credit (tokens : Int) (kind : EntryKind) (reference : Reference) (amount : Money) (memo : String)
    (w : World) :
    Always World.step (fun r w' => (w'.store = w.store ∧ ∃ e, r = .error e) ∨
        0 ≤ tokens ∧ ∃ id t, r = (w.store.append ⟨id, account, kind, tokens, t, amount, reference, memo⟩).1 ∧
          w'.store = (w.store.append ⟨id, account, kind, tokens, t, amount, reference, memo⟩).2)
      (credit account tokens kind reference amount memo) w := by
  unfold credit
  split
  · exact .inl ⟨rfl, _, rfl⟩
  · refine always_bind.2 (always_perform.2 fun r a w' hs => ?_)
    obtain ⟨rfl, id, rfl⟩ := step_entryId hs
    refine always_bind.2 (always_perform.2 fun r a w' hs => ?_)
    obtain ⟨t, _, _, rfl, rfl⟩ := step_now hs
    refine always_perform.2 fun r a w' hs => ?_
    rcases step_append hs with ⟨x, _, rfl, rfl⟩ | ⟨_, rfl, rfl⟩
    · exact .inl ⟨rfl, x, rfl⟩
    · exact .inr ⟨by omega, id, t, rfl, rfl⟩

theorem granted_append {e : LedgerEntry} {r : LedgerEntry} (he : e.account = account) (hk : e.kind = .grant)
    {s : Store} (h : (s.append e).1 = .ok r) :
    shown ((s.append e).2.allEntries account) =
      shown (s.allEntries account) + if (s.recorded e.reference).isSome then 0 else e.tokens := by
  cases hr : s.recorded e.reference with
  | some x => simp [Store.append, hr]
  | none =>
      unfold Store.append at h ⊢
      simp only [hr] at h ⊢
      split at h
      · cases h
      · rename_i hid
        rw [if_neg hid]
        simp [Store.allEntries, List.filter_append, he, shown_grant hk]

theorem always_mirror (w : World) :
    Always World.step (fun r w' => ∀ s, r = .ok s → 0 ≤ plan.tokens ∧
        shown (w'.store.allEntries account) = shown (w.store.allEntries account) + owed o plan w.store)
      (mirror account plan o) w := by
  refine always_bind.2 (always_perform.2 fun r a w' hs => ?_)
  rcases step_putSubscription hs with ⟨x, _, rfl, rfl⟩ | ⟨_, rfl, rfl⟩
  · simp
  · refine always_bind.2 ((always_credit _ _ _ _ _ _).mono fun r w' hr => ?_)
    rcases hr with ⟨_, e, rfl⟩ | ⟨ht, id, t, hr, hw'⟩
    · simp
    cases r with
    | error e => simp
    | ok x =>
        refine fun s _ => ⟨ht, ?_⟩
        rw [hw', granted_append rfl rfl hr.symm]
        rfl

theorem granted_of_reads {w' : World} (hc : g.chainAvailable = true) (hp : g.catalog.plan o.plan = .ok plan)
    (h : Reads g account o w w') :
    0 ≤ plan.tokens ∧
      granted account w' = max 0 (shown (w.store.allEntries account) + owed o plan w.store) := by
  obtain ⟨now, rs, s, ho, h⟩ := h
  by_cases hw : w.clock ≤ now
  · simp only [settlePeriod, mirrorChain, readChain, nowUtc, ask, perform, hc, if_true, bind_eq, map_eq, pure_eq,
      Prog.bind, Prog.rescue, exec, World.step, hw, Option.bind_some, ofExcept_ok, ret_bind, ho, Bool.not_true,
      Bool.false_eq_true, if_false, hp] at h
    refine Always.exec (P := fun r w' => ∀ s, r = .ok s → 0 ≤ plan.tokens ∧ granted account w' =
      max 0 (shown (w.store.allEntries account) + owed o plan w.store)) ?_ h s rfl
    refine always_bind.2 (always_bind.2 ((always_mirror _).mono fun r w' hr => ?_))
    cases r with
    | error e => simp
    | ok s =>
        obtain ⟨ht, hs⟩ := hr s rfl
        exact fun _ _ => ⟨ht, by rw [granted, granted_eq_shown, hs]⟩
  · simp [settlePeriod, nowUtc, ask, perform, exec, World.step, hw, Prog.bind] at h

theorem exists_reads (account : String) (hc : g.chainAvailable = true) (hp : g.catalog.plan o.plan = .ok plan) (ht : 0 ≤ plan.tokens)
    (ho : o.active now = true) (hw : w.clock ≤ now) : ∃ w', Reads g account o w w' := by
  obtain ⟨id, hid⟩ := exists_fresh w.store.ledger
  let row : Subscription := ⟨account, plan.id, o.started, o.expires, .active⟩
  let entry : LedgerEntry :=
    ⟨id, account, .grant, plan.tokens, now, {}, o.reference, plan.name ++ " · on-chain"⟩
  obtain ⟨x, _, hx, _⟩ := (w.store.putSubscription row).append_fresh (e := entry) hid
  refine ⟨⟨((w.store.putSubscription row).append entry).2, now⟩, now,
    [.done, .text id, .time now, .done], some row, ho, ?_⟩
  simp [settlePeriod, mirrorChain, readChain, nowUtc, ask, perform, hc, Prog.bind, Prog.rescue, exec, World.step, hw,
    ho, hp, mirror, store.putSubscription, credit, not_lt.2 ht, entryId, store.append, row, entry, hx]

theorem silence_iff_always {e : Error} (hc : g.chainAvailable = true) (he : e.isException = true)
    (hw : w.clock ≤ now) :
    Silence g account o e now w ↔
      Always World.step (fun _ w₁ => Harmless g account o w w₁) (settleRow g account now) { w with clock := now } := by
  have hx (rs : List Reply) : exec World.step (settlePeriod g account) w (.time now :: .raised e :: rs) =
      exec World.step (settleRow g account now) { w with clock := now } rs := by
    simp only [settlePeriod, mirrorChain, readChain, nowUtc, ask, perform, hc, if_true, bind_eq, pure_eq,
      Prog.bind, Prog.rescue, exec, World.step, hw, Option.bind_some, ofExcept_ok, ofExcept_error, ret_bind, he]
  simp only [Silence, hx]
  exact ⟨fun h => always_of_exec h, fun h rs r w₁ => h.exec⟩

theorem shown_add_owed {w₁ : World} {x : LedgerEntry} {planId : String} {t : Datetime}
    (hl : w₁.store.ledger = w.store.ledger ++ [x]) (ha : x.account = account) (hk : x.kind = .grant)
    (hx : x.reference = .grant planId t) :
    shown (w₁.store.allEntries account) + owed o plan w₁.store =
      shown (w.store.allEntries account) + owed o plan w.store + x.tokens := by
  have hs : shown (w₁.store.allEntries account) = shown (w.store.allEntries account) + x.tokens := by
    simp [Store.allEntries, hl, List.filter_append, ha, shown_grant hk]
  have hr : w₁.store.recorded o.reference = w.store.recorded o.reference := by
    simp [Store.recorded, hl, List.find?_append, hx, OnChainSubscription.reference]
  rw [hs, owed, hr, ← owed]
  omega

theorem harmless_of {w₁ : World} (free : Plan) (now : Datetime) (hc : g.chainAvailable = true) (hp : g.catalog.plan o.plan = .ok plan)
    (hr : ∀ s, w₁.store.subscription account = some s → s.status = .expired →
      ∃ s₀, w.store.subscription account = some s₀ ∧ s₀.status = .expired)
    (hl : w₁.store.ledger = w.store.ledger ∨ ∃ x, w₁.store.ledger = w.store.ledger ++ [x] ∧ x.account = account ∧
      x.kind = .grant ∧ x.tokens = free.tokens ∧ 0 ≤ free.tokens ∧
      x.reference = .grant free.id (now + free.period) ∧ w.store.recorded x.reference = none ∧
      Unseen account o plan free now w.store) : Harmless g account o w w₁ := by
  rcases hl with hl | ⟨x, hl, ha, hk, ht, h₀, hx, hn, hu⟩
  · refine ⟨fun M hM => ?_, hr, fun w₂ v h₂ hv => ?_⟩
    · obtain rfl : M = [] := by simpa [hl] using hM
      simp
    · rw [(granted_of_reads hc hp h₂).2, (granted_of_reads hc hp hv).2]
      simp [Store.allEntries, owed, Store.recorded, hl]
  · refine ⟨fun M hM => ?_, hr, fun w₂ v h₂ hv => ?_⟩
    · obtain rfl : M = [x] := by simpa [hl] using hM.symm
      simp [hk]
    · obtain ⟨hpl, hg₂⟩ := granted_of_reads hc hp h₂
      rw [hg₂, (granted_of_reads hc hp hv).2, shown_add_owed hl ha hk hx, ht]
      rcases hu with hu | hu | hu | hu
      · omega
      · omega
      · rw [← hx, hn] at hu
        cases hu
      · omega

theorem always_renew {w' : World} (free : Plan) (now : Datetime) {s : Subscription} (hc : g.chainAvailable = true)
    (hp : g.catalog.plan o.plan = .ok plan) (hl : w'.store.ledger = w.store.ledger)
    (hs : s.account = account) (ha : s.status = .active)
    (hg : s.grantReference = .grant free.id (now + free.period)) (hu : Unseen account o plan free now w.store)
    (hr : w'.store.subscription account = w.store.subscription account) :
    Always World.step (fun _ w₁ => Harmless g account o w w₁) ((store.putSubscription s).bind fun s =>
      (grant account free s).bind fun _ => .ret (some s)) w' := by
  refine always_bind.2 (always_perform.2 fun r a w₁ hstep => ?_)
  rcases step_putSubscription hstep with ⟨x, _, rfl, rfl⟩ | ⟨_, rfl, rfl⟩
  · exact harmless_of free now hc hp (fun s h => by simp [hr] at h; simp [h]) (.inl hl)
  have hrow {s' : Subscription} {v : Store} (hv : v.subscription account =
      (w'.store.putSubscription s).subscription account) (h : v.subscription account = some s')
      (he : s'.status = .expired) :
      ∃ s₀, w.store.subscription account = some s₀ ∧ s₀.status = .expired := by
    rw [hv, ← hs, Store.subscription_put] at h
    cases h
    rw [ha] at he
    cases he
  refine always_bind.2 ((always_credit _ _ _ _ _ _).mono fun r w₁ hr => ?_)
  have key : Harmless g account o w w₁ := by
    rcases hr with ⟨hw₁, _⟩ | ⟨ht, id, t, _, hw₁⟩
    · exact harmless_of free now hc hp (fun s' => hrow (by rw [hw₁])) (.inl (by rw [hw₁]; exact hl))
    · refine harmless_of free now hc hp (fun s' => hrow (by rw [hw₁]; simp)) ?_
      rw [hw₁]
      rcases (w'.store.putSubscription s).append_cases
        ⟨id, account, .grant, free.tokens, t, {}, s.grantReference, free.name ++ " · " ++ free.cadence.value⟩ with
        ⟨x, _, _, h⟩ | ⟨x, _, _, h⟩ | ⟨_, hn, h⟩ <;> rw [h]
      · exact .inl hl
      · exact .inl hl
      · refine .inr ⟨_, by rw [← hl]; rfl, rfl, rfl, rfl, ht, hg, ?_, hu⟩
        simpa [Store.recorded, Store.putSubscription, hl] using hn
  cases r <;> exact key

theorem always_expireGrant {r : Subscription} {w : World}
    (h : (balanceOf account (w.store.allEntries account)).granted ≤ 0 ∨ (w.store.recorded r.expiryReference).isSome) :
    Always World.step (fun _ w₁ => w₁.store = w.store) (expireGrant account r now) w := by
  refine always_bind.2 (always_bind.2 (always_perform.2 fun x a w₁ hs => ?_))
  obtain ⟨rfl, rfl | ⟨x, _, rfl⟩⟩ := step_allEntries hs
  · simp only [pure_eq, Always]
    split
    · rfl
    · obtain ⟨x, hx⟩ := Option.isSome_iff_exists.1 (h.resolve_left ‹_›)
      refine always_bind.2 (always_perform.2 fun x a w₁ hs => ?_)
      obtain ⟨rfl, id, rfl⟩ := step_entryId hs
      refine always_bind.2 (always_perform.2 fun y a w₁ hs => ?_)
      rcases step_append hs with ⟨x, _, rfl, rfl⟩ | ⟨_, rfl, rfl⟩
      · rfl
      · simp [Store.append, hx, Always]
  · rfl

theorem silence_of_unmoved {e : Error} (hc : g.chainAvailable = true) (he : e.isException = true)
    (hp : g.catalog.plan o.plan = .ok plan) (hw : w.clock ≤ now) (h : Unmoved g account o plan now w.store) :
    Silence g account o e now w := by
  have hsame {w₁ : World} (hs : w₁.store = w.store) : Harmless g account o w w₁ :=
    harmless_of plan now hc hp (fun s h => by rw [hs] at h; simp [h]) (.inl (by rw [hs]))
  refine (silence_iff_always hc he hw).2 (always_bind.2 (always_perform.2 fun x a w₁ hs => ?_))
  obtain ⟨rfl, rfl | ⟨x, _, rfl⟩⟩ := step_subscription hs
  · unfold Unmoved at h
    cases hr : w.store.subscription account with
    | none =>
        simp only [hr] at h ⊢
        unfold beginFree
        cases hf : g.catalog.freePlan with
        | none => exact hsame rfl
        | some free =>
            exact always_renew free now hc hp rfl rfl rfl rfl
              (h free hf) rfl
    | some r =>
        simp only [hr] at h ⊢
        split
        · exact hsame rfl
        obtain ⟨free, hpl, hfree, hx, hu⟩ := h (by simpa using ‹¬(!r.due now) = true›)
        refine always_bind.2 ((always_expireGrant (w := { w with clock := now }) hx).mono fun a w₁ hs => ?_)
        cases a with
        | error e => exact hsame hs
        | ok _ =>
            simp only [hpl, hfree, if_true]
            exact always_renew free now (s := r.renewed free now) hc hp (by rw [hs])
              (show r.account = account from Store.subscription_account hr) rfl
              (by simp [Subscription.grantReference, Subscription.renewed, Catalog.plan_id hpl]) hu (by rw [hs])
  · exact hsame rfl

theorem exists_renewed {post : Except Error (Option Subscription) → World → Prop} {free : Plan} {s : Subscription}
    (ht : 0 ≤ free.tokens) (h : Always World.step post ((store.putSubscription s).bind fun s =>
      (grant account free s).bind fun _ => .ret (some s)) w) :
    ∃ w₁ r x, post r w₁ ∧ w₁.clock = w.clock ∧ (∀ y ∈ w.store.ledger, y.id ≠ x.id) ∧ x.account = account ∧
      x.kind = .grant ∧ x.tokens = free.tokens ∧ x.reference = s.grantReference ∧
      w₁.store.ledger = (w.store.append x).2.ledger := by
  obtain ⟨id, hid⟩ := exists_fresh w.store.ledger
  have h₁ := always_perform.1 (always_bind.1 h) .done _ _ rfl
  simp only [grant, credit, not_lt.2 ht, if_false] at h₁
  have h₂ := always_perform.1 (always_bind.1 (always_bind.1 h₁)) (.text id) _ _ rfl
  have h₃ := always_perform.1 (always_bind.1 h₂) (.time w.clock) _ _ (if_pos le_rfl)
  have h₄ := always_perform.1 h₃ .done _ _ rfl
  obtain ⟨x, _, hx, _⟩ := (w.store.putSubscription s).append_fresh (e :=
    ⟨id, account, .grant, free.tokens, w.clock, {}, s.grantReference, free.name ++ " · " ++ free.cadence.value⟩) hid
  simp only [hx] at h₄
  exact ⟨_, _, ⟨id, account, .grant, free.tokens, w.clock, {}, s.grantReference, _⟩, h₄, rfl, hid, rfl, rfl, rfl,
    rfl, Store.append_ledger_congr (by rfl) _⟩

theorem exists_expired {post : Except Error Unit → World → Prop} {r : Subscription}
    (h : Always World.step post (expireGrant account r now) w) :
    ∃ w₁, post (.ok ()) w₁ ∧ w₁.clock = w.clock ∧ w₁.store.subscriptions = w.store.subscriptions ∧
      (((balanceOf account (w.store.allEntries account)).granted ≤ 0 ∨
        (w.store.recorded r.expiryReference).isSome) ∧ w₁.store = w.store ∨
      ∃ x, x.kind = .expiry ∧ w₁.store.ledger = w.store.ledger ++ [x]) := by
  have h₁ := always_perform.1 (always_bind.1 (always_bind.1 h)) .done _ _ rfl
  simp only [pure_eq, Always] at h₁
  split at h₁
  · exact ⟨w, h₁, rfl, rfl, .inl ⟨.inl ‹_›, rfl⟩⟩
  · obtain ⟨id, hid⟩ := exists_fresh w.store.ledger
    have h₂ := always_perform.1 (always_bind.1 h₁) (.text id) _ _ rfl
    have h₃ := always_perform.1 (always_bind.1 h₂) .done _ _ rfl
    cases hr : w.store.recorded r.expiryReference with
    | some x =>
        simp only [Store.append, hr, Always] at h₃
        exact ⟨w, h₃, rfl, rfl, .inl ⟨.inr rfl, rfl⟩⟩
    | none =>
        have hany : ¬ (w.store.ledger.any fun x => x.id = id) = true := by simpa using hid
        simp only [Store.append, hr, if_neg hany, Always] at h₃
        exact ⟨_, h₃, rfl, rfl, .inr ⟨_, rfl, rfl⟩⟩

theorem unseen_of_harmless {w₁ : World} {free : Plan} {x : LedgerEntry} (hc : g.chainAvailable = true)
    (hp : g.catalog.plan o.plan = .ok plan) (ho : o.active now = true) (hw : w.clock ≤ now) (hw₁ : w₁.clock ≤ now)
    (ha : x.account = account) (hk : x.kind = .grant) (ht : x.tokens = free.tokens)
    (hx : x.reference = .grant free.id (now + free.period)) (hid : ∀ y ∈ w.store.ledger, y.id ≠ x.id)
    (hs : w₁.store.ledger = (w.store.append x).2.ledger) (h : Harmless g account o w w₁) :
    Unseen account o plan free now w.store := by
  by_contra hu
  simp only [Unseen, not_or, not_lt, not_le] at hu
  obtain ⟨hpl, hfree, hrec, hsum⟩ := hu
  obtain ⟨w₂, h₂⟩ := exists_reads account hc hp hpl ho hw₁
  obtain ⟨v, hv⟩ := exists_reads account hc hp hpl ho hw
  have heq := h.restored w₂ v h₂ hv
  rw [Option.not_isSome_iff_eq_none, ← hx] at hrec
  have hany : ¬ (w.store.ledger.any fun y => y.id = x.id) = true := by simpa using hid
  have hl : w₁.store.ledger = w.store.ledger ++ [x] := by
    rw [hs, Store.append, hrec]
    simp only [if_neg hany]
  rw [(granted_of_reads hc hp h₂).2, (granted_of_reads hc hp hv).2, shown_add_owed hl ha hk hx, ht] at heq
  omega

theorem unmoved_of_silence {e : Error} (hc : g.chainAvailable = true) (he : e.isException = true)
    (ho : o.active now = true) (hp : g.catalog.plan o.plan = .ok plan) (hw : w.clock ≤ now)
    (h : Silence g account o e now w) : Unmoved g account o plan now w.store := by
  have h₁ := always_perform.1 (always_bind.1 ((silence_iff_always hc he hw).1 h)) .done _ _ rfl
  unfold Unmoved
  cases hr : w.store.subscription account with
  | none =>
      intro free hf
      simp only [hr, beginFree, hf] at h₁
      rcases lt_or_ge free.tokens 0 with hneg | hpos
      · exact .inr (.inl hneg.le)
      obtain ⟨w₁, _, x, hh, hcl, hid, ha, hk, ht, hx, hl⟩ := exists_renewed hpos h₁
      exact unseen_of_harmless hc hp ho hw hcl.le ha hk ht hx hid hl hh
  | some r =>
      intro hd
      simp only [hr, hd, Bool.not_true, Bool.false_eq_true, if_false] at h₁
      obtain ⟨w₁, h₂, hcl, hsub, hled⟩ := exists_expired (always_bind.1 h₁)
      have hrow : w₁.store.subscription account = some r := by
        rw [← hr, Store.subscription, hsub]
        rfl
      have hended (h₃ : Always World.step (fun _ w₁ => Harmless g account o w w₁)
          (some <$> store.putSubscription r.ended) w₁) : False := by
        have hh := always_perform.1 (always_bind.1 h₃) .done _ _ rfl
        have hs := Store.subscription_put w₁.store r.ended
        have hacc : r.ended.account = account := Store.subscription_account (r := r) hr
        obtain ⟨s₀, hs₀, he₀⟩ := hh.standing r.ended (by rwa [hacc] at hs) rfl
        rw [hr] at hs₀
        cases hs₀
        rw [(Subscription.due_iff.1 hd).1] at he₀
        cases he₀
      cases hpl : g.catalog.plan r.planId with
      | error e => simp only [hpl] at h₂; exact (hended h₂).elim
      | ok free =>
          simp only [hpl] at h₂
          split at h₂
          · refine ⟨free, rfl, ‹_›, ?_⟩
            rcases hled with ⟨hx, hst⟩ | ⟨x, hk, hl⟩
            · refine ⟨hx, ?_⟩
              rcases lt_or_ge free.tokens 0 with hneg | hpos
              · exact .inr (.inl hneg.le)
              obtain ⟨w₂, _, x, hh, hcl₂, hid, ha, hk, ht, hx, hl⟩ := exists_renewed hpos h₂
              rw [hst] at hid hl
              refine unseen_of_harmless hc hp ho hw (hcl₂.trans hcl).le ha hk ht ?_ hid hl hh
              rw [hx, Subscription.grantReference, Subscription.renewed, Catalog.plan_id hpl]
            · have hh := always_perform.1 (always_bind.1 h₂) (.raised .integrity) _ _ rfl
              exact absurd hk (hh.unexpired [x] hl x (by simp))
          · exact (hended h₂).elim

theorem silence_iff_unmoved (g : Gateway) (account : String) (o : OnChainSubscription) (plan : Plan) (e : Error)
    (now : Datetime) (w : World) (hc : g.chainAvailable = true) (he : e.isException = true)
    (ho : o.active now = true) (hp : g.catalog.plan o.plan = .ok plan) (hw : w.clock ≤ now) :
    Silence g account o e now w ↔ Unmoved g account o plan now w.store :=
  ⟨unmoved_of_silence hc he ho hp hw, silence_of_unmoved hc he hp hw⟩

def gateway : Gateway := { catalog := defaultCatalog, chainAvailable := true }

def starter : Plan := ⟨"starter", "Starter", .usd 19, 4000000, .monthly⟩

def mirrored : Subscription := ⟨"A", "starter", 0, MONTH, .active⟩

/-- A month mirrored from the contract, of which nothing is spent yet. -/
def subscribed : World where
  store := { ledger := [⟨"e1", "A", .grant, 4000000, 0, {}, .chain "starter" 0, "Starter · on-chain"⟩],
             subscriptions := [mirrored] }

/-- The same month, after it was extended on chain by another. -/
def extended : OnChainSubscription := ⟨"starter", 0, 2 * MONTH, 2⟩

theorem silence_iff_unmoved_subscribed :
    (Silence gateway "A" extended (.failed "rpc down") DAY subscribed ↔
      Unmoved gateway "A" extended starter DAY subscribed.store) ∧
    Unmoved gateway "A" extended starter DAY subscribed.store :=
  ⟨silence_iff_unmoved gateway "A" extended starter (.failed "rpc down") DAY subscribed rfl rfl (by decide) (by decide)
    (by decide), fun h => absurd h (by decide)⟩

/-- What a failed read leaves of it when the first month is over. -/
def lost : World where
  store := { ledger := subscribed.store.ledger ++ [⟨"e2", "A", .expiry, -4000000, MONTH, {},
               .expiry "starter" MONTH, "the period ended and its tokens did not roll over"⟩],
             subscriptions := [mirrored.ended] }
  clock := MONTH

/-- The read fails when the first of the two months is over. The row kept here
ends, the tokens expire, and the next read does not bring them back. -/
theorem extended_month_expired :
    exec World.step (settlePeriod gateway "A") {}
        [.time 0, .onChain (some ⟨"starter", 0, MONTH, 1⟩), .done, .text "e1", .time 0, .done] =
          some (.ok (some mirrored), subscribed) ∧
      extended.active MONTH = true ∧
      exec World.step (settlePeriod gateway "A") subscribed
        [.time MONTH, .raised (.failed "rpc down"), .done, .done, .text "e2", .done, .done] =
          some (.ok (some mirrored.ended), lost) ∧
      (∃ w v, Reads gateway "A" extended lost w ∧ Reads gateway "A" extended subscribed v ∧
        granted "A" w = 0 ∧ granted "A" v = 4000000) ∧
      ¬ Silence gateway "A" extended (.failed "rpc down") MONTH subscribed := by
  have hlost : exec World.step (settlePeriod gateway "A") subscribed
      [.time MONTH, .raised (.failed "rpc down"), .done, .done, .text "e2", .done, .done] =
        some (.ok (some mirrored.ended), lost) := rfl
  have hp : gateway.catalog.plan extended.plan = .ok starter := by decide
  obtain ⟨w, hw⟩ := exists_reads "A" (w := lost) rfl hp (by decide)
    (show extended.active MONTH = true by decide) (by decide)
  obtain ⟨v, hv⟩ := exists_reads "A" (w := subscribed) rfl hp (by decide)
    (show extended.active MONTH = true by decide) (by decide)
  refine ⟨rfl, by decide, hlost, ⟨w, v, hw, hv, ?_, ?_⟩, fun h => ?_⟩
  · rw [(granted_of_reads rfl hp hw).2]
    decide
  · rw [(granted_of_reads rfl hp hv).2]
    decide
  · exact (h _ _ _ hlost).unexpired _ rfl _ (List.mem_singleton_self _) rfl

end CodeZard.Silences
