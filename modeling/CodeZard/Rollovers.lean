import CodeZard.Histories
import CodeZard.Renewals

namespace CodeZard.Rollovers

open Amounts Products Ledgers Periods Invoices Storage Programs Ports Interleaving Histories Requests

/-- A world, and what has to be remembered of its past to say when the period
of a grant ends. -/
structure Annals where
  world : World := {}
  /-- What the contract said in this call. -/
  report : Option OnChainSubscription := none
  /-- The invoice granted in this call, while its row is still to come. -/
  awaiting : Option String := none
  /-- The on-chain period that the row in place was copied from. -/
  mirrors : Option Reference := none
  /-- The end of each on-chain period, as last reported. -/
  reported : Reference → Option Datetime := fun _ => none
  /-- The end of the row that came with each invoice. -/
  delivered : String → Option Datetime := fun _ => none

namespace Annals

abbrev ledger (n : Annals) : List LedgerEntry := n.world.store.ledger

/-- A call begins. -/
def enter (n : Annals) : Annals := { n with report := none, awaiting := none }

def till (n : Annals) (t : Datetime) : Annals := { n with world := { n.world with clock := t } }

def copied (n : Annals) (s : Subscription) : Option Reference :=
  n.report.bind fun o =>
    if s.status = .active ∧ s.planId = o.plan ∧ s.startedAt = o.started ∧ s.renewsAt = o.expires then
      some o.reference
    else none

def note (n : Annals) : Call → Reply → Annals
  | .onChain _, .onChain (some o) =>
      { n with report := some o, reported := Function.update n.reported o.reference (some o.expires) }
  | .append e, .done => match e.kind, e.reference with
    | .grant, .invoice id => { n with awaiting := some id }
    | _, _ => n
  | .putSubscription s, .done => { n with
      mirrors := n.copied s
      awaiting := none
      delivered := n.awaiting.elim n.delivered fun id => Function.update n.delivered id (some s.renewsAt) }
  | _, _ => n

def step : Step Call Call.Answer Error Annals Reply :=
  fun n c r => (n.world.step c r).map fun s => (s.1, { n.note c r with world := s.2 })

def ends (n : Annals) (e : LedgerEntry) : Option Datetime :=
  match e.reference with
  | .grant _ renewsAt => some renewsAt
  | .chain planId started => n.reported (.chain planId started)
  | .invoice id => n.delivered id
  | _ => none

def unended (n : Annals) (now : Datetime) (e : LedgerEntry) : Bool :=
  e.kind = .grant && (n.ends e).all fun t => now < t

end Annals

/-- The requests of one account. -/
def concerns (account : String) : Request → Bool
  | .settlePeriod a => a = account
  | .authorize a _ => a = account
  | .charge a _ _ => a = account
  | .checkout a _ _ => a = account
  | .confirm _ | .reconcile _ => true
  | _ => false

variable (g : Gateway) (account : String)

/-- The contract extends a period and never shortens it. -/
def Extends (n : Annals) : Call → Reply → Prop
  | .onChain _, .onChain (some o) => ∀ t ∈ n.reported o.reference, t ≤ o.expires
  | _, _ => True

/-- Another period begins, on chain or by invoice, only when nothing granted is
left, and tokens are bought only when none are owed. -/
def Orderly (n : Annals) : Call → Reply → Prop
  | .onChain _, .onChain (some o) => Renewals.live g o n.world.clock = true → n.mirrors ≠ some o.reference →
      (balanceOf account (n.world.store.allEntries account)).granted = 0
  | .append e, .done => match e.kind, e.reference with
    | .grant, .invoice _ => (balanceOf account (n.world.store.allEntries account)).granted = 0
    | .purchase, _ => 0 ≤ (Pools.after (n.world.store.allEntries account)).purchased
    | _, _ => True
  | _, _ => True

instance (n : Annals) (c : Call) (r : Reply) : Decidable (Extends n c r) := by
  rcases c <;> rcases r with _ | _ | _ | _ | _ | _ | _ | (_ | _) <;> dsimp only [Extends] <;> infer_instance

instance (n : Annals) (c : Call) (r : Reply) : Decidable (Orderly g account n c r) := by
  rcases c with _ | _ | _ | ⟨id, owner, kind, tokens, createdAt, amount, reference, memo⟩ <;>
    rcases r with _ | _ | _ | _ | _ | _ | _ | (_ | _) <;> dsimp only [Orderly] <;> try infer_instance
  rcases kind <;> rcases reference <;> dsimp only <;> infer_instance

/-- The steps of a history that is told in order. -/
def steps : Step Call Call.Answer Error Annals Reply :=
  restrict (fun n c r => Extends n c r ∧ Orderly g account n c r) Annals.step

def orphan (n : Annals) (e : LedgerEntry) : Bool :=
  e.kind = .grant && match e.reference with
    | .invoice id => n.delivered id = none
    | _ => false

def belongs (n : Annals) (s : Subscription) (e : LedgerEntry) : Bool :=
  e.kind = .grant && match e.reference with
    | .grant _ renewsAt => n.mirrors = none && renewsAt = s.renewsAt
    | .chain planId started => n.mirrors = some (.chain planId started)
    | .invoice id => n.mirrors = none && n.delivered id = some s.renewsAt
    | _ => false

/-- The row runs, and has not been settled. -/
def opens (n : Annals) (s : Subscription) : Bool :=
  s.status = .active && (n.world.store.recorded s.expiryReference).isNone

def backs (n : Annals) (e : LedgerEntry) : Bool :=
  orphan n e || (n.world.store.subscription account).any fun s => opens n s && belongs n s e

/-- What is shown is no more than the grants that are not over. -/
structure Inv (n : Annals) : Prop where
  own : ∀ e ∈ n.ledger, e.account = account
  invoices : ∀ id i, n.world.store.invoice id = some i → i.account = account
  credits : ∀ e ∈ n.ledger, e.kind = .grant → 0 ≤ e.tokens
  expiries : ∀ e ∈ n.ledger, ∀ planId t, e.reference = .expiry planId t → t ≤ n.world.clock
  mirrored : ∀ s r, n.world.store.subscription account = some s → s.status = .active → n.mirrors = some r →
    ∃ t, n.reported r = some t ∧ s.renewsAt ≤ t
  reporting : ∀ o, n.report = some o → n.reported o.reference = some o.expires
  begun : ∀ id, n.delivered id ≠ none → ∃ e ∈ n.ledger, e.reference = .invoice id
  backed : shown n.ledger ≤ tokensOf (n.ledger.filter (backs account n))

def Spent (n : Annals) : Prop := shown n.ledger ≤ tokensOf (n.ledger.filter (orphan n))

variable {g account} {n n' : Annals} {c : Call} {r : Reply} {a : Except Error c.Answer}

theorem steps_cases (h : steps g account n c r = some (a, n')) :
    Extends n c r ∧ Orderly g account n c r ∧
      ∃ w', n.world.step c r = some (a, w') ∧ n' = { n.note c r with world := w' } := by
  obtain ⟨⟨he, ho⟩, hs⟩ := restrict_eq_some.1 h
  obtain ⟨⟨a', w'⟩, hw, heq⟩ := Option.map_eq_some_iff.1 hs
  cases heq
  exact ⟨he, ho, w', hw, rfl⟩

theorem tokensOf_filter_mono {p q : LedgerEntry → Bool} {L : List LedgerEntry}
    (h₀ : ∀ e ∈ L, q e = true → 0 ≤ e.tokens) (h : ∀ e ∈ L, p e = true → q e = true) :
    tokensOf (L.filter p) ≤ tokensOf (L.filter q) := by
  induction L with
  | nil => exact le_rfl
  | cons x xs ih =>
      have hxs := ih (fun e he => h₀ e (List.mem_cons_of_mem _ he)) fun e he => h e (List.mem_cons_of_mem _ he)
      have hx := h x List.mem_cons_self
      have h0 := h₀ x List.mem_cons_self
      cases hp : p x <;> cases hq : q x <;> simp_all
      omega

theorem grant_of_backs {e : LedgerEntry} (h : backs account n e = true) : e.kind = .grant := by
  simp only [backs, Bool.or_eq_true, Option.any_eq_true, Bool.and_eq_true, orphan, belongs, decide_eq_true_eq] at h
  obtain h | ⟨s, _, _, h⟩ := h <;> exact h.1

theorem tokensOf_nonneg {p : LedgerEntry → Bool} {L : List LedgerEntry} (h : ∀ e ∈ L, p e = true → 0 ≤ e.tokens) :
    0 ≤ tokensOf (L.filter p) := by
  have := tokensOf_filter_mono (p := fun _ => false) h (by simp)
  simpa using this

namespace Inv

theorem entries (h : Inv account n) : n.world.store.allEntries account = n.ledger :=
  List.filter_eq_self.2 fun e he => by simpa using h.own e he

theorem shown_nonpos (h : Inv account n)
    (hg : (balanceOf account (n.world.store.allEntries account)).granted = 0) : shown n.ledger ≤ 0 := by
  rw [h.entries, granted_eq_shown] at hg
  omega

theorem orphans_nonneg (h : Inv account n) : 0 ≤ tokensOf (n.ledger.filter (orphan n)) := by
  refine tokensOf_nonneg fun e he ho => h.credits e he ?_
  simp only [orphan, Bool.and_eq_true, decide_eq_true_eq] at ho
  exact ho.1

theorem spent_of_granted (h : Inv account n)
    (hg : (balanceOf account (n.world.store.allEntries account)).granted = 0) : Spent n :=
  le_trans (h.shown_nonpos hg) h.orphans_nonneg

theorem same (h : Inv account n) (hl : n'.ledger = n.ledger)
    (hs : n'.world.store.subscription account = n.world.store.subscription account)
    (hi : ∀ id i, n'.world.store.invoice id = some i → i.account = account)
    (hc : n.world.clock ≤ n'.world.clock) (hm : n'.mirrors = n.mirrors) (hr : n'.reported = n.reported)
    (hd : n'.delivered = n.delivered) (hp : ∀ o, n'.report = some o → n.report = some o) : Inv account n' where
  own := hl ▸ h.own
  invoices := hi
  credits := hl ▸ h.credits
  expiries := by
    rw [hl]
    exact fun e he p t ht => le_trans (h.expiries e he p t ht) hc
  mirrored := by
    rw [hs, hm, hr]
    exact h.mirrored
  reporting := by
    rw [hr]
    exact fun o ho => h.reporting o (hp o ho)
  begun := by
    rw [hl, hd]
    exact h.begun
  backed := by
    have hb : backs account n' = backs account n := by
      funext e
      simp [backs, orphan, belongs, opens, Store.recorded, hl, hs, hm, hd]
    rw [hl, hb]
    exact h.backed

theorem enter (h : Inv account n) : Inv account n.enter :=
  h.same rfl rfl h.invoices le_rfl rfl rfl rfl (by simp [Annals.enter])

theorem tick (h : Inv account n) {t : Datetime} (ht : n.world.clock ≤ t) :
    Inv account (n.till t) :=
  h.same rfl rfl h.invoices ht rfl rfl rfl fun _ ho => ho

end Inv

theorem reads_step (hr : c.reads = true) (ho : ∀ a, c ≠ .onChain a) (h : steps g account n c r = some (a, n')) :
    ∃ t, n.world.clock ≤ t ∧ n' = n.till t := by
  obtain ⟨_, _, w', hs, rfl⟩ := steps_cases h
  have hn : n.note c r = n := by cases c <;> simp_all [Annals.note, Call.reads]
  refine ⟨w'.clock, clock_step hs, ?_⟩
  have hst := step_reads hs hr
  cases w'
  simp_all [Annals.till]

theorem append_step {e : LedgerEntry} {a : Except Error LedgerEntry}
    (h : steps g account n (.append e) r = some (a, n')) :
    Orderly g account n (.append e) r ∧
      ((∃ x, r = .raised x ∧ a = .error x ∧ n' = n) ∨
        (r = .done ∧ (∃ x ∈ n.ledger, x.reference = e.reference ∧ a = .ok x) ∧ n' = n.note (.append e) .done) ∨
        (r = .done ∧ a = .error .integrity ∧ n' = n.note (.append e) .done) ∨
        (r = .done ∧ a = .ok e ∧ n.world.store.recorded e.reference = none ∧
          n' = { n.note (.append e) .done with
            world := { n.world with store := { n.world.store with ledger := n.ledger ++ [e] } } })) := by
  obtain ⟨_, ho, w', hs, rfl⟩ := steps_cases h
  have hw : (n.note (.append e) .done).world = n.world := by
    simp only [Annals.note]
    split <;> rfl
  refine ⟨ho, ?_⟩
  rcases step_append hs with ⟨x, rfl, rfl, rfl⟩ | ⟨rfl, rfl, rfl⟩
  · exact .inl ⟨x, rfl, rfl, rfl⟩
  · rcases n.world.store.append_cases e with ⟨x, hx, hr, ha⟩ | ⟨x, hx, hid, ha⟩ | ⟨_, hn, ha⟩ <;> rw [ha]
    · exact .inr (.inl ⟨rfl, ⟨x, hx, hr, rfl⟩, by simp [← hw]⟩)
    · exact .inr (.inr (.inl ⟨rfl, rfl, by simp [← hw]⟩))
    · exact .inr (.inr (.inr ⟨rfl, rfl, hn, rfl⟩))

def Annals.add (n : Annals) (e : LedgerEntry) : Annals :=
  { n with world := { n.world with store := { n.world.store with ledger := n.ledger ++ [e] } } }

@[simp] theorem orphan_add (e : LedgerEntry) : orphan (n.add e) = orphan n := rfl

theorem recorded_add {e : LedgerEntry} {x : Reference} (he : e.reference ≠ x) :
    (n.add e).world.store.recorded x = n.world.store.recorded x := by
  simp [Annals.add, Store.recorded, List.find?_append, he]

theorem backs_add {e : LedgerEntry} (he : ∀ planId t, e.reference ≠ .expiry planId t) :
    backs account (n.add e) = backs account n := by
  have hopen : opens (n.add e) = opens n := by
    funext s
    rw [opens, recorded_add (x := s.expiryReference) (he _ _), opens]
  funext x
  simp only [backs, hopen]
  rfl

theorem Spent.backed (h : Inv account n) (hs : Spent n) : shown n.ledger ≤ tokensOf (n.ledger.filter (backs account n)) :=
  le_trans hs (tokensOf_filter_mono (fun e he hb => h.credits e he (grant_of_backs hb)) fun e _ ho => by simp [backs, ho])

namespace Inv

theorem add {e : LedgerEntry} (h : Inv account n) (ha : e.account = account) (hg : e.kind = .grant → 0 ≤ e.tokens)
    (hx : ∀ planId t, e.reference = .expiry planId t → t ≤ n.world.clock)
    (hb : shown (n.ledger ++ [e]) ≤ tokensOf ((n.ledger ++ [e]).filter (backs account (n.add e)))) :
    Inv account (n.add e) where
  own := by
    intro x hx
    rcases List.mem_append.1 hx with hx | hx
    · exact h.own x hx
    · obtain rfl := List.mem_singleton.1 hx
      exact ha
  invoices := h.invoices
  credits := by
    intro x hx hk
    rcases List.mem_append.1 hx with hx | hx
    · exact h.credits x hx hk
    · obtain rfl := List.mem_singleton.1 hx
      exact hg hk
  expiries := by
    intro y hy p t hr
    rcases List.mem_append.1 hy with hy | hy
    · exact h.expiries y hy p t hr
    · obtain rfl := List.mem_singleton.1 hy
      exact hx p t hr
  mirrored := h.mirrored
  reporting := h.reporting
  begun := fun id hid => (h.begun id hid).imp fun x hx => ⟨List.mem_append_left _ hx.1, hx.2⟩
  backed := hb

theorem sum_nonneg (h : Inv account n) : 0 ≤ tokensOf (n.ledger.filter (backs account n)) :=
  tokensOf_nonneg fun e he hb => h.credits e he (grant_of_backs hb)

theorem add_grant {e : LedgerEntry} (h : Inv account n) (ha : e.account = account) (hk : e.kind = .grant)
    (ht : 0 ≤ e.tokens) (he : ∀ planId t, e.reference ≠ .expiry planId t) (hb : backs account n e = true) :
    Inv account (n.add e) := by
  refine h.add ha (fun _ => ht) (fun p t hr => absurd hr (he p t)) ?_
  have := h.backed
  rw [backs_add he, List.filter_append, tokensOf_append, shown_grant hk]
  simp [hb]
  omega

theorem add_other {e : LedgerEntry} (h : Inv account n) (ha : e.account = account) (hk : e.kind ≠ .grant)
    (he : ∀ planId t, e.reference ≠ .expiry planId t) (hs : shown (n.ledger ++ [e]) ≤ max 0 (shown n.ledger)) :
    Inv account (n.add e) := by
  refine h.add ha (fun hg => absurd hg hk) (fun p t hr => absurd hr (he p t)) ?_
  have hb : backs account n e = false := by
    by_contra hb
    exact hk (grant_of_backs (by simpa using hb))
  have h₁ := h.backed
  have h₂ := h.sum_nonneg
  rw [backs_add he, List.filter_append, tokensOf_append]
  simp [hb]
  omega

theorem add_expiry {e : LedgerEntry} (h : Inv account n) (ha : e.account = account) (hk : e.kind = .expiry)
    (hx : ∀ planId t, e.reference = .expiry planId t → t ≤ n.world.clock)
    (hs : shown (n.ledger ++ [e]) ≤ 0) : Inv account (n.add e) ∧ Spent (n.add e) := by
  have ho : tokensOf ((n.ledger ++ [e]).filter (orphan (n.add e))) = tokensOf (n.ledger.filter (orphan n)) := by
    rw [orphan_add, List.filter_append, tokensOf_append]
    simp [orphan, hk]
  have hspent : Spent (n.add e) := by
    have := h.orphans_nonneg
    show shown (n.ledger ++ [e]) ≤ tokensOf ((n.ledger ++ [e]).filter (orphan (n.add e)))
    omega
  refine ⟨h.add ha (by simp [hk]) hx ?_, hspent⟩
  refine le_trans hs (tokensOf_nonneg fun x hx' hb => ?_)
  have hkx := grant_of_backs hb
  rcases List.mem_append.1 hx' with hx' | hx'
  · exact h.credits x hx' hkx
  · obtain rfl := List.mem_singleton.1 hx'
    rw [hk] at hkx
    cases hkx

theorem unrecorded (h : Inv account n) {s : Subscription} (hc : n.world.clock < s.renewsAt) :
    n.world.store.recorded s.expiryReference = none := by
  cases hr : n.world.store.recorded s.expiryReference with
  | none => rfl
  | some x =>
      obtain ⟨hx, he⟩ := Store.recorded_some hr
      exact absurd (h.expiries x hx _ _ he) (not_le.2 hc)

end Inv

def Annals.put (n : Annals) (s : Subscription) : Annals :=
  { n.note (.putSubscription s) .done with world := { n.world with store := n.world.store.putSubscription s } }

theorem put_step {s : Subscription} {a : Except Error Subscription}
    (h : steps g account n (.putSubscription s) r = some (a, n')) :
    (∃ x, a = .error x ∧ n' = n) ∨ (a = .ok s ∧ n' = n.put s) := by
  obtain ⟨_, _, w', hs, rfl⟩ := steps_cases h
  rcases step_putSubscription hs with ⟨x, rfl, rfl, rfl⟩ | ⟨rfl, rfl, rfl⟩
  · exact .inl ⟨x, rfl, rfl⟩
  · exact .inr ⟨rfl, rfl⟩

section Rows

variable {s : Subscription}

theorem row_put (hs : s.account = account) : (n.put s).world.store.subscription account = some s := by
  rw [← hs]
  exact n.world.store.subscription_put s

theorem opens_put (h : Inv account n) (hs : s.status = .active) (hc : n.world.clock < s.renewsAt) :
    opens (n.put s) s = true := by
  have hr : (n.put s).world.store.recorded s.expiryReference = none := h.unrecorded hc
  simp [opens, hs, hr]

theorem copied_some {x : Reference} (h : n.copied s = some x) :
    ∃ o, n.report = some o ∧ x = o.reference ∧ s.planId = o.plan ∧ s.renewsAt = o.expires := by
  obtain ⟨o, ho, hx⟩ := Option.bind_eq_some_iff.1 h
  split at hx
  · rename_i hc
    cases hx
    exact ⟨o, ho, rfl, hc.2.1, hc.2.2.2⟩
  · cases hx

theorem delivered_put (id : String) :
    (n.put s).delivered id = if n.awaiting = some id then some s.renewsAt else n.delivered id := by
  cases hn : n.awaiting with
  | none => simp [Annals.put, Annals.note, hn]
  | some j => by_cases hj : j = id <;> simp [Annals.put, Annals.note, hn, hj, Function.update_of_ne, Ne.symm]

theorem Inv.put (h : Inv account n) (hs : s.account = account)
    (hw : ∀ id, n.awaiting = some id → ∃ e ∈ n.ledger, e.reference = .invoice id)
    (hb : shown n.ledger ≤ tokensOf (n.ledger.filter (backs account (n.put s)))) : Inv account (n.put s) where
  own := h.own
  invoices := h.invoices
  credits := h.credits
  expiries := h.expiries
  mirrored := by
    intro s' x hrow _ hm
    rw [row_put hs] at hrow
    cases hrow
    obtain ⟨o, ho, rfl, _, he⟩ := copied_some hm
    exact ⟨o.expires, h.reporting o ho, he.le⟩
  reporting := h.reporting
  begun := by
    intro id hid
    by_cases ha : n.awaiting = some id
    · exact hw id ha
    · rw [delivered_put, if_neg ha] at hid
      exact h.begun id hid
  backed := hb

theorem Inv.put_spent (h : Inv account n) (hsp : Spent n) (hs : s.account = account)
    (hw : ∀ id, n.awaiting = some id → (∃ e ∈ n.ledger, e.reference = .invoice id) ∧ n.report = none ∧
      s.status = .active ∧ n.world.clock < s.renewsAt) : Inv account (n.put s) := by
  refine h.put hs (fun id ha => (hw id ha).1) (le_trans hsp (tokensOf_filter_mono (fun e he hb =>
    h.credits e he (grant_of_backs hb)) fun e he ho => ?_))
  simp only [orphan, Bool.and_eq_true, decide_eq_true_eq] at ho
  obtain ⟨hk, ho⟩ := ho
  split at ho
  · rename_i id hid
    have ho := of_decide_eq_true ho
    by_cases ha : n.awaiting = some id
    · obtain ⟨_, hrep, hact, hc⟩ := hw id ha
      have hm : (n.put s).mirrors = none := by simp [Annals.put, Annals.note, Annals.copied, hrep]
      simp [backs, row_put hs, opens_put h hact hc, belongs, hk, hid, hm, delivered_put, ha]
    · simp [backs, orphan, hk, hid, delivered_put, ha, ho]
  · cases ho

theorem Inv.put_extended (h : Inv account n) {x : Reference} (hs : s.account = account) (hact : s.status = .active)
    (hc : n.world.clock < s.renewsAt) (ha : n.awaiting = none) (hm : n.mirrors = some x) (hx : n.copied s = some x) :
    Inv account (n.put s) := by
  refine h.put hs (by simp [ha]) (le_trans h.backed (tokensOf_filter_mono (fun e he hb =>
    h.credits e he (grant_of_backs hb)) fun e he hb => ?_))
  have hk := grant_of_backs hb
  have hmp : (n.put s).mirrors = some x := hx
  have hd : (n.put s).delivered = n.delivered := by
    funext id
    simp [delivered_put, ha]
  simp only [backs, Bool.or_eq_true, row_put hs, Option.any_some, opens_put h hact hc, Bool.true_and]
  simp only [backs, Bool.or_eq_true, Option.any_eq_true, Bool.and_eq_true] at hb
  refine hb.imp (fun ho => ?_) fun ⟨s₀, _, _, hb⟩ => ?_
  · simpa [orphan, hd] using ho
  · simp only [belongs, hk, decide_true, Bool.true_and, hm] at hb
    simp only [belongs, hk, decide_true, Bool.true_and, hmp]
    split at hb <;> simp_all

/-- The row in place, and the reference of the grant that goes with it. -/
structure Ready (account : String) (n : Annals) (s : Subscription) (x : Reference) : Prop where
  row : n.world.store.subscription account = some s
  opened : opens n s = true
  belonging : ∀ e : LedgerEntry, e.kind = .grant → e.reference = x → belongs n s e = true

theorem Ready.backs {x : Reference} {e : LedgerEntry} (h : Ready account n s x) (hk : e.kind = .grant)
    (hx : e.reference = x) : backs account n e = true := by
  simp [Rollovers.backs, h.row, h.opened, h.belonging e hk hx]

theorem Ready.tick {x : Reference} (h : Ready account n s x) (t : Datetime) :
    Ready account (n.till t) s x :=
  ⟨h.row, h.opened, h.belonging⟩

end Rows

section Programs

variable {α : Type} {s : Subscription} {now : Datetime}

theorem always_read {post : Except Error α → Annals → Prop} {f : c.Answer → Billing α} (hr : c.reads = true)
    (ho : ∀ a, c ≠ .onChain a)
    (hf : ∀ t r a, n.world.clock ≤ t → n.world.step c r = some (a, (n.till t).world) → match a with
      | .ok v => Always (steps g account) post (f v) (n.till t)
      | .error e => post (.error e) (n.till t)) :
    Always (steps g account) post ((ask c).bind f) n := by
  refine always_bind.2 (always_perform.2 fun r a n' hs => ?_)
  obtain ⟨t, ht, rfl⟩ := reads_step hr ho hs
  obtain ⟨_, _, w', hw, heq⟩ := steps_cases hs
  obtain rfl : (n.till t).world = w' := congrArg Annals.world heq
  have h := hf t r a ht hw
  cases a <;> exact h

theorem always_credit_row {x : Reference} (h : Inv account n) (hr : Ready account n s x)
    (he : ∀ planId t, x ≠ .expiry planId t) (hi : ∀ id, x ≠ .invoice id) (tokens : Int) (amount : Money)
    (memo : String) :
    Always (steps g account) (fun _ n' => Inv account n' ∧ n'.world.store.subscription account = some s)
      (BillingService.credit account tokens .grant x amount memo) n := by
  unfold BillingService.credit
  split
  · exact ⟨h, hr.row⟩
  refine always_read rfl (by simp) fun t r a ht hs => ?_
  obtain ⟨_, id, rfl⟩ := step_entryId hs
  refine always_read rfl (by simp) fun t' r a ht' hs => ?_
  obtain ⟨now, _, _, rfl, hclock⟩ := step_now hs
  refine always_perform.2 fun r a n' hs => ?_
  have hn (m : Annals) (e : LedgerEntry) (hx : e.reference = x) : m.note (.append e) .done = m := by
    simp only [Annals.note]
    split
    · rename_i hid
      exact absurd (hx.symm.trans hid) (hi _)
    · rfl
  obtain ⟨_, ⟨y, _, _, rfl⟩ | ⟨_, _, rfl⟩ | ⟨_, _, rfl⟩ | ⟨_, _, _, rfl⟩⟩ := append_step hs
  · exact ⟨(h.tick ht).tick ht', hr.row⟩
  · rw [hn _ _ rfl]
    exact ⟨(h.tick ht).tick ht', hr.row⟩
  · rw [hn _ _ rfl]
    exact ⟨(h.tick ht).tick ht', hr.row⟩
  · rw [hn _ _ rfl]
    exact ⟨((h.tick ht).tick ht').add_grant rfl rfl (by simpa using ‹¬tokens < 0›) (fun p t => he p t)
      (((hr.tick t).tick t').backs rfl rfl), hr.row⟩

def Quiet (g : Gateway) (n : Annals) : Prop := ∀ o, n.report = some o → Renewals.live g o n.world.clock = false

theorem always_renew (h : Inv account n) (hsp : Spent n) (ha : n.awaiting = none) (hq : Quiet g n)
    (hs : s.account = account) (hact : s.status = .active) (hc : n.world.clock < s.renewsAt) {plan p : Plan}
    (hp : g.catalog.plan s.planId = .ok p) :
    Always (steps g account)
      (fun r n' => Inv account n' ∧ ∀ x, r = .ok x → n'.world.store.subscription account = some s)
      ((store.putSubscription s).bind fun s => (BillingService.grant account plan s).bind fun _ => .ret (some s))
      n := by
  refine always_bind.2 (always_perform.2 fun r a n' hstep => ?_)
  rcases put_step hstep with ⟨x, rfl, rfl⟩ | ⟨rfl, rfl⟩
  · exact ⟨h, by simp⟩
  have hm : (n.put s).mirrors = none := by
    cases hx : n.copied s with
    | none => exact hx
    | some x =>
        obtain ⟨o, ho, _, hpl, hex⟩ := copied_some hx
        have hlive := hq o ho
        rw [Renewals.live, ← hpl, hp, OnChainSubscription.active, ← hex, decide_eq_true hc] at hlive
        cases hlive
  have hput := h.put_spent hsp hs (by simp [ha])
  have hready : Ready account (n.put s) s s.grantReference := by
    refine ⟨row_put hs, opens_put h hact hc, fun e hk hx => ?_⟩
    simp [belongs, hk, hx, Subscription.grantReference, hm]
  refine always_bind.2 ((always_credit_row hput hready (by simp [Subscription.grantReference])
    (by simp [Subscription.grantReference]) _ _ _).mono fun r n' hn => ?_)
  cases r with
  | error e => exact ⟨hn.1, by simp⟩
  | ok x => exact ⟨hn.1, fun _ _ => hn.2⟩

theorem spent_of_settled (h : Inv account n) (hrow : n.world.store.subscription account = some s)
    (hr : (n.world.store.recorded s.expiryReference).isSome) : Spent n := by
  have hb : backs account n = orphan n := by
    funext e
    cases hx : n.world.store.recorded s.expiryReference with
    | none => simp [hx] at hr
    | some x => simp [backs, hrow, opens, hx]
  have := h.backed
  rwa [hb] at this

theorem always_expireGrant (h : Inv account n) (hrow : n.world.store.subscription account = some s)
    (hd : s.renewsAt ≤ n.world.clock) :
    Always (steps g account) (fun r n' => Inv account n' ∧ n'.world.store.subscription account = some s ∧
        n'.world.clock = n.world.clock ∧ n'.report = n.report ∧ n'.awaiting = n.awaiting ∧
        ∀ x, r = .ok x → Spent n')
      (BillingService.expireGrant account s now) n := by
  refine always_bind.2 (always_read rfl (by simp) fun t r a ht hs => ?_)
  obtain ⟨hw, rfl | ⟨x, _, rfl⟩⟩ := step_allEntries hs
  swap
  · exact ⟨h.tick ht, hrow, congrArg World.clock hw, rfl, rfl, by simp⟩
  simp only [pure_eq, Always]
  split
  · refine ⟨h.tick ht, hrow, congrArg World.clock hw, rfl, rfl, fun _ _ => (h.tick ht).spent_of_granted ?_⟩
    exact le_antisymm ‹_› (granted_nonneg _ _)
  rename_i hle
  have hpos := not_le.1 hle
  obtain rfl : t = n.world.clock := congrArg World.clock hw
  refine always_read rfl (by simp) fun t r a ht' hs => ?_
  obtain ⟨hw', id, rfl⟩ := step_entryId hs
  obtain rfl : t = n.world.clock := congrArg World.clock hw'
  refine always_bind.2 (always_perform.2 fun r a n' hs => ?_)
  obtain ⟨_, ⟨y, _, rfl, rfl⟩ | ⟨_, ⟨y, hy, hr, rfl⟩, rfl⟩ | ⟨_, rfl, rfl⟩ | ⟨_, rfl, _, rfl⟩⟩ := append_step hs
  · exact ⟨h.tick ht, hrow, rfl, rfl, rfl, by simp⟩
  · refine ⟨h.tick ht, hrow, rfl, rfl, rfl, fun _ _ => spent_of_settled (h.tick ht) hrow ?_⟩
    by_contra hn
    exact Store.recorded_none (Option.not_isSome_iff_eq_none.1 hn) (by simp [Subscription.expiryReference]) y hy hr
  · exact ⟨h.tick ht, hrow, rfl, rfl, rfl, by simp⟩
  · rw [h.entries] at hpos
    have hsh := shown_expiry account (L := n.ledger) (e := ⟨id, account, .expiry,
      -(balanceOf account (n.world.store.allEntries account)).granted, now, {}, s.expiryReference,
      "the period ended and its tokens did not roll over"⟩) rfl (by rw [h.entries]) hpos
    have hadd := (h.tick ht).add_expiry rfl rfl (fun p t hx => by
      cases hx
      exact hd) hsh.le
    exact ⟨hadd.1, hrow, rfl, rfl, rfl, fun _ _ => hadd.2⟩

/-- The row in place, if it has not been settled, runs at `now`. -/
def Running (account : String) (now : Datetime) (n : Annals) : Prop :=
  ∀ s, n.world.store.subscription account = some s → opens n s = true → now < s.renewsAt

theorem always_settleDue (h : Inv account n) (ha : n.awaiting = none) (hq : Quiet g n)
    (hrow : n.world.store.subscription account = some s) (hd : s.renewsAt ≤ n.world.clock) :
    Always (steps g account) (fun r n' => Inv account n' ∧ ∀ x, r = .ok x → Running account n.world.clock n')
      (BillingService.expireGrant account s n.world.clock >>= fun _ => match g.catalog.plan s.planId with
        | .ok plan =>
            if plan.isFree then do
              let renewed ← store.putSubscription (s.renewed plan n.world.clock)
              let _ ← BillingService.grant account plan renewed
              return some renewed
            else some <$> store.putSubscription s.ended
        | .error _ => some <$> store.putSubscription s.ended) n := by
  have hacc : s.account = account := Store.subscription_account hrow
  refine always_bind.2 ((always_expireGrant h hrow hd).mono fun r n' hn => ?_)
  obtain ⟨hinv, hrow', hclock, hrep, haw, hsp⟩ := hn
  cases r with
  | error e => exact ⟨hinv, by simp⟩
  | ok _ =>
      have hsp := hsp () rfl
      have hended : Always (steps g account)
          (fun r n' => Inv account n' ∧ ∀ x, r = .ok x → Running account n.world.clock n')
          (some <$> store.putSubscription s.ended) n' := by
        refine always_bind.2 (always_perform.2 fun r a n'' hstep => ?_)
        rcases put_step hstep with ⟨x, rfl, rfl⟩ | ⟨rfl, rfl⟩
        · exact ⟨hinv, by simp⟩
        · refine ⟨hinv.put_spent hsp hacc (by simp [haw, ha]), fun _ _ s' hs' ho => ?_⟩
          rw [row_put (s := s.ended) hacc] at hs'
          cases hs'
          simp [opens, Subscription.ended] at ho
      cases hp : g.catalog.plan s.planId with
      | error e => exact hended
      | ok plan =>
          simp only
          split
          · have hlt : n.world.clock < (s.renewed plan n.world.clock).renewsAt :=
              Int.lt_add_of_pos_right _ plan.period_pos
            refine (always_renew (s := s.renewed plan n.world.clock) hinv hsp (by rw [haw, ha])
              (by unfold Quiet; rw [hrep, hclock]; exact hq) hacc rfl (by rw [hclock]; exact hlt) hp).mono
              fun r n'' hn => ⟨hn.1, fun x hx s' hs' _ => ?_⟩
            rw [hn.2 x hx] at hs'
            cases hs'
            exact hlt
          · exact hended

theorem always_settleRow (h : Inv account n) (ha : n.awaiting = none) (hq : Quiet g n) :
    Always (steps g account) (fun r n' => Inv account n' ∧ ∀ x, r = .ok x → Running account n.world.clock n')
      (BillingService.settleRow g account n.world.clock) n := by
  refine always_read rfl (by simp) fun t r a ht hs => ?_
  obtain ⟨hw, rfl | ⟨x, _, rfl⟩⟩ := step_subscription hs
  swap
  · exact ⟨h.tick ht, by simp⟩
  obtain rfl : t = n.world.clock := congrArg World.clock hw
  cases hrow : n.world.store.subscription account with
  | none =>
      simp only [BillingService.beginFree]
      cases hf : g.catalog.freePlan with
      | none => exact ⟨h.tick ht, fun _ _ s hs => absurd (hrow.symm.trans hs) (by simp)⟩
      | some plan =>
          obtain ⟨p, hp, _⟩ := Catalog.find_of_mem (List.mem_of_find?_eq_some hf)
          have hsp : Spent n := by
            have hb : backs account n = orphan n := by
              funext e
              simp [backs, hrow]
            have := h.backed
            rwa [hb] at this
          have hlt : n.world.clock < (Subscription.begin account plan n.world.clock).renewsAt :=
            Int.lt_add_of_pos_right _ plan.period_pos
          refine (always_renew (s := .begin account plan n.world.clock) (h.tick ht) hsp ha hq rfl rfl hlt hp).mono
            fun r n' hn => ⟨hn.1, fun x hx s' hs' _ => ?_⟩
          rw [hn.2 x hx] at hs'
          cases hs'
          exact hlt
  | some s =>
      simp only
      split
      · refine ⟨h.tick ht, fun _ _ s' hs' ho => ?_⟩
        obtain rfl : s = s' := Option.some.inj (hrow.symm.trans hs')
        simp only [opens, Bool.and_eq_true, decide_eq_true_eq] at ho
        simpa [Subscription.due, ho.1] using ‹(!s.due n.world.clock) = true›
      · have hd : s.due n.world.clock = true := by simpa using ‹¬(!s.due n.world.clock) = true›
        exact always_settleDue (h.tick ht) ha hq hrow (Subscription.due_iff.1 hd).2

theorem always_readChain (h : Inv account n) (hrep : n.report = none) :
    Always (steps g account) (fun r n' => Inv account n' ∧ n'.world.clock = n.world.clock ∧
        n'.awaiting = n.awaiting ∧ match r with
          | .ok (some o) => n'.report = some o ∧
              (Renewals.live g o n.world.clock = true → n'.mirrors = some o.reference ∨ Spent n')
          | _ => Quiet g n')
      (BillingService.readChain g account) n := by
  have hquiet : Quiet g n := by simp [Quiet, hrep]
  unfold BillingService.readChain
  split
  swap
  · exact ⟨h, rfl, rfl, hquiet⟩
  refine always_rescue.2 (always_perform.2 fun r a n' hs => ?_)
  obtain ⟨hext, hord, w', hw, rfl⟩ := steps_cases hs
  obtain ⟨rfl, ⟨o, rfl, rfl⟩ | ⟨x, rfl, rfl⟩⟩ := step_onChain hw
  · cases o with
    | none => exact ⟨h, rfl, rfl, hquiet⟩
    | some o =>
        have hinv : Inv account { n with report := some o, reported := Function.update n.reported o.reference (some o.expires) } := by
          refine ⟨h.own, h.invoices, h.credits, h.expiries, fun s x hrow hact hm => ?_, fun o' ho' => ?_, h.begun, h.backed⟩
          · obtain ⟨t, ht, hle⟩ := h.mirrored s x hrow hact hm
            by_cases hx : x = o.reference
            · subst hx
              exact ⟨o.expires, Function.update_self _ _ _, le_trans hle (hext t ht)⟩
            · exact ⟨t, by rw [← ht]; exact Function.update_of_ne hx _ _, hle⟩
          · cases ho'
            exact Function.update_self _ _ _
        refine ⟨hinv, rfl, rfl, rfl, fun hlive => ?_⟩
        by_cases hm : n.mirrors = some o.reference
        · exact .inl hm
        · exact .inr (h.spent_of_granted (hord hlive hm))
  · simp only
    split <;> exact ⟨h, rfl, rfl, hquiet⟩

theorem always_mirror {plan : Plan} {o : OnChainSubscription} (h : Inv account n) (ha : n.awaiting = none)
    (hrep : n.report = some o) (hact : o.active n.world.clock = true) (hp : g.catalog.plan o.plan = .ok plan)
    (hm : n.mirrors = some o.reference ∨ Spent n) :
    Always (steps g account) (fun r n' => Inv account n' ∧ ∀ x, r = .ok x → Running account n.world.clock n')
      (BillingService.mirror account plan o) n := by
  have hlt : n.world.clock < o.expires := of_decide_eq_true hact
  refine always_bind.2 (always_perform.2 fun r a n' hstep => ?_)
  rcases put_step hstep with ⟨x, rfl, rfl⟩ | ⟨rfl, rfl⟩
  · exact ⟨h, by simp⟩
  have hcopied : n.copied ⟨account, plan.id, o.started, o.expires, .active⟩ = some o.reference := by
    simp [Annals.copied, hrep, Catalog.plan_id hp]
  have hput : Inv account (n.put ⟨account, plan.id, o.started, o.expires, .active⟩) := by
    rcases hm with hm | hsp
    · exact h.put_extended rfl rfl hlt ha hm hcopied
    · exact h.put_spent hsp rfl (by simp [ha])
  have hready : Ready account (n.put ⟨account, plan.id, o.started, o.expires, .active⟩)
      ⟨account, plan.id, o.started, o.expires, .active⟩ o.reference := by
    refine ⟨row_put rfl, opens_put h rfl hlt, fun e hk hx => ?_⟩
    have hmp : (n.put ⟨account, plan.id, o.started, o.expires, .active⟩).mirrors = some o.reference := hcopied
    simp [belongs, hk, hx, OnChainSubscription.reference, hmp]
  refine always_bind.2 ((always_credit_row hput hready (by simp [OnChainSubscription.reference])
    (by simp [OnChainSubscription.reference]) _ _ _).mono fun r n' hn => ?_)
  cases r with
  | error e => exact ⟨hn.1, by simp⟩
  | ok x =>
      refine ⟨hn.1, fun _ _ s' hs' _ => ?_⟩
      rw [hn.2] at hs'
      cases hs'
      exact hlt

def Copied (g : Gateway) (account : String) (now : Datetime) (n : Annals) :
    Except Error (Option Subscription) → Prop
  | .ok none => n.world.clock = now ∧ n.awaiting = none ∧ Quiet g n
  | .ok (some _) => Running account now n
  | .error _ => True

theorem always_mirrorChain (h : Inv account n) (ha : n.awaiting = none) (hrep : n.report = none) :
    Always (steps g account) (fun r n' => Inv account n' ∧ Copied g account n.world.clock n' r)
      (BillingService.mirrorChain g account n.world.clock) n := by
  refine always_bind.2 ((always_readChain h hrep).mono fun r n' hn => ?_)
  obtain ⟨hinv, hclock, haw, hr⟩ := hn
  rcases r with e | _ | o
  · exact ⟨hinv, trivial⟩
  · exact ⟨hinv, hclock, haw.trans ha, hr⟩
  · obtain ⟨hro, hlive⟩ := hr
    have hsilent (hd : Renewals.live g o n.world.clock = false) : Quiet g n' := by
      intro o' ho'
      rw [hro] at ho'
      cases ho'
      rw [hclock]
      exact hd
    simp only
    split
    · rename_i hact
      have hact : o.active n.world.clock = false := by simpa using hact
      exact ⟨hinv, hclock, haw.trans ha, hsilent (by rw [Renewals.live, hact]; rfl)⟩
    rename_i hact
    have hact : o.active n.world.clock = true := by simpa using hact
    cases hp : g.catalog.plan o.plan with
    | error e =>
        exact ⟨hinv, hclock, haw.trans ha, hsilent (by rw [Renewals.live, hact, hp]; rfl)⟩
    | ok plan =>
        have hm := hlive (by rw [Renewals.live, hact, hp]; rfl)
        refine always_bind.2 ((always_mirror hinv (haw.trans ha) hro (by rwa [hclock]) hp hm).mono fun r n'' hn => ?_)
        cases r with
        | error e => exact ⟨hn.1, trivial⟩
        | ok x => exact ⟨hn.1, hclock ▸ hn.2 x rfl⟩

theorem always_settleNow (h : Inv account n) (ha : n.awaiting = none) (hrep : n.report = none) :
    Always (steps g account) (fun r n' => Inv account n' ∧ ∀ x, r = .ok x → Running account n.world.clock n')
      (BillingService.mirrorChain g account n.world.clock >>= fun s => match s with
        | some mirrored => return some mirrored
        | none => BillingService.settleRow g account n.world.clock) n := by
  refine always_bind.2 ((always_mirrorChain h ha hrep).mono fun r n' hn => ?_)
  obtain ⟨hinv, hn⟩ := hn
  rcases r with e | _ | s
  · exact ⟨hinv, by simp⟩
  · obtain ⟨hclock, haw, hq⟩ := hn
    have hrow := always_settleRow (g := g) hinv haw hq
    rwa [hclock] at hrow
  · exact ⟨hinv, fun _ _ => hn⟩

theorem always_settlePeriod (h : Inv account n) (ha : n.awaiting = none) (hrep : n.report = none) :
    Always (steps g account) (fun _ n' => Inv account n') (BillingService.settlePeriod g account) n := by
  refine always_read rfl (by simp) fun t r a ht hs => ?_
  obtain ⟨now, _, _, rfl, hclock⟩ := step_now hs
  obtain rfl : t = now := congrArg World.clock hclock
  exact (always_settleNow (h.tick ht) ha hrep).mono fun _ _ hn => hn.1

theorem exec_settlePeriod {rs : List Reply} {x : Option Subscription} (h : Inv account n) (ha : n.awaiting = none)
    (hrep : n.report = none)
    (he : exec (steps g account) (BillingService.settlePeriod g account) n (.time now :: rs) = some (.ok x, n')) :
    Inv account n' ∧ Running account now n' := by
  obtain ⟨⟨a, n₁⟩, hs, hk⟩ := Option.bind_eq_some_iff.1 he
  obtain ⟨_, _, w', hw, heq⟩ := steps_cases hs
  obtain ⟨t, ht, hle, rfl, rfl⟩ := step_now hw
  cases ht
  obtain rfl : n₁ = n.till now := heq
  have hn := (always_settleNow (g := g) (h.tick hle) ha hrep).exec hk
  exact ⟨hn.1, hn.2 x rfl⟩

/-- What is kept by the requests that do not ask the contract. -/
def Kept (account : String) (n : Annals) : Prop := Inv account n ∧ n.report = none

theorem Kept.till {t : Datetime} (h : Kept account n) (ht : n.world.clock ≤ t) : Kept account (n.till t) :=
  ⟨h.1.tick ht, h.2⟩

theorem always_read_kept {f : c.Answer → Billing α} (h : Kept account n) (hr : c.reads = true)
    (ho : ∀ a, c ≠ .onChain a)
    (hf : ∀ t r v, n.world.clock ≤ t → n.world.step c r = some (.ok v, (n.till t).world) →
      Kept account (n.till t) → Always (steps g account) (fun _ n' => Kept account n') (f v) (n.till t)) :
    Always (steps g account) (fun _ n' => Kept account n') ((ask c).bind f) n := by
  refine always_read hr ho fun t r a ht hs => ?_
  cases a with
  | error e => exact h.till ht
  | ok v => exact hf t r v ht hs (h.till ht)

theorem always_putInvoice {i : Invoice} (h : Kept account n) (hi : i.account = account) :
    Always (steps g account) (fun r n' => Kept account n' ∧ ∀ j, r = .ok j → j = i) (store.putInvoice i) n := by
  refine always_perform.2 fun r a n' hs => ?_
  obtain ⟨_, _, w', hw, rfl⟩ := steps_cases hs
  rcases step_putInvoice hw with ⟨x, rfl, rfl, rfl⟩ | ⟨rfl, rfl, rfl⟩
  · exact ⟨h, by simp⟩
  refine ⟨⟨h.1.same rfl rfl (fun id j hj => ?_) le_rfl rfl rfl rfl fun _ ho => ho, h.2⟩, by simp⟩
  by_cases hid : i.id = id
  · subst hid
    change (n.world.store.putInvoice i).invoice i.id = some j at hj
    rw [Store.invoice_putInvoice_self] at hj
    cases ho : n.world.store.invoice i.id with
    | none => rw [ho] at hj; cases hj; exact hi
    | some k => rw [ho] at hj; cases hj; exact h.1.invoices i.id k ho
  · change (n.world.store.putInvoice i).invoice id = some j at hj
    rw [Store.invoice_putInvoice_of_ne hid] at hj
    exact h.1.invoices id j hj

theorem note_append {e : LedgerEntry} (hk : e.kind ≠ .grant) : n.note (.append e) .done = n := by
  simp only [Annals.note]
  split
  · exact absurd ‹e.kind = .grant› hk
  · rfl

theorem always_append_other {e : LedgerEntry} (h : Kept account n) (ha : e.account = account) (hk : e.kind ≠ .grant)
    (he : ∀ planId t, e.reference ≠ .expiry planId t)
    (hs : Orderly g account n (.append e) .done → shown (n.ledger ++ [e]) ≤ max 0 (shown n.ledger)) :
    Always (steps g account) (fun _ n' => Kept account n') (store.append e) n := by
  refine always_perform.2 fun r a n' hstep => ?_
  obtain ⟨hord, ⟨y, _, _, rfl⟩ | ⟨_, _, rfl⟩ | ⟨_, _, rfl⟩ | ⟨rfl, _, _, rfl⟩⟩ := append_step hstep
  · exact h
  · rwa [note_append hk]
  · rwa [note_append hk]
  · rw [note_append hk]
    exact ⟨h.1.add_other ha hk he (hs hord), h.2⟩

theorem always_credit_purchase (h : Kept account n) (tokens : Int) (id : String) (amount : Money) (memo : String) :
    Always (steps g account) (fun _ n' => Kept account n')
      (BillingService.credit account tokens .purchase (.invoice id) amount memo) n := by
  unfold BillingService.credit
  split
  · exact h
  refine always_read_kept h rfl (by simp) fun t r v ht _ h => ?_
  refine always_read_kept h rfl (by simp) fun t' r v ht' _ h => ?_
  refine always_append_other h rfl (by simp) (by simp) fun hord => ?_
  have hp : 0 ≤ (Pools.after (n.world.store.allEntries account)).purchased := hord
  rw [show n.world.store.allEntries account = n.ledger from h.1.entries] at hp
  refine le_trans (shown_purchase (L := n.ledger) rfl ?_ hp).le (le_max_right _ _)
  simpa using ‹¬tokens < 0›

theorem always_credit_invoice (h : Kept account n) (tokens : Int) (id : String) (amount : Money) (memo : String) :
    Always (steps g account) (fun r n' => Kept account n' ∧ ∀ x, r = .ok x → Spent n' ∧ n'.awaiting = some id ∧
        ∃ e ∈ n'.ledger, e.reference = .invoice id)
      (BillingService.credit account tokens .grant (.invoice id) amount memo) n := by
  unfold BillingService.credit
  split
  · exact ⟨h, by simp⟩
  refine always_read rfl (by simp) fun t r a ht hs => ?_
  obtain ⟨_, entryId, rfl⟩ := step_entryId hs
  have h := h.till ht
  refine always_read rfl (by simp) fun t' r a ht' hs => ?_
  obtain ⟨now, _, _, rfl, _⟩ := step_now hs
  have h := h.till ht'
  refine always_perform.2 fun r a n' hs => ?_
  have hawait (m : Annals) (hm : Inv account m) : Inv account { m with awaiting := some id } :=
    hm.same rfl rfl hm.invoices le_rfl rfl rfl rfl fun _ ho => ho
  obtain ⟨hord, ⟨y, _, rfl, rfl⟩ | ⟨rfl, ⟨y, hy, hr, rfl⟩, rfl⟩ | ⟨_, rfl, rfl⟩ | ⟨rfl, rfl, hn, rfl⟩⟩ := append_step hs
  · exact ⟨h, by simp⟩
  · refine ⟨⟨hawait _ h.1, h.2⟩, fun _ _ => ⟨?_, rfl, y, hy, hr⟩⟩
    exact h.1.spent_of_granted hord
  · exact ⟨⟨hawait _ h.1, h.2⟩, by simp⟩
  · have hdel : n.delivered id = none := by
      by_contra hd
      obtain ⟨e, he, hr⟩ := h.1.begun id hd
      exact Store.recorded_none hn (by simp) e he hr
    have hadd := h.1.add_grant (e := ⟨entryId, account, .grant, tokens, now, amount, .invoice id, memo⟩) rfl rfl
      (by simpa using ‹¬tokens < 0›) (by simp) (by simp [backs, orphan, Annals.till, hdel])
    refine ⟨⟨hawait _ hadd, h.2⟩, fun _ _ => ⟨?_, rfl, _, List.mem_append_right _ (List.mem_singleton_self _), rfl⟩⟩
    have hsh : shown n.ledger ≤ 0 := h.1.shown_nonpos hord
    have hor := h.1.orphans_nonneg
    change shown (n.ledger ++ [_]) ≤ tokensOf ((n.ledger ++ [_]).filter (orphan n))
    change 0 ≤ tokensOf (n.ledger.filter (orphan n)) at hor
    rw [shown_grant rfl, List.filter_append, tokensOf_append]
    simp [orphan, hdel]
    omega

theorem always_subscribe {id : String} (h : Kept account n) (hsp : Spent n) (haw : n.awaiting = some id)
    (hrec : ∃ e ∈ n.ledger, e.reference = .invoice id) (plan : Plan) :
    Always (steps g account) (fun _ n' => Kept account n') (BillingService.subscribe account plan) n := by
  refine always_read rfl (by simp) fun t r a ht hs => ?_
  obtain ⟨now, _, _, rfl, hclock⟩ := step_now hs
  obtain rfl : t = now := congrArg World.clock hclock
  have h := h.till ht
  refine always_read rfl (by simp) fun t' r a ht' hs => ?_
  obtain ⟨hw, rfl | ⟨x, _, rfl⟩⟩ := step_subscription hs
  swap
  · exact h.till ht'
  obtain rfl : t = t' := (congrArg World.clock hw).symm
  have hput (s : Subscription) (hacc : s.account = account) (hact : s.status = .active)
      (hend : s.renewsAt = t + plan.period) :
      Always (steps g account) (fun _ n' => Kept account n') (store.putSubscription s) ((n.till t).till t) := by
    refine always_perform.2 fun r a n' hstep => ?_
    rcases put_step hstep with ⟨x, rfl, rfl⟩ | ⟨rfl, rfl⟩
    · exact h
    have hlt : t < s.renewsAt := hend ▸ Int.lt_add_of_pos_right _ plan.period_pos
    refine ⟨h.1.put_spent hsp hacc fun j hj => ?_, h.2⟩
    obtain rfl : id = j := Option.some.inj (haw.symm.trans hj)
    exact ⟨hrec, h.2, hact, hlt⟩
  have hbegin := hput (.begin account plan t) rfl rfl rfl
  cases hrow : n.world.store.subscription account with
  | none =>
      simp only [Annals.till, hrow]
      exact hbegin
  | some s =>
      simp only [Annals.till, hrow]
      split
      · exact hput (s.renewed plan t) (Store.subscription_account (r := s) hrow) rfl rfl
      · exact hbegin

theorem always_deliver {i : Invoice} (h : Kept account n) (hi : i.account = account) :
    Always (steps g account) (fun _ n' => Kept account n') (BillingService.deliver g i) n := by
  subst hi
  unfold BillingService.deliver
  cases g.catalog.product i.sku with
  | error e => exact h
  | ok product =>
      simp only [bind_eq, ofExcept_ok, ret_bind]
      cases product with
      | pack p =>
          refine always_bind.2 ((always_credit_purchase h _ _ _ _).mono fun r n' hn => ?_)
          cases r <;> exact hn
      | plan p =>
          refine always_bind.2 ((always_credit_invoice h _ _ _ _).mono fun r n' hn => ?_)
          cases r with
          | error e => exact hn.1
          | ok x =>
              obtain ⟨hsp, haw, hrec⟩ := hn.2 x rfl
              refine always_bind.2 ((always_subscribe hn.1 hsp haw hrec p).mono fun r n' hn => ?_)
              cases r <;> exact hn

theorem always_confirm (h : Kept account n) (id : String) :
    Always (steps g account) (fun _ n' => Kept account n') (BillingService.confirm g id) n := by
  refine always_read_kept h rfl (by simp) fun t r i ht hs h => ?_
  cases i with
  | none => exact h
  | some i =>
      have hi : i.account = account := by
        obtain ⟨_, hi | ⟨x, _, hx⟩⟩ := step_invoice hs
        · exact h.1.invoices id i (Except.ok.inj hi).symm
        · cases hx
      simp only
      split
      · exact h
      refine always_read_kept h rfl (by simp) fun t r p ht _ h => ?_
      cases p with
      | none =>
          refine always_read_kept h rfl (by simp) fun t r now ht _ h => ?_
          split
          · exact h
          · exact (always_putInvoice (i := i.expired) h hi).mono fun _ _ hn => hn.1
      | some p =>
          simp only [bind_eq]
          cases p.settles i with
          | error e => exact h
          | ok settled =>
              simp only [ofExcept_ok, ret_bind]
              split
              · refine always_bind.2 ((always_putInvoice (i := i.paid p.txHash p.payer) h hi).mono fun r n' hn => ?_)
                cases r with
                | error e => exact hn.1
                | ok paid =>
                    obtain rfl := hn.2 paid rfl
                    refine always_bind.2 ((always_deliver (i := i.paid p.txHash p.payer) hn.1 hi).mono fun r n' hn => ?_)
                    cases r <;> exact hn
              · exact h

theorem always_sweep (h : Kept account n) (settled invoices : List Invoice) :
    Always (steps g account) (fun _ n' => Kept account n') (BillingService.sweep g settled invoices) n := by
  induction invoices generalizing n settled with
  | nil => exact h
  | cons i rest ih =>
      refine always_bind.2 (always_rescue.2 (always_bind.2 ((always_confirm h i.id).mono fun r n' hn => ?_)))
      cases r with
      | error e =>
          simp only
          split
          · exact ih hn settled
          · exact hn
      | ok j =>
          change Always (steps g account) (fun _ n' => Kept account n')
            (if j.status = .paid then BillingService.sweep g (settled ++ [j]) rest
              else BillingService.sweep g settled rest) n'
          split
          · exact ih hn _
          · exact ih hn _

theorem always_charge (h : Kept account n) (runId : String) (usage : Usage) :
    Always (steps g account) (fun _ n' => Kept account n') (BillingService.charge g account runId usage) n := by
  unfold BillingService.charge
  cases g.catalog.pricing.billable usage with
  | error e => exact h
  | ok tokens =>
      simp only [bind_eq, ofExcept_ok, ret_bind]
      split
      · exact h
      refine always_read_kept h rfl (by simp) fun t r id ht _ h => ?_
      refine always_read_kept h rfl (by simp) fun t' r now ht' _ h => ?_
      refine always_bind.2 ((always_append_other h rfl (by simp) (by simp) fun _ =>
        shown_usage rfl (by simpa using le_of_not_ge ‹¬tokens ≤ 0›) _).mono fun r n' hn => ?_)
      cases r <;> exact hn

theorem always_checkout (h : Kept account n) (sku asset : String) :
    Always (steps g account) (fun _ n' => Kept account n') (BillingService.checkout g account sku asset) n := by
  have hissue (product : Product) (kind : String) :
      Always (steps g account) (fun _ n' => Kept account n')
        (BillingService.checkout.issue g account asset product kind) n := by
    unfold BillingService.checkout.issue
    split
    · exact h
    refine always_read_kept h rfl (by simp) fun t r now ht _ h => ?_
    refine always_read_kept h rfl (by simp) fun t r id ht _ h => ?_
    refine always_read_kept h rfl (by simp) fun t r amount ht _ h => ?_
    exact (always_putInvoice h rfl).mono fun _ _ hn => hn.1
  unfold BillingService.checkout
  cases g.catalog.product sku with
  | error e => exact h
  | ok product =>
      simp only [bind_eq, ofExcept_ok, ret_bind]
      cases product with
      | pack p => exact hissue _ _
      | plan p =>
          simp only
          split
          · exact h
          split
          · exact h
          · exact hissue _ _

theorem always_authorize (h : Inv account n) (ha : n.awaiting = none) (hrep : n.report = none) (needed : Int) :
    Always (steps g account) (fun _ n' => Inv account n') (BillingService.authorize g account needed) n := by
  refine always_bind.2 ((always_settlePeriod h ha hrep).mono fun r n' hn => ?_)
  cases r with
  | error e => exact hn
  | ok s =>
      refine always_bind.2 (always_read rfl (by simp) fun t r a ht hs => ?_)
      cases a with
      | error e => exact hn.tick ht
      | ok entries =>
          simp only [pure_eq, Always]
          split <;> exact hn.tick ht

theorem always_body {q : Request} (hq : concerns account q = true) (h : Inv account n) :
    Always (steps g account) (fun _ n' => Inv account n') (body g q) n.enter := by
  have hmap {β : Type} {p : Billing β} {f : β → Outcome}
      (hp : Always (steps g account) (fun _ n' => Inv account n') p n.enter) :
      Always (steps g account) (fun _ n' => Inv account n') (f <$> p) n.enter := by
    refine always_bind.2 (hp.mono fun r n' hn => ?_)
    cases r <;> exact hn
  have hkept : Kept account n.enter := ⟨h.enter, rfl⟩
  cases q with
  | settlePeriod a =>
      obtain rfl : a = account := of_decide_eq_true hq
      exact hmap (always_settlePeriod h.enter rfl rfl)
  | authorize a needed =>
      obtain rfl : a = account := of_decide_eq_true hq
      exact hmap (always_authorize h.enter rfl rfl needed)
  | charge a runId usage =>
      obtain rfl : a = account := of_decide_eq_true hq
      exact hmap ((always_charge hkept runId usage).mono fun _ _ hn => hn.1)
  | checkout a sku asset =>
      obtain rfl : a = account := of_decide_eq_true hq
      exact hmap ((always_checkout hkept sku asset).mono fun _ _ hn => hn.1)
  | confirm id => exact hmap ((always_confirm hkept id).mono fun _ _ hn => hn.1)
  | reconcile limit =>
      refine hmap ?_
      have hr := always_read_kept (g := g) (c := .openInvoices limit) (f := BillingService.sweep g []) hkept rfl
        (by simp) fun t r invoices ht _ h => always_sweep h [] invoices
      exact hr.mono fun _ _ hn => hn.1
  | _ => cases hq

end Programs

theorem inv_init (t : Datetime) : Inv account { world := { clock := t } } where
  own := by
    intro e he
    cases he
  invoices := by simp [Store.invoice, Tables.row]
  credits := by
    intro e he
    cases he
  expiries := by
    intro e he
    cases he
  mirrored := by simp
  reporting := by simp
  begun := by simp
  backed := by
    change shown [] ≤ tokensOf []
    decide

/-- The histories of one account, in order, one call at a time. -/
abbrev Told (g : Gateway) (account : String) (t : Datetime) (n : Annals) : Prop :=
  After (body g) (steps g account) Annals.enter (fun q => concerns account q = true) { world := { clock := t } } n

theorem unended_of_backs {now : Datetime} {e : LedgerEntry} (h : Inv account n) (hr : Running account now n)
    (hb : backs account n e = true) : n.unended now e = true := by
  have hk := grant_of_backs hb
  simp only [Annals.unended, hk, decide_true, Bool.true_and]
  simp only [backs, Bool.or_eq_true, orphan, hk, decide_true, Bool.true_and, Option.any_eq_true, Bool.and_eq_true] at hb
  rcases hb with ho | ⟨s, hrow, hopen, hb⟩
  · split at ho
    · rename_i id hid
      simp [Annals.ends, hid, of_decide_eq_true ho]
    · cases ho
  · have hlt := hr s hrow hopen
    have hact : s.status = .active := by
      simp only [opens, Bool.and_eq_true, decide_eq_true_eq] at hopen
      exact hopen.1
    simp only [belongs, hk, decide_true, Bool.true_and] at hb
    split at hb
    · rename_i planId t ht
      simp only [Bool.and_eq_true, decide_eq_true_eq] at hb
      simpa [Annals.ends, ht, hb.2] using hlt
    · rename_i planId t ht
      obtain ⟨t', hrep, hle⟩ := h.mirrored s _ hrow hact (of_decide_eq_true hb)
      simpa [Annals.ends, ht, hrep] using lt_of_lt_of_le hlt hle
    · rename_i id hid
      simp only [Bool.and_eq_true, decide_eq_true_eq] at hb
      simpa [Annals.ends, hid, hb.2] using hlt
    · cases hb

theorem granted_within (g : Gateway) (account : String) (t : Datetime) (n : Annals) (h : Told g account t n)
    (now : Datetime) (rs : List Reply) (s : Option Subscription) (n' : Annals)
    (he : exec (steps g account) (BillingService.settlePeriod g account) n.enter (.time now :: rs) =
      some (.ok s, n')) :
    (balanceOf account (n'.world.store.allEntries account)).granted ≤
      tokensOf ((n'.world.store.allEntries account).filter (n'.unended now)) := by
  have hinv : Inv account n := After.invariant (inv_init t) (fun q u hq hu => always_body hq hu) h
  obtain ⟨h', hr⟩ := exec_settlePeriod hinv.enter rfl rfl he
  have hpos (e : LedgerEntry) (hm : e ∈ n'.ledger) (hu : n'.unended now e = true) : 0 ≤ e.tokens := by
    simp only [Annals.unended, Bool.and_eq_true, decide_eq_true_eq] at hu
    exact h'.credits e hm hu.1
  have hmono := tokensOf_filter_mono hpos fun e _ hb => unended_of_backs h' hr hb
  rw [h'.entries, granted_eq_shown]
  exact max_le (tokensOf_nonneg hpos) (le_trans h'.backed hmono)

def gateway : Gateway := { catalog := defaultCatalog, chainAvailable := true }

def seen : List Reply := [.time 0, .onChain none, .done, .done, .text "e1", .time 0, .done]

def seenAgain : List Reply :=
  [.onChain none, .done, .done, .text "e2", .done, .done, .text "e3", .time WEEK, .done]

theorem granted_within_renewed : ∃ n n' s,
    Told gateway "A" 0 n ∧
    exec (steps gateway "A") (BillingService.settlePeriod gateway "A") n.enter (.time WEEK :: seenAgain) =
      some (.ok s, n') ∧
    n'.ledger.map LedgerEntry.tokens = [833333, -833333, 833333] ∧
    (balanceOf "A" (n'.world.store.allEntries "A")).granted ≤
      tokensOf ((n'.world.store.allEntries "A").filter (n'.unended WEEK)) := by
  have hr : ((exec (steps gateway "A") (body gateway (.settlePeriod "A")) ({} : Annals).enter seen).any fun x =>
      (exec (steps gateway "A") (BillingService.settlePeriod gateway "A") x.2.enter (.time WEEK :: seenAgain)).any
        fun y => y.1.isOk && decide (y.2.ledger.map LedgerEntry.tokens = [833333, -833333, 833333])) = true := by
    decide +kernel
  obtain ⟨⟨o, n⟩, hn, hr⟩ := (Option.any_eq_true _ _).1 hr
  obtain ⟨⟨o', n'⟩, hn', hr⟩ := (Option.any_eq_true _ _).1 hr
  simp only [Bool.and_eq_true, decide_eq_true_eq] at hr
  cases o' with
  | error e => cases hr.1
  | ok s =>
      have ht : Told gateway "A" 0 n := After.init.call (q := .settlePeriod "A") (by decide) hn
      exact ⟨n, n', s, ht, hn', hr.2, granted_within gateway "A" 0 n ht WEEK seenAgain s n' hn'⟩

/-- It is seen again on the eighth day, subscribed on chain since the second. -/
def subscribed : List Reply :=
  [.onChain (some ⟨"starter", DAY, DAY + MONTH, 1⟩), .done, .text "e2", .time (8 * DAY), .done]

/-- The week is over, and its tokens are still there. -/
theorem free_week_rolled_over : ∃ n n' s,
    After (body gateway) (restrict Extends Annals.step) Annals.enter (fun q => concerns "A" q = true) {} n ∧
    exec (restrict Extends Annals.step) (BillingService.settlePeriod gateway "A") n.enter
      (.time (8 * DAY) :: subscribed) = some (.ok s, n') ∧
    (balanceOf "A" (n'.world.store.allEntries "A")).granted = 4833333 ∧
    tokensOf ((n'.world.store.allEntries "A").filter (n'.unended (8 * DAY))) = 4000000 := by
  have hr : ((exec (restrict Extends Annals.step) (body gateway (.settlePeriod "A")) ({} : Annals).enter seen).any
      fun x => (exec (restrict Extends Annals.step) (BillingService.settlePeriod gateway "A") x.2.enter
        (.time (8 * DAY) :: subscribed)).any fun y => y.1.isOk &&
          decide ((balanceOf "A" (y.2.world.store.allEntries "A")).granted = 4833333) &&
          decide (tokensOf ((y.2.world.store.allEntries "A").filter (y.2.unended (8 * DAY))) = 4000000)) = true := by
    decide +kernel
  obtain ⟨⟨o, n⟩, hn, hr⟩ := (Option.any_eq_true _ _).1 hr
  obtain ⟨⟨o', n'⟩, hn', hr⟩ := (Option.any_eq_true _ _).1 hr
  simp only [Bool.and_eq_true, decide_eq_true_eq] at hr
  cases o' with
  | error e => cases hr.1.1
  | ok s => exact ⟨n, n', s, After.init.call (q := .settlePeriod "A") (by decide) hn, hn', hr.1.2, hr.2⟩

end CodeZard.Rollovers
