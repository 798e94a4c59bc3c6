import CodeZard.Renewals

namespace CodeZard.Grants

open Amounts Products Ledgers Periods Invoices Storage Programs Ports Interleaving Requests

def grants (account : String) (e : LedgerEntry) : Bool := e.kind = .grant && e.account = account

def onRecord (s : Store) (account : String) (x : Reference) : Bool := (s.recorded x).any (grants account)

def lands (s : Store) (e : LedgerEntry) (r : Reply) : Bool :=
  match s.recorded e.reference with
  | some x => grants e.account x
  | none => r = .done && s.ledger.all fun x => x.id ≠ e.id

def credited : BillingLog → Option LedgerEntry
  | ⟨.append e, .ok _⟩ :: log => if e.kind = .grant then some e else credited log
  | _ :: log => credited log
  | [] => none

def report (g : Gateway) : BillingLog → Option OnChainSubscription
  | ⟨.onChain _, .ok o⟩ :: log => o.filter fun o => Renewals.live g o (Renewals.clock log)
  | _ :: log => report g log
  | [] => none

/-- What the grant of a row is kept under: the grant that was credited before
the row, or the one of the period that the row copies or begins. -/
def keyOf (g : Gateway) (log : BillingLog) (s : Subscription) : Reference :=
  match credited log with
  | some e => e.reference
  | none => ((report g log).map OnChainSubscription.reference).getD s.grantReference

/-- The row that a call has written while its grant is still to come. -/
def pending (g : Gateway) : BillingLog → Option (Subscription × Reference)
  | ⟨.putSubscription s, .ok _⟩ :: log =>
      if s.status = .active ∧ credited log = none then some (s, keyOf g log s) else none
  | ⟨.entryId, _⟩ :: log => pending g log
  | ⟨.now, _⟩ :: log => pending g log
  | _ => none

/-- The call has written a row whose grant is kept under a reference. -/
def Owes (g : Gateway) (log : BillingLog) (s : Subscription) (x : Reference) : Prop :=
  ∃ a before, (⟨.putSubscription s, .ok a⟩ :: before) <:+ log ∧ x = keyOf g before s

/-- A credit that is asked for by itself is no grant without a reference. -/
def Serves : Request → Prop
  | .credit _ _ kind reference _ _ => kind = .grant → reference ≠ .blank
  | _ => True

/-- No grant finds its reference under another account, and one whose row is
written is not cut off unless it is on record already. -/
def Spares (g : Gateway) : Rule := fun w _ v c r => match c with
  | .append e => e.kind = .grant → (w.store.recorded e.reference).all (grants e.account) = true ∧
      ((pending g v.log).isSome = true → lands w.store e r = true)
  | _ => True

/-- A row is written when no grant is due, under the account of the grant that
was credited for it, and the grant that is due is the next thing written. -/
def guard (g : Gateway) (log : BillingLog) : Call → Prop
  | .now | .entryId => True
  | .putSubscription s => pending g log = none ∧ ∀ e, credited log = some e → e.account = s.account
  | .append e => (e.kind = .grant → e.reference ≠ .blank) ∧
      ∀ s x, pending g log = some (s, x) → e.kind = .grant ∧ e.account = s.account ∧ e.reference = x
  | _ => pending g log = none

def admits (_ : BillingLog) : (c : Call) → Except Error c.Answer → Prop
  | .now, a => ∃ t, a = .ok t
  | .entryId, a => ∃ s, a = .ok s
  | .putSubscription s, a => ∀ x, a = .ok x → x = s
  | .subscription account, a => ∀ s, a = .ok (some s) → s.account = account
  | _, _ => True

theorem admits_step {w w' : World} {log : BillingLog} {c : Call} {r : Reply} {a : Except Error c.Answer}
    (h : w.step c r = some (a, w')) : admits log c a := by
  cases c with
  | now => exact (step_now h).imp fun t ht => ht.2.2.1
  | entryId => exact (step_entryId h).2
  | putSubscription s => rcases step_putSubscription h with ⟨x, _, rfl, _⟩ | ⟨_, rfl, _⟩ <;> simp [admits]
  | subscription account =>
      obtain ⟨_, rfl | ⟨x, _, rfl⟩⟩ := step_subscription h
      · exact fun s hs => Store.subscription_account (Except.ok.inj hs)
      · simp [admits]
  | _ => trivial

section Records

variable {w w' : World} {r : Reply} {account : String} {x : Reference}

theorem recorded_append {s : Store} {e y : LedgerEntry} (h : s.recorded x = some y) :
    (s.append e).2.recorded x = some y := by
  obtain ⟨l, hl⟩ := s.ledger_prefix_append e
  unfold Store.recorded at h ⊢
  rw [← hl, List.find?_append, h]
  rfl

theorem recorded_step {c : Call} {a : Except Error c.Answer} (hs : w.step c r = some (a, w')) {y : LedgerEntry}
    (h : w.store.recorded x = some y) : w'.store.recorded x = some y := by
  by_cases hc : ∃ e, c = .append e
  · obtain ⟨e, rfl⟩ := hc
    rcases step_append hs with ⟨_, _, _, rfl⟩ | ⟨_, _, rfl⟩
    · exact h
    · exact recorded_append h
  · push Not at hc
    rwa [Store.recorded, ledger_step hc hs]

theorem onRecord_step {c : Call} {a : Except Error c.Answer} (hs : w.step c r = some (a, w'))
    (h : onRecord w.store account x = true) : onRecord w'.store account x = true := by
  obtain ⟨y, hy, hg⟩ := (Option.any_eq_true _ _).1 h
  exact (Option.any_eq_true _ _).2 ⟨y, recorded_step hs hy, hg⟩

theorem recorded_self {s : Store} {e : LedgerEntry} (hb : e.reference ≠ .blank) (hr : s.recorded e.reference = none)
    (ha : s.append e = (.ok e, { s with ledger := s.ledger ++ [e] })) :
    (s.append e).2.recorded e.reference = some e := by
  rw [ha]
  unfold Store.recorded at hr ⊢
  rw [List.find?_append, hr]
  simp [hb]

theorem onRecord_append {e : LedgerEntry} {a : Except Error LedgerEntry} (hs : w.step (.append e) r = some (a, w'))
    (hk : e.kind = .grant) (hb : e.reference ≠ .blank) :
    onRecord w'.store e.account e.reference = lands w.store e r := by
  cases hr : w.store.recorded e.reference with
  | some y => simp only [onRecord, lands, recorded_step hs hr, hr, Option.any_some]
  | none =>
      rcases step_append hs with ⟨z, rfl, _, rfl⟩ | ⟨rfl, _, rfl⟩
      · simp [onRecord, lands, hr]
      · rcases w.store.append_cases e with ⟨y, hy, hyr, _⟩ | ⟨y, hy, hid, ha⟩ | ⟨hid, _, ha⟩
        · exact absurd hyr (Store.recorded_none hr hb y hy)
        · have hdup : ¬ ∀ x ∈ w.store.ledger, x.id ≠ e.id := fun h => h y hy hid
          simp only [onRecord, lands, ha, hr, Option.any_none]
          simpa using ⟨y, hy, hid⟩
        · simp only [onRecord, lands, hr, recorded_self hb hr ha, Option.any_some]
          simpa [grants, hk] using hid

theorem onRecord_answered {e y : LedgerEntry} (hs : w.step (.append e) r = some (.ok y, w')) (hk : e.kind = .grant)
    (hb : e.reference ≠ .blank) (hown : (w.store.recorded e.reference).all (grants e.account) = true) :
    onRecord w'.store e.account e.reference = true := by
  rw [onRecord_append hs hk hb]
  cases hr : w.store.recorded e.reference with
  | some z => simpa [lands, hr] using hown
  | none =>
      rcases step_append hs with ⟨z, _, ha, _⟩ | ⟨rfl, ha, _⟩
      · cases ha
      · rcases w.store.append_cases e with ⟨z, hz, hzr, _⟩ | ⟨_, _, _, hx⟩ | ⟨hid, _, _⟩
        · exact absurd hzr (Store.recorded_none hr hb z hz)
        · rw [hx] at ha
          cases ha
        · simpa [lands, hr] using hid

end Records

section Programs

variable {g : Gateway} {log : BillingLog} {account : String} {α : Type}

abbrev Square (g : Gateway) (p : Billing α) : Prop := Restores (guard g) admits (fun log => pending g log = none) p

theorem pending_cons {c : Call} {a : Except Error c.Answer} (h : pending g log = none)
    (hc : ∀ s, c ≠ .putSubscription s) : pending g (⟨c, a⟩ :: log) = none := by
  cases c with
  | putSubscription s => exact absurd rfl (hc s)
  | now | entryId => exact h
  | _ => rfl

theorem square_ask {c : Call} (hc : ∀ s, c ≠ .putSubscription s)
    (hb : ∀ e, c = .append e → e.kind = .grant → e.reference ≠ .blank) : Square g (ask c) := by
  refine restores_perform (fun log h => ?_) fun log a h _ => pending_cons h hc
  cases c with
  | putSubscription s => exact absurd rfl (hc s)
  | now | entryId => trivial
  | append e =>
      refine ⟨hb e rfl, fun s x hx => ?_⟩
      rw [h] at hx
      cases hx
  | _ => exact h

theorem square_credit (tokens : Int) {kind : EntryKind} {reference : Reference} (amount : Money) (memo : String)
    (hb : kind = .grant → reference ≠ .blank) :
    Square g (BillingService.credit account tokens kind reference amount memo) := by
  unfold BillingService.credit
  split
  · exact restores_raise _
  · refine (square_ask (by simp) (by simp)).bind fun id => (square_ask (by simp) (by simp)).bind fun now => ?_
    refine square_ask (by simp) fun e he => ?_
    cases he
    exact hb

theorem square_checkout (sku asset : String) : Square g (BillingService.checkout g account sku asset) := by
  have hi (product : Product) (kind : String) :
      Square g (BillingService.checkout.issue g account asset product kind) := by
    unfold BillingService.checkout.issue
    split
    · exact restores_raise _
    · refine (square_ask (by simp) (by simp)).bind fun now => (square_ask (by simp) (by simp)).bind fun id => ?_
      exact (square_ask (by simp) (by simp)).bind fun amount => square_ask (by simp) (by simp)
  refine (restores_ofExcept _).bind fun product => ?_
  cases product with
  | pack p => exact hi _ _
  | plan p =>
      simp only
      split
      · exact restores_raise _
      · split
        · exact restores_raise _
        · exact hi _ _

theorem square_requirements (resource : String) (price : Option Money) :
    Square g (X402Service.requirements g account resource price) := by
  refine (square_ask (by simp) (by simp)).bind fun now => (square_ask (by simp) (by simp)).bind fun id => ?_
  refine (square_ask (by simp) (by simp)).bind fun quote => ?_
  exact (square_ask (by simp) (by simp)).bind fun invoice => restores_ret _

theorem square_invoiceOf (requirements : X402Service.PaymentRequirements) :
    Square g (X402Service.invoiceOf requirements) := by
  unfold X402Service.invoiceOf
  split
  · exact restores_ret _
  · refine (square_ask (by simp) (by simp)).bind fun invoice => ?_
    cases invoice with
    | none => exact restores_ret _
    | some invoice =>
        refine (square_ask (by simp) (by simp)).bind fun now => ?_
        split <;> exact restores_ret _

theorem square_settle (payload : X402Service.PaymentPayload) (requirements : X402Service.PaymentRequirements) :
    Square g (X402Service.settle g payload requirements) := by
  have hverify : Square g (X402Service.verify g payload requirements) := by
    unfold X402Service.verify
    split
    · exact restores_ret _
    · split
      · exact restores_ret _
      · split
        · exact restores_ret _
        · refine (square_invoiceOf requirements).bind fun invoice => ?_
          cases invoice with
          | none => exact restores_ret _
          | some invoice => exact square_ask (by simp) (by simp)
  have hrecord (verified : VerifyResult) (result : SettleResult) :
      Square g (X402Service.record requirements verified result) := by
    refine (square_invoiceOf requirements).bind fun invoice => ?_
    cases invoice with
    | none => exact restores_ret _
    | some invoice =>
        refine (square_ask (by simp) (by simp)).bind fun paid => ?_
        exact (square_credit _ _ _ (by simp)).bind fun entry => restores_ret _
  refine hverify.bind fun verified => ?_
  split
  · exact restores_ret _
  · refine (square_ask (by simp) (by simp)).bind fun result => ?_
    split
    · exact restores_ret _
    · exact hrecord verified result

theorem square_redeem (payload : Except Error X402Service.PaymentPayload) (resource : String) :
    Square g (X402Service.redeem g payload resource) := by
  refine (restores_ofExcept _).bind fun payload => ?_
  have hnamed : Square g (X402Service.namedInvoice payload) := by
    unfold X402Service.namedInvoice
    split
    · exact restores_ret _
    · exact square_ask (by simp) (by simp)
  refine hnamed.bind fun invoice => ?_
  cases invoice with
  | none => exact restores_raise _
  | some invoice =>
      refine (square_settle _ _).bind fun result => ?_
      split
      · exact restores_raise _
      · exact restores_ret _

theorem square_charge (runId : String) (usage : Usage) : Square g (BillingService.charge g account runId usage) := by
  refine (restores_ofExcept _).bind fun tokens => ?_
  split
  · exact restores_ret _
  · refine (square_ask (by simp) (by simp)).bind fun id => (square_ask (by simp) (by simp)).bind fun now => ?_
    exact (square_ask (by simp) (by simp)).map _

theorem keeps_credit {tokens : Int} {reference : Reference} {amount : Money} {memo : String}
    (h : pending g log = none) (hb : reference ≠ .blank) :
    Keeps (guard g) admits (fun o log => pending g log = none ∧ ∀ x, o = .ok x →
      ∃ e, credited log = some e ∧ e.account = account)
      (BillingService.credit account tokens .grant reference amount memo) log := by
  have hdue {log : BillingLog} {s : Subscription} {x : Reference} (h : pending g log = none) (P : Prop)
      (hx : pending g log = some (s, x)) : P := by
    rw [h] at hx
    cases hx
  unfold BillingService.credit
  split
  · exact ⟨h, fun x hx => nomatch hx⟩
  · refine keeps_perform_bind.2 ⟨trivial, fun a ha => ?_⟩
    obtain ⟨id, rfl⟩ := ha
    refine keeps_perform_bind.2 ⟨trivial, fun a ha => ?_⟩
    obtain ⟨now, rfl⟩ := ha
    refine keeps_perform.2 ⟨⟨fun _ => hb, fun s x hx => hdue h _ hx⟩, fun a _ => ⟨rfl, fun x hx => ?_⟩⟩
    subst hx
    exact ⟨_, if_pos rfl, rfl⟩

theorem keeps_subscribe (plan : Plan) (h : pending g log = none) {e : LedgerEntry} (hc : credited log = some e)
    (he : e.account = account) :
    Keeps (guard g) admits (fun _ log => pending g log = none) (BillingService.subscribe account plan) log := by
  have hput {log : BillingLog} {s : Subscription} (h : pending g log = none) (hc : credited log = some e)
      (hs : s.account = account) :
      Keeps (guard g) admits (fun _ log => pending g log = none) (store.putSubscription s) log := by
    refine keeps_perform.2 ⟨⟨h, fun x hx => ?_⟩, fun a _ => ?_⟩
    · rw [hc] at hx
      cases hx
      exact he.trans hs.symm
    · cases a with
      | error f => rfl
      | ok y => simp [pending, hc]
  refine keeps_perform_bind.2 ⟨trivial, fun a ha => ?_⟩
  obtain ⟨now, rfl⟩ := ha
  refine keeps_perform_bind.2 ⟨h, fun a ha => ?_⟩
  match a with
  | .error f => rfl
  | .ok none => exact hput rfl hc rfl
  | .ok (some current) =>
      have hacc : current.account = account := ha current rfl
      simp only
      split
      · exact hput rfl hc hacc
      · exact hput rfl hc rfl

theorem square_deliver (invoice : Invoice) : Square g (BillingService.deliver g invoice) := by
  refine (restores_ofExcept _).bind fun product => ?_
  cases product with
  | pack p => exact (square_credit _ _ _ (by simp)).bind fun _ => restores_ret _
  | plan p =>
      intro log h
      refine keeps_bind.2 ((keeps_credit h (by simp)).mono fun o log hl => ?_)
      cases o with
      | error f => exact hl.1
      | ok x =>
          obtain ⟨e, hc, he⟩ := hl.2 x rfl
          refine keeps_bind.2 ((keeps_subscribe p hl.1 hc he).mono fun o log hl => ?_)
          cases o <;> exact hl

theorem square_confirm (id : String) : Square g (BillingService.confirm g id) := by
  refine (square_ask (by simp) (by simp)).bind fun invoice => ?_
  cases invoice with
  | none => exact restores_raise _
  | some invoice =>
      simp only
      split
      · exact restores_ret _
      · refine (square_ask (by simp) (by simp)).bind fun payment => ?_
        cases payment with
        | none =>
            refine (square_ask (by simp) (by simp)).bind fun now => ?_
            split
            · exact restores_ret _
            · exact square_ask (by simp) (by simp)
        | some payment =>
            refine (restores_ofExcept _).bind fun settled => ?_
            split
            · refine (square_ask (by simp) (by simp)).bind fun paid => ?_
              exact (square_deliver paid).bind fun _ => restores_ret _
            · exact restores_ret _

theorem square_sweep (settled invoices : List Invoice) : Square g (BillingService.sweep g settled invoices) := by
  induction invoices generalizing settled with
  | nil => exact restores_ret _
  | cons invoice rest ih =>
      have hone : Square g ((some <$> BillingService.confirm g invoice.id).rescue fun e =>
          if e.isException then .ret none else .raise e) := by
        refine Restores.rescue ((square_confirm invoice.id).map some) fun e => ?_
        split
        · exact restores_ret _
        · exact restores_raise _
      refine hone.bind fun confirmed => ?_
      cases confirmed with
      | none => exact ih settled
      | some confirmed =>
          simp only
          split
          · exact ih _
          · exact ih settled

/-- A call that has read what the contract says, and has neither written a row
nor credited a grant. -/
structure Calm (g : Gateway) (o : Option OnChainSubscription) (log : BillingLog) : Prop where
  credited : credited log = none
  pending : pending g log = none
  report : report g log = o

theorem Calm.cons {o : Option OnChainSubscription} {c : Call} {a : Except Error c.Answer} (h : Calm g o log)
    (hput : ∀ s, c ≠ .putSubscription s) (happend : ∀ e, c = .append e → e.kind ≠ .grant)
    (hchain : ∀ b, c ≠ .onChain b) : Calm g o (⟨c, a⟩ :: log) := by
  refine ⟨?_, pending_cons h.pending hput, ?_⟩
  · cases c with
    | append e =>
        cases a with
        | error f => exact h.credited
        | ok x => exact (if_neg (happend e rfl)).trans h.credited
    | _ => exact h.credited
  · cases c with
    | onChain b => exact absurd rfl (hchain b)
    | _ => exact h.report

theorem Calm.keyOf {o : Option OnChainSubscription} (h : Calm g o log) (s : Subscription) :
    keyOf g log s = (o.map OnChainSubscription.reference).getD s.grantReference := by
  rw [Grants.keyOf, h.credited, h.report]

theorem keeps_due {s : Subscription} {x : Reference} {tokens : Int} {amount : Money} {memo : String}
    (h : pending g log = some (s, x)) (hs : s.account = account) (hx : x ≠ .blank) (ht : 0 ≤ tokens) :
    Keeps (guard g) admits (fun _ log => pending g log = none)
      (BillingService.credit account tokens .grant x amount memo) log := by
  unfold BillingService.credit
  rw [if_neg (by omega)]
  refine keeps_perform_bind.2 ⟨trivial, fun a ha => ?_⟩
  obtain ⟨id, rfl⟩ := ha
  refine keeps_perform_bind.2 ⟨trivial, fun a ha => ?_⟩
  obtain ⟨now, rfl⟩ := ha
  refine keeps_perform.2 ⟨⟨fun _ => hx, fun s' x' hp => ?_⟩, fun a _ => rfl⟩
  have he : some (s, x) = some (s', x') := h.symm.trans hp
  cases he
  exact ⟨rfl, hs.symm, rfl⟩

theorem keeps_row {o : Option OnChainSubscription} (h : Calm g o log) {s : Subscription} (hs : s.account = account)
    (hact : s.status = .active) {x : Subscription → Reference} (hb : x s ≠ .blank)
    (hx : (o.map OnChainSubscription.reference).getD s.grantReference = x s) {tokens : Int} (ht : 0 ≤ tokens)
    {amount : Money} {memo : String} {result : Subscription → α} :
    Keeps (guard g) admits (fun _ log => pending g log = none) ((store.putSubscription s).bind fun s =>
      (BillingService.credit account tokens .grant (x s) amount memo).bind fun _ => .ret (result s)) log := by
  refine keeps_perform_bind.2 ⟨⟨h.pending, fun e he => ?_⟩, fun a ha => ?_⟩
  · rw [h.credited] at he
    cases he
  · cases a with
    | error f => rfl
    | ok y =>
        have hp : pending g (⟨.putSubscription s, .ok y⟩ :: log) = some (s, x s) := by
          rw [pending, if_pos ⟨hact, h.credited⟩, h.keyOf, hx]
        rw [ha y rfl] at hp ⊢
        refine keeps_bind.2 ((keeps_due hp hs hb ht).mono fun o log hl => ?_)
        cases o <;> exact hl

theorem keeps_end {o : Option OnChainSubscription} (h : Calm g o log) (s : Subscription) :
    Keeps (guard g) admits (fun _ log => pending g log = none) (some <$> store.putSubscription s.ended) log := by
  refine keeps_perform_bind.2 ⟨⟨h.pending, fun e he => ?_⟩, fun a _ => ?_⟩
  · rw [h.credited] at he
    cases he
  · cases a with
    | error f => rfl
    | ok y => exact if_neg fun hs => nomatch hs.1

theorem keeps_expireGrant (h : Calm g none log) (s : Subscription) (now : Datetime) :
    Keeps (guard g) admits (fun _ log => Calm g none log) (BillingService.expireGrant account s now) log := by
  have hcons {log : BillingLog} {c : Call} {a : Except Error c.Answer} (h : Calm g none log)
      (hput : ∀ s, c ≠ .putSubscription s) (happend : ∀ e, c = .append e → e.kind ≠ .grant)
      (hchain : ∀ b, c ≠ .onChain b) : Calm g none (⟨c, a⟩ :: log) := h.cons hput happend hchain
  refine keeps_bind.2 (keeps_perform_bind.2 ⟨h.pending, fun a _ => ?_⟩)
  have h := h.cons (c := .allEntries account) (a := a) (by simp) (by simp) (by simp)
  cases a with
  | error f => exact h
  | ok entries =>
      simp only [pure_eq, Keeps]
      split
      · exact h
      · refine keeps_perform_bind.2 ⟨trivial, fun a ha => ?_⟩
        obtain ⟨id, rfl⟩ := ha
        have h := h.cons (c := .entryId) (a := .ok id) (by simp) (by simp) (by simp)
        refine keeps_perform_bind.2 ⟨⟨by simp, fun s x hx => ?_⟩, fun a _ => ?_⟩
        · rw [h.pending] at hx
          cases hx
        · cases a <;> exact hcons h (by simp) (fun e he => by cases he; simp) (by simp)

/-- No plan takes tokens away. -/
def Giving (g : Gateway) : Prop := ∀ plan ∈ g.catalog.plans, 0 ≤ plan.tokens

theorem tokens_nonneg (hg : Giving g) {planId : String} {plan : Plan} (h : g.catalog.plan planId = .ok plan) :
    0 ≤ plan.tokens := by
  have hp := Catalog.product_of_plan h
  unfold Catalog.product at hp
  split at hp
  · cases hp
    rename_i hf
    have hm := List.mem_of_find?_eq_some hf
    simp only [Catalog.everything, List.mem_append, List.mem_map, Product.plan.injEq, exists_eq_right,
      reduceCtorEq, and_false, exists_false, or_false] at hm
    exact hg plan hm
  · cases hp

theorem keeps_settleRow (hg : Giving g) (h : Calm g none log) (now : Datetime) :
    Keeps (guard g) admits (fun _ log => pending g log = none) (BillingService.settleRow g account now) log := by
  refine keeps_perform_bind.2 ⟨h.pending, fun a ha => ?_⟩
  have h := h.cons (c := .subscription account) (a := a) (by simp) (by simp) (by simp)
  match a with
  | .error f => exact h.pending
  | .ok none =>
      simp only [BillingService.beginFree]
      cases hf : g.catalog.freePlan with
      | none => exact h.pending
      | some plan =>
          exact keeps_row h (s := .begin account plan now) rfl rfl (x := Subscription.grantReference)
            (by simp [Subscription.grantReference]) rfl (hg plan (List.mem_of_find?_eq_some hf))
  | .ok (some s) =>
      have hacc : s.account = account := ha s rfl
      simp only
      split
      · exact h.pending
      · refine keeps_bind.2 ((keeps_expireGrant h s now).mono fun o log h => ?_)
        cases o with
        | error f => exact h.pending
        | ok _ =>
            cases hp : g.catalog.plan s.planId with
            | error f => exact keeps_end h s
            | ok plan =>
                simp only
                split
                · exact keeps_row h (s := s.renewed plan now) hacc rfl (x := Subscription.grantReference)
                    (by simp [Subscription.grantReference]) rfl (tokens_nonneg hg hp)
                · exact keeps_end h s

theorem keeps_settlePeriod (hg : Giving g) :
    Keeps (guard g) admits (fun _ log => pending g log = none) (BillingService.settlePeriod g account) [] := by
  refine keeps_perform_bind.2 ⟨trivial, fun a ha => ?_⟩
  obtain ⟨now, rfl⟩ := ha
  have h : Calm g none [⟨.now, .ok now⟩] := ⟨rfl, rfl, rfl⟩
  have hread : Keeps (guard g) admits (fun o log => match o with
      | .ok o => Calm g (o.filter fun o => Renewals.live g o now) log
      | .error _ => pending g log = none) (BillingService.readChain g account) [⟨.now, .ok now⟩] := by
    unfold BillingService.readChain
    split
    · refine keeps_rescue.2 (keeps_perform.2 ⟨rfl, fun a _ => ?_⟩)
      cases a with
      | ok o => exact ⟨rfl, rfl, rfl⟩
      | error f =>
          simp only
          split
          · exact ⟨rfl, rfl, rfl⟩
          · rfl
    · exact h
  refine keeps_bind.2 (keeps_bind.2 (hread.mono fun o log h => ?_))
  match o with
  | .error f => exact h
  | .ok none => exact keeps_settleRow hg h now
  | .ok (some o) =>
      change Calm g ((some o).filter fun o => Renewals.live g o now) log at h
      rw [Option.filter_some] at h
      simp only
      split
      · rename_i ha
        have ha : o.active now = false := by simpa using ha
        have hl : Renewals.live g o now = false := by rw [Renewals.live, ha, Bool.false_and]
        rw [hl] at h
        exact keeps_settleRow hg h now
      · rename_i ha
        have ha : o.active now = true := by simpa using ha
        cases hp : g.catalog.plan o.plan with
        | error f =>
            have hl : Renewals.live g o now = false := by rw [Renewals.live, ha, hp]; rfl
            rw [hl] at h
            exact keeps_settleRow hg h now
        | ok plan =>
            have hl : Renewals.live g o now = true := by rw [Renewals.live, ha, hp]; rfl
            rw [hl] at h
            have hrow : Keeps (guard g) admits (fun _ log => pending g log = none)
                (BillingService.mirror account plan o) log :=
              keeps_row h (s := ⟨account, plan.id, o.started, o.expires, .active⟩) rfl rfl
                (x := fun _ => o.reference) (by simp [OnChainSubscription.reference]) rfl (tokens_nonneg hg hp)
            refine keeps_bind.2 (hrow.mono fun o log hl => ?_)
            cases o <;> exact hl

theorem keeps_body (hg : Giving g) {q : Request} (hq : Serves q) :
    Keeps (guard g) admits (fun _ log => pending g log = none) (body g q) [] := by
  have hmap {α : Type} {p : Billing α} {f : α → Outcome}
      (h : Keeps (guard g) admits (fun _ log => pending g log = none) p []) :
      Keeps (guard g) admits (fun _ log => pending g log = none) (f <$> p) [] := by
    refine keeps_bind.2 (h.mono fun o log h => ?_)
    cases o <;> exact h
  cases q with
  | checkout account sku asset => exact hmap (square_checkout sku asset [] rfl)
  | confirm invoiceId => exact hmap (square_confirm invoiceId [] rfl)
  | reconcile limit =>
      have hs : Square g (BillingService.reconcile g limit) :=
        (square_ask (by simp) (by simp)).bind fun invoices => square_sweep [] invoices
      exact hmap (hs [] rfl)
  | requirements account resource price => exact hmap (square_requirements resource price [] rfl)
  | settle payload requirements => exact hmap (square_settle payload requirements [] rfl)
  | redeem payload resource => exact hmap (square_redeem payload resource [] rfl)
  | credit account tokens kind reference amount memo =>
      exact hmap (square_credit tokens amount memo hq [] rfl)
  | charge account runId usage => exact hmap (square_charge runId usage [] rfl)
  | settlePeriod account => exact hmap (keeps_settlePeriod hg)
  | authorize account needed =>
      refine hmap (keeps_bind.2 ((keeps_settlePeriod hg).mono fun o log h => ?_))
      cases o with
      | error f => exact h
      | ok s =>
          refine keeps_bind.2 (keeps_perform_bind.2 ⟨h, fun a _ => ?_⟩)
          cases a with
          | error f => rfl
          | ok entries =>
              simp only [pure_eq, Keeps]
              split <;> rfl

end Programs

/-- Every grant that a call was answered for is on record, so is the one of
every row that a call has written unless it is still due, and a call has written
the row of every account. -/
structure Inv (g : Gateway) (w : World) (vs : List InProgress) : Prop where
  credits : ∀ v ∈ vs, ∀ e, credited v.log = some e → onRecord w.store e.account e.reference = true
  owed : ∀ v ∈ vs, ∀ s x, Owes g v.log s x → s.status = .active →
    onRecord w.store s.account x = true ∨ (v.result = none ∧ pending g v.log = some (s, x))
  rows : ∀ account s, w.store.subscription account = some s → ∃ v ∈ vs, ∃ x, Owes g v.log s x

section Steps

variable {g : Gateway} {w w' : World} {vs : List InProgress} {n : Nat} {q : Request} {log : BillingLog} {c : Call}
  {r : Reply} {a : Except Error c.Answer}

theorem owes_cons {x : (c : Call) × Except Error c.Answer} {s : Subscription} {y : Reference}
    (h : Owes g (x :: log) s y) :
    Owes g log s y ∨ ((∃ b, x = ⟨.putSubscription s, .ok b⟩) ∧ y = keyOf g log s) := by
  obtain ⟨b, before, hsuf, hy⟩ := h
  rcases List.suffix_cons_iff.1 hsuf with he | hsuf
  · obtain ⟨rfl, rfl⟩ := List.cons.inj he
    exact .inr ⟨⟨b, rfl⟩, hy⟩
  · exact .inl ⟨b, before, hsuf, hy⟩

theorem Owes.cons {s : Subscription} {y : Reference} (h : Owes g log s y) (x : (c : Call) × Except Error c.Answer) :
    Owes g (x :: log) s y := by
  obtain ⟨b, before, hsuf, hy⟩ := h
  exact ⟨b, before, hsuf.trans (List.suffix_cons x log), hy⟩

theorem credited_cons {e : LedgerEntry} {x : (c : Call) × Except Error c.Answer}
    (h : credited (x :: log) = some e) :
    credited log = some e ∨ (e.kind = .grant ∧ ∃ y, x = ⟨.append e, .ok y⟩) := by
  unfold credited at h
  split at h
  · rename_i hx
    obtain ⟨rfl, rfl⟩ := List.cons.inj hx
    split at h
    · cases h
      exact .inr ⟨‹_›, _, rfl⟩
    · exact .inl h
  · rename_i hx
    obtain ⟨rfl, rfl⟩ := List.cons.inj hx
    exact .inl h
  · cases h

theorem Inv.credits_step (h : Inv g w vs) (hn : vs[n]? = some ⟨q, log, none⟩) (hg : guard g log c)
    (ht : Spares g w vs ⟨q, log, none⟩ c r) (hs : w.step c r = some (a, w')) :
    ∀ v ∈ vs.set n ⟨q, ⟨c, a⟩ :: log, none⟩, ∀ e, credited v.log = some e →
      onRecord w'.store e.account e.reference = true := by
  intro v hv e he
  rcases List.mem_or_eq_of_mem_set hv with hv | rfl
  · exact onRecord_step hs (h.credits v hv e he)
  · rcases credited_cons he with he | ⟨hk, y, hx⟩
    · exact onRecord_step hs (h.credits _ (List.mem_of_getElem? hn) e he)
    · cases hx
      exact onRecord_answered hs hk (hg.1 hk) (ht hk).1

theorem Inv.owed_step (h : Inv g w vs) (hn : vs[n]? = some ⟨q, log, none⟩) (hg : guard g log c)
    (ht : Spares g w vs ⟨q, log, none⟩ c r) (hs : w.step c r = some (a, w')) {s : Subscription} {x : Reference}
    (hact : s.status = .active) (ho : Owes g (⟨c, a⟩ :: log) s x) :
    onRecord w'.store s.account x = true ∨ pending g (⟨c, a⟩ :: log) = some (s, x) := by
  rcases owes_cons ho with ho | ⟨⟨b, hx⟩, rfl⟩
  · rcases h.owed _ (List.mem_of_getElem? hn) s x ho hact with hr | ⟨_, hp⟩
    · exact .inl (onRecord_step hs hr)
    · simp only at hp
      cases c with
      | now | entryId => exact .inr hp
      | append e =>
          obtain ⟨hk, hacc, rfl⟩ := hg.2 s x hp
          have hl : lands w.store e r = true := by
            apply (ht hk).2
            rw [hp]
            rfl
          exact .inl (hacc ▸ (onRecord_append hs hk (hg.1 hk)).trans hl)
      | putSubscription s' =>
          rw [hg.1] at hp
          cases hp
      | _ =>
          have hnone : pending g log = none := hg
          rw [hnone] at hp
          cases hp
  · cases hx
    cases hc : credited log with
    | none => exact .inr (if_pos ⟨hact, hc⟩)
    | some e =>
        have hr := onRecord_step hs (h.credits _ (List.mem_of_getElem? hn) e hc)
        rw [hg.2 e hc] at hr
        refine .inl ?_
        rwa [keyOf, hc]

theorem Inv.rows_step (h : Inv g w vs) (hn : vs[n]? = some ⟨q, log, none⟩) (hs : w.step c r = some (a, w')) :
    ∀ account s, w'.store.subscription account = some s →
      ∃ v ∈ vs.set n ⟨q, ⟨c, a⟩ :: log, none⟩, ∃ x, Owes g v.log s x := by
  intro account s hrow
  have hold (hrow : w.store.subscription account = some s) :
      ∃ v ∈ vs.set n ⟨q, ⟨c, a⟩ :: log, none⟩, ∃ x, Owes g v.log s x := by
    obtain ⟨v, hv, x, hx⟩ := h.rows account s hrow
    rcases mem_set_or_eq hn hv ⟨q, ⟨c, a⟩ :: log, none⟩ with hv | rfl
    · exact ⟨v, hv, x, hx⟩
    · exact ⟨_, mem_set_self hn _, x, hx.cons _⟩
  by_cases hc : ∃ s', c = .putSubscription s'
  · obtain ⟨s', rfl⟩ := hc
    rcases step_putSubscription hs with ⟨_, _, _, rfl⟩ | ⟨_, rfl, rfl⟩
    · exact hold hrow
    · by_cases hacc : s'.account = account
      · subst hacc
        rw [Store.subscription_put] at hrow
        cases hrow
        exact ⟨_, mem_set_self hn _, _, s, log, List.suffix_refl _, rfl⟩
      · rw [Store.subscription_put_of_ne hacc] at hrow
        exact hold hrow
  · push Not at hc
    rw [subscription_step hc hs] at hrow
    exact hold hrow

theorem Inv.step (h : Inv g w vs) (hn : vs[n]? = some ⟨q, log, none⟩) (hg : guard g log c)
    (ht : Spares g w vs ⟨q, log, none⟩ c r) (hs : w.step c r = some (a, w')) :
    Inv g w' (vs.set n ⟨q, ⟨c, a⟩ :: log, none⟩) where
  credits := h.credits_step hn hg ht hs
  owed v hv s x ho hact := by
    rcases List.mem_or_eq_of_mem_set hv with hv | rfl
    · exact (h.owed v hv s x ho hact).imp_left (onRecord_step hs)
    · exact (h.owed_step hn hg ht hs hact ho).imp_right fun hp => ⟨rfl, hp⟩
  rows := h.rows_step hn hs

theorem inv_init (t : Datetime) : Inv g ⟨{}, t⟩ [] := by
  refine ⟨fun v hv => (nomatch hv), fun v hv => (nomatch hv), fun account s hs => ?_⟩
  cases hs

end Steps

def protocol {g : Gateway} (hg : Giving g) : Protocol (body g) World.step Serves (Spares g) where
  inv := Inv g
  guard _ := guard g
  admits _ := admits
  post _ _ log := pending g log = none
  arrive {q w vs} _ h := by
    refine ⟨fun v hv e he => ?_, fun v hv s x ho => ?_, fun account s hs => ?_⟩
    · rcases mem_concat hv with hv | rfl
      · exact h.credits v hv e he
      · cases he
    · rcases mem_concat hv with hv | rfl
      · exact h.owed v hv s x ho
      · obtain ⟨_, _, hsuf, _⟩ := ho
        exact absurd (List.suffix_nil.1 hsuf) (List.cons_ne_nil _ _)
    · obtain ⟨v, hv, x, hx⟩ := h.rows account s hs
      exact ⟨v, List.mem_append_left _ hv, x, hx⟩
  follows hq := keeps_body hg hq
  sound h hn hgd ht hs := ⟨h.step hn hgd ht hs, admits_step hs⟩
  leave {w vs i q log o} h hn hp := by
    have hold := List.mem_of_getElem? hn
    refine ⟨fun v hv e he => ?_, fun v hv s x ho hact => ?_, fun account s hs => ?_⟩
    · rcases List.mem_or_eq_of_mem_set hv with hv | rfl
      · exact h.credits v hv e he
      · exact h.credits _ hold e he
    · rcases List.mem_or_eq_of_mem_set hv with hv | rfl
      · exact h.owed v hv s x ho hact
      · rcases h.owed _ hold s x ho hact with hr | ⟨_, hd⟩
        · exact .inl hr
        · rw [hp] at hd
          cases hd
    · obtain ⟨v, hv, x, hx⟩ := h.rows account s hs
      rcases mem_set_or_eq hn hv ⟨q, log, some o⟩ with hv | rfl
      · exact ⟨v, hv, x, hx⟩
      · exact ⟨_, mem_set_self hn _, x, hx⟩

/-- No call is in progress. -/
def AtRest (c : Pool) : Prop := ∀ v ∈ c.views, v.result.isSome = true

/-- What the grant of the row of an account is kept under, if it has a row. -/
def Keyed (g : Gateway) (c : Pool) (account : String) (key : Option Reference) : Prop :=
  ∀ s, c.world.store.subscription account = some s → ∃ v ∈ c.views, ∃ x, Owes g v.log s x ∧ key = some x

variable {g : Gateway} {t : Datetime} {c : Pool} {account : String}

theorem exists_keyed (hg : Giving g) (h : Reachable g Serves (Spares g) ⟨{}, t⟩ c) :
    ∃ key, Keyed g c account key := by
  have hinv : Inv g c.world c.views := (protocol hg).invariant (inv_init t) h
  cases hrow : c.world.store.subscription account with
  | none => exact ⟨none, fun s hs => nomatch hrow.symm.trans hs⟩
  | some s =>
      obtain ⟨v, hv, x, hx⟩ := hinv.rows account s hrow
      refine ⟨some x, fun s' hs => ?_⟩
      rw [hrow] at hs
      cases hs
      exact ⟨v, hv, x, hx, rfl⟩

theorem onRecord_at_rest (hg : Giving g) (h : Reachable g Serves (Spares g) ⟨{}, t⟩ c) (hrest : AtRest c)
    {key : Option Reference} (hk : Keyed g c account key) {s : Subscription}
    (hs : c.world.store.subscription account = some s) (hact : s.status = .active) :
    ∃ x, key = some x ∧ onRecord c.world.store account x = true := by
  have hinv : Inv g c.world c.views := (protocol hg).invariant (inv_init t) h
  obtain ⟨v, hv, x, hx, rfl⟩ := hk s hs
  refine ⟨x, rfl, ?_⟩
  rcases hinv.owed v hv s x hx hact with hr | ⟨hnone, _⟩
  · rwa [Store.subscription_account hs] at hr
  · have hres := hrest v hv
    rw [hnone] at hres
    cases hres

end CodeZard.Grants
