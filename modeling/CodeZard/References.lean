import CodeZard.Requests

namespace CodeZard.References

open Amounts Products Ledgers Periods Invoices Programs Ports Interleaving Requests

/-- What may be written: entries under some references, some invoices and some
subscriptions. -/
structure Scope where
  entry : Reference → Prop := fun _ => True
  invoice : Invoice → Prop := fun _ => True
  subscription : Subscription → Prop := fun _ => True

def allows (K : Scope) (_ : BillingLog) : Call → Prop
  | .append e => K.entry e.reference
  | .putInvoice i => K.invoice i
  | .putSubscription s => K.subscription s
  | _ => True

abbrev Answers : Type := BillingLog → (c : Call) → Except Error c.Answer → Prop

def anyAnswer : Answers := fun _ _ _ => True

def Writes {α : Type} (K : Scope) (A : Answers) (p : Billing α) : Prop := Restores (allows K) A (fun _ => True) p

/-- The kind takes in the references that are built from a period. -/
structure Periodic (P : Reference → Prop) : Prop where
  grant : ∀ planId t, P (.grant planId t)
  expiry : ∀ planId t, P (.expiry planId t)
  chain : ∀ planId started, P (.chain planId started)

/-- The kind takes in the invoices that are read, and what they are settled as. -/
structure Rows (Q : Invoice → Prop) (A : Answers) : Prop where
  found : ∀ log id i, A log (.invoice id) (.ok (some i)) → Q i
  expired : ∀ i, Q i → Q i.expired
  paid : ∀ i txHash payer, Q i → Q (i.paid txHash payer)

/-- The kind takes in whatever is active, and what has ended of a plan that is
not free. -/
structure Standing (g : Gateway) (R : Subscription → Prop) : Prop where
  active : ∀ s : Subscription, s.status = .active → R s
  ended : ∀ s : Subscription, (∀ plan, g.catalog.plan s.planId = .ok plan → plan.isFree = false) → R s.ended

variable {K : Scope} {A : Answers} {g : Gateway} {α : Type}

theorem writes_ask {c : Call} (h : allows K [] c) : Writes K A (ask c) := by
  refine restores_perform (fun log _ => ?_) fun _ _ _ _ => trivial
  cases c <;> exact h

theorem writes_ask_bind {c : Call} {f : c.Answer → Billing α} (h : allows K [] c) (hf : ∀ v, Writes K A (f v)) :
    Writes K A ((ask c).bind f) :=
  (writes_ask h).bind hf

theorem writes_read_bind {p : Billing (Option Invoice)} {f : Option Invoice → Billing α}
    (hp : ∀ log, Keeps (allows K) A (fun o _ => ∀ i, o = .ok (some i) → K.invoice i) p log)
    (hf : ∀ o, (∀ i, o = some i → K.invoice i) → Writes K A (f o)) : Writes K A (p.bind f) := by
  intro log _
  refine keeps_bind.2 ((hp log).mono fun o log h => ?_)
  cases o with
  | ok o => exact hf o (fun i hi => h i (congrArg Except.ok hi)) log trivial
  | error e => trivial

theorem keeps_invoice (h : Rows K.invoice A) (id : String) (log : BillingLog) :
    Keeps (allows K) A (fun o _ => ∀ i, o = .ok (some i) → K.invoice i) (store.invoice id) log :=
  keeps_perform.2 ⟨trivial, fun _ ha i hi => h.found log id i (hi ▸ ha)⟩

theorem writes_credit (account : String) (tokens : Int) (kind : EntryKind) {reference : Reference} (amount : Money)
    (memo : String) (h : K.entry reference) :
    Writes K A (BillingService.credit account tokens kind reference amount memo) := by
  unfold BillingService.credit
  split
  · exact restores_raise _
  · exact writes_ask_bind trivial fun id => writes_ask_bind trivial fun now => writes_ask h

section Periods

variable (h : Periodic K.entry) (hs : Standing g K.subscription)
include h

theorem writes_expireGrant (account : String) (s : Subscription) (now : Datetime) :
    Writes K A (BillingService.expireGrant account s now) := by
  refine Restores.bind (writes_ask_bind trivial fun entries => restores_ret _) fun b => ?_
  split
  · exact restores_ret _
  · exact writes_ask_bind trivial fun id => writes_ask_bind (h.expiry _ _) fun _ => restores_ret _

include hs

theorem writes_mirrorChain (account : String) (now : Datetime) : Writes K A (BillingService.mirrorChain g account now) := by
  have hread : Writes K A (BillingService.readChain g account) := by
    unfold BillingService.readChain
    split
    · refine Restores.rescue (writes_ask trivial) fun e => ?_
      split
      · exact restores_ret _
      · exact restores_raise _
    · exact restores_ret _
  refine hread.bind fun o => ?_
  cases o with
  | none => exact restores_ret _
  | some o =>
      dsimp only
      split
      · exact restores_ret _
      · split
        · exact restores_ret _
        · rename_i plan _
          have hmirror : Writes K A (BillingService.mirror account plan o) := by
            refine writes_ask_bind (hs.active _ rfl) fun _ => ?_
            exact (writes_credit _ _ _ _ _ (h.chain _ _)).bind fun _ => restores_ret _
          exact hmirror.map _

theorem writes_renew {s : Subscription} (hactive : s.status = .active) (account : String) (plan : Plan) :
    Writes K A ((store.putSubscription s).bind fun s =>
      (BillingService.grant account plan s).bind fun _ => .ret (some s)) := by
  refine writes_ask_bind (hs.active s hactive) fun s => ?_
  exact (writes_credit _ _ _ _ _ (h.grant _ _)).bind fun _ => restores_ret _

theorem writes_settleRow (account : String) (now : Datetime) : Writes K A (BillingService.settleRow g account now) := by
  refine writes_ask_bind trivial fun s => ?_
  cases s with
  | none =>
      simp only [BillingService.beginFree]
      split
      · exact restores_ret _
      · exact writes_renew h hs rfl _ _
  | some s =>
      dsimp only
      split
      · exact restores_ret _
      · have hend (hp : ∀ plan, g.catalog.plan s.planId = .ok plan → plan.isFree = false) :
            Writes K A (store.putSubscription s.ended) :=
          writes_ask (hs.ended s hp)
        refine (writes_expireGrant h account s now).bind fun _ => ?_
        cases hplan : g.catalog.plan s.planId with
        | error e => exact (hend (by simp [hplan])).map _
        | ok plan =>
            dsimp only
            split
            · exact writes_renew h hs rfl _ _
            · exact (hend (by simp_all)).map _

theorem writes_settlePeriod (account : String) : Writes K A (BillingService.settlePeriod g account) := by
  refine writes_ask_bind trivial fun now => (writes_mirrorChain h hs account now).bind fun s => ?_
  cases s with
  | none => exact writes_settleRow h hs account now
  | some s => exact restores_ret _

theorem writes_authorize (account : String) (needed : Int) : Writes K A (BillingService.authorize g account needed) := by
  refine (writes_settlePeriod h hs account).bind fun _ => ?_
  refine Restores.bind (writes_ask_bind trivial fun _ => restores_ret _) fun b => ?_
  dsimp only
  split
  · exact restores_ret _
  · exact restores_raise _

end Periods

theorem writes_charge (account runId : String) (usage : Usage) (h : K.entry (.run runId)) :
    Writes K A (BillingService.charge g account runId usage) := by
  refine (restores_ofExcept _).bind fun tokens => ?_
  split
  · exact restores_ret _
  · have happend (e : LedgerEntry) (he : K.entry e.reference) : Writes K A (store.append e) := writes_ask he
    exact writes_ask_bind trivial fun id => writes_ask_bind trivial fun now => (happend _ h).map _

theorem writes_subscribe (hs : Standing g K.subscription) (account : String) (plan : Plan) : Writes K A (BillingService.subscribe account plan) := by
  refine writes_ask_bind trivial fun now => writes_ask_bind trivial fun s => ?_
  cases s with
  | none => exact writes_ask (hs.active _ rfl)
  | some s =>
      dsimp only
      split
      · exact writes_ask (hs.active _ rfl)
      · exact writes_ask (hs.active _ rfl)

section Sales

variable (hrows : Rows K.invoice A) (hs : Standing g K.subscription) (h : ∀ id, K.entry (.invoice id))
include hs h

theorem writes_deliver (i : Invoice) : Writes K A (BillingService.deliver g i) := by
  refine (restores_ofExcept _).bind fun product => ?_
  have hcredit (kind : EntryKind) (memo : String) :
      Writes K A (BillingService.credit i.account i.tokens kind (.invoice i.id) i.price memo) :=
    writes_credit _ _ _ _ _ (h i.id)
  cases product with
  | plan p => exact (hcredit _ _).bind fun _ => (writes_subscribe hs _ p).bind fun _ => restores_ret _
  | pack p => exact (hcredit _ _).bind fun _ => restores_ret _

include hrows

theorem writes_confirm (id : String) : Writes K A (BillingService.confirm g id) := by
  refine writes_read_bind (keeps_invoice hrows id) fun found hfound => ?_
  cases found with
  | none => exact restores_raise _
  | some i =>
      have hi : K.invoice i := hfound i rfl
      dsimp only
      split
      · exact restores_ret _
      · refine writes_ask_bind trivial fun p => ?_
        cases p with
        | none =>
            refine writes_ask_bind trivial fun now => ?_
            split
            · exact restores_ret _
            · exact writes_ask (hrows.expired i hi)
        | some p =>
            refine (restores_ofExcept _).bind fun settled => ?_
            split
            · exact writes_ask_bind (hrows.paid i _ _ hi) fun paid => (writes_deliver hs h paid).bind fun _ => restores_ret _
            · exact restores_ret _

theorem writes_sweep (settled invoices : List Invoice) : Writes K A (BillingService.sweep g settled invoices) := by
  induction invoices generalizing settled with
  | nil => exact restores_ret _
  | cons i rest ih =>
      have hone : Writes K A ((some <$> BillingService.confirm g i.id).rescue fun e =>
          if e.isException then .ret none else .raise e) := by
        refine Restores.rescue ((writes_confirm hrows hs h i.id).map _) fun e => ?_
        split
        · exact restores_ret _
        · exact restores_raise _
      refine hone.bind fun o => ?_
      cases o with
      | none => exact ih _
      | some i =>
          dsimp only
          split
          · exact ih _
          · exact ih _

end Sales

section Settlements

variable (hrows : Rows K.invoice A) (h : ∀ t, K.entry (.x402 t))
include hrows

theorem keeps_invoiceOf (requirements : X402Service.PaymentRequirements) (log : BillingLog) :
    Keeps (allows K) A (fun o _ => ∀ i, o = .ok (some i) → K.invoice i) (X402Service.invoiceOf requirements) log := by
  unfold X402Service.invoiceOf
  split
  · simp [Keeps]
  · refine keeps_bind.2 ((keeps_invoice hrows requirements.invoice log).mono fun o log h => ?_)
    cases o with
    | error e => simp
    | ok found =>
        cases found with
        | none => simp [Keeps]
        | some i =>
            refine keeps_perform_bind.2 ⟨trivial, fun a _ => ?_⟩
            cases a with
            | error e => simp
            | ok now =>
                dsimp only
                split
                · exact h
                · simp [Keeps]

include h

theorem writes_settle (payload : X402Service.PaymentPayload) (requirements : X402Service.PaymentRequirements) :
    Writes K A (X402Service.settle g payload requirements) := by
  have hverify : Writes K A (X402Service.verify g payload requirements) := by
    unfold X402Service.verify
    split
    · exact restores_ret _
    · split
      · exact restores_ret _
      · split
        · exact restores_ret _
        · refine writes_read_bind (keeps_invoiceOf hrows requirements) fun found _ => ?_
          cases found with
          | none => exact restores_ret _
          | some i => exact writes_ask trivial
  refine hverify.bind fun verified => ?_
  split
  · exact restores_ret _
  · refine writes_ask_bind trivial fun result => ?_
    split
    · exact restores_ret _
    · refine writes_read_bind (keeps_invoiceOf hrows requirements) fun found hfound => ?_
      cases found with
      | none => exact restores_ret _
      | some i =>
          refine writes_ask_bind (hrows.paid i _ _ (hfound i rfl)) fun _ => ?_
          exact (writes_credit _ _ _ _ _ (h _)).bind fun _ => restores_ret _

theorem writes_redeem (payload : Except Error X402Service.PaymentPayload) (resource : String) :
    Writes K A (X402Service.redeem g payload resource) := by
  refine (restores_ofExcept _).bind fun payload => ?_
  have hnamed : Writes K A (X402Service.namedInvoice payload) := by
    unfold X402Service.namedInvoice
    split
    · exact restores_ret _
    · exact writes_ask trivial
  refine hnamed.bind fun i => ?_
  cases i with
  | none => exact restores_raise _
  | some i =>
      refine (writes_settle hrows h payload _).bind fun result => ?_
      split
      · exact restores_raise _
      · exact restores_ret _

end Settlements

def Permits (K : Scope) (A : Answers) (g : Gateway) : Request → Prop
  | .checkout account sku asset => Writes K A (BillingService.checkout g account sku asset)
  | .requirements account resource price => Writes K A (X402Service.requirements g account resource price)
  | .confirm _ | .reconcile _ => Rows K.invoice A ∧ Standing g K.subscription ∧ ∀ id, K.entry (.invoice id)
  | .settle .. | .redeem .. => Rows K.invoice A ∧ ∀ t, K.entry (.x402 t)
  | .credit _ _ _ reference _ _ => K.entry reference
  | .charge _ runId _ => K.entry (.run runId)
  | .settlePeriod _ | .authorize .. => Periodic K.entry ∧ Standing g K.subscription

theorem writes_body {q : Request} (h : Permits K A g q) : Writes K A (body g q) := by
  cases q with
  | checkout account sku asset => exact Restores.map h _
  | confirm id => exact (writes_confirm h.1 h.2.1 h.2.2 id).map _
  | reconcile limit =>
      have hsweep : Writes K A (BillingService.reconcile g limit) :=
        writes_ask_bind trivial fun invoices => writes_sweep h.1 h.2.1 h.2.2 [] invoices
      exact hsweep.map _
  | requirements account resource price => exact Restores.map h _
  | settle payload requirements => exact (writes_settle h.1 h.2 payload requirements).map _
  | redeem payload resource => exact (writes_redeem h.1 h.2 payload resource).map _
  | credit account tokens kind reference amount memo => exact (writes_credit _ _ _ _ _ h).map _
  | charge account runId usage => exact (writes_charge _ _ _ h).map _
  | settlePeriod account => exact (writes_settlePeriod h.1 h.2 account).map _
  | authorize account needed => exact (writes_authorize h.1 h.2 account needed).map _

section Issuing

theorem writes_issue (h : ∀ i, K.invoice i) (account asset : String) (product : Product) (kind : String) :
    Writes K A (BillingService.checkout.issue g account asset product kind) := by
  unfold BillingService.checkout.issue
  split
  · exact restores_raise _
  · refine writes_ask_bind trivial fun now => writes_ask_bind trivial fun id => ?_
    exact writes_ask_bind trivial fun amount => writes_ask (h _)

theorem writes_checkout (h : ∀ i, K.invoice i) (account sku asset : String) :
    Writes K A (BillingService.checkout g account sku asset) := by
  refine (restores_ofExcept _).bind fun product => ?_
  cases product with
  | pack p => exact writes_issue h _ _ _ _
  | plan p =>
      dsimp only
      split
      · exact restores_raise _
      · split
        · exact restores_raise _
        · exact writes_issue h _ _ _ _

theorem writes_requirements (h : ∀ i, K.invoice i) (account resource : String) (price : Option Money) :
    Writes K A (X402Service.requirements g account resource price) := by
  refine writes_ask_bind trivial fun now => writes_ask_bind trivial fun id => ?_
  exact writes_ask_bind trivial fun quote => writes_ask_bind (h _) fun i => restores_ret _

end Issuing

section Appends

variable {P : Reference → Prop}

def Appends {α : Type} (P : Reference → Prop) (p : Billing α) : Prop := Writes { entry := P } anyAnswer p

theorem rows_any : Rows (fun _ => True) anyAnswer := by
  constructor <;> intros <;> trivial

theorem standing_any : Standing g fun _ => True := by
  constructor <;> intros <;> trivial

theorem appends_authorize (h : Periodic P) (account : String) (needed : Int) :
    Appends P (BillingService.authorize g account needed) :=
  writes_authorize h standing_any account needed

def Refers (P : Reference → Prop) : Request → Prop
  | .checkout .. | .requirements .. => True
  | .confirm _ | .reconcile _ => ∀ id, P (.invoice id)
  | .settle .. | .redeem .. => ∀ t, P (.x402 t)
  | .credit _ _ _ reference _ _ => P reference
  | .charge _ runId _ => P (.run runId)
  | .settlePeriod _ | .authorize .. => Periodic P

theorem appends_body {q : Request} (h : Refers P q) : Appends P (body g q) := by
  apply writes_body
  cases q with
  | checkout account sku asset => exact writes_checkout (fun _ => trivial) account sku asset
  | requirements account resource price => exact writes_requirements (fun _ => trivial) account resource price
  | confirm | reconcile => exact ⟨rows_any, standing_any, h⟩
  | settle | redeem => exact ⟨rows_any, h⟩
  | settlePeriod | authorize => exact ⟨h, standing_any⟩
  | credit | charge => exact h

end Appends

end CodeZard.References
