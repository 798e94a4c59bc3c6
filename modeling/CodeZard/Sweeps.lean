import CodeZard.Histories
import CodeZard.References
import CodeZard.Sales

namespace CodeZard.Sweeps

open Amounts Products Ledgers Periods Invoices Storage Programs Ports Interleaving Histories Requests BillingService

/-- What `payment_for` answers, or raises, for each invoice. -/
abbrev Network := Invoice → Except Error (Option ObservedPayment)

def replyOf : Except Error (Option ObservedPayment) → Reply
  | .ok payment => .payment payment
  | .error e => .raised e

/-- The network answers as it does, nothing else that is asked raises, and no
entry id is handed out twice. -/
def Answers (network : Network) (w : World) : Call → Reply → Prop
  | .paymentFor i, r => r = replyOf (network i)
  | .append e, r => r = .done ∧ ∀ x ∈ w.store.ledger, x.id ≠ e.id
  | _, .raised _ => False
  | _, _ => True

instance (network : Network) (w : World) (c : Call) (r : Reply) : Decidable (Answers network w c r) := by
  unfold Answers
  split <;> infer_instance

def answering (network : Network) : Step Call Call.Answer Error World Reply := restrict (Answers network) World.step

section Steps

variable {network : Network} {w w' : World} {r : Reply}

theorem step_of_answering {c : Call} {a : Except Error c.Answer} (h : answering network w c r = some (a, w'))
    (hc : ∀ i, c ≠ .paymentFor i) : w.step c r = some (a, w') ∧ ∀ e, r ≠ .raised e := by
  obtain ⟨hrule, hs⟩ := restrict_eq_some.1 h
  refine ⟨hs, ?_⟩
  rintro e rfl
  cases c with
  | paymentFor i => exact hc i rfl
  | append e' => cases hrule.1
  | _ => exact hrule

theorem answering_paymentFor {i : Invoice} {a : Except Error (Option ObservedPayment)}
    (h : answering network w (.paymentFor i) r = some (a, w')) : a = network i ∧ w = w' := by
  obtain ⟨hrule, hs⟩ := restrict_eq_some.1 h
  obtain rfl : r = replyOf (network i) := hrule
  cases hn : network i with
  | ok p =>
      rw [hn] at hs
      cases hs
      exact ⟨rfl, rfl⟩
  | error e =>
      rw [hn] at hs
      cases hs
      exact ⟨rfl, rfl⟩

theorem answering_now {a : Except Error Datetime} (h : answering network w .now r = some (a, w')) :
    ∃ t, w.clock ≤ t ∧ a = .ok t ∧ w' = { w with clock := t } := by
  obtain ⟨t, _, hle, ha, hw⟩ := step_now (step_of_answering h (by simp)).1
  exact ⟨t, hle, ha, hw⟩

theorem answering_invoice {id : String} {a : Except Error (Option Invoice)}
    (h : answering network w (.invoice id) r = some (a, w')) : a = .ok (w.store.invoice id) ∧ w = w' := by
  obtain ⟨hs, hr⟩ := step_of_answering h (by simp)
  obtain ⟨hw, ha | ⟨x, hx, _⟩⟩ := step_invoice hs
  · exact ⟨ha, hw.symm⟩
  · exact absurd hx (hr x)

theorem answering_openInvoices {limit : Int} {a : Except Error (List Invoice)}
    (h : answering network w (.openInvoices limit) r = some (a, w')) :
    a = .ok (w.store.openInvoices limit) ∧ w = w' := by
  obtain ⟨hs, hr⟩ := step_of_answering h (by simp)
  cases r with
  | raised x => exact absurd rfl (hr x)
  | done => cases hs; exact ⟨rfl, rfl⟩
  | _ => cases hs

theorem answering_putInvoice {i : Invoice} {a : Except Error Invoice}
    (h : answering network w (.putInvoice i) r = some (a, w')) :
    a = .ok i ∧ w' = { w with store := w.store.putInvoice i } := by
  obtain ⟨hs, hr⟩ := step_of_answering h (by simp)
  rcases step_putInvoice hs with ⟨x, hx, _⟩ | ⟨_, ha, hw⟩
  · exact absurd hx (hr x)
  · exact ⟨ha, hw⟩

theorem answering_entryId {a : Except Error String} (h : answering network w .entryId r = some (a, w')) :
    (∃ id, a = .ok id) ∧ w = w' := by
  obtain ⟨hw, ha⟩ := step_entryId (step_of_answering h (by simp)).1
  exact ⟨ha, hw.symm⟩

theorem answering_subscription {account : String} {a : Except Error (Option Subscription)}
    (h : answering network w (.subscription account) r = some (a, w')) :
    a = .ok (w.store.subscription account) ∧ w = w' := by
  obtain ⟨hs, hr⟩ := step_of_answering h (by simp)
  obtain ⟨hw, ha | ⟨x, hx, _⟩⟩ := step_subscription hs
  · exact ⟨ha, hw.symm⟩
  · exact absurd hx (hr x)

theorem answering_putSubscription {s : Subscription} {a : Except Error Subscription}
    (h : answering network w (.putSubscription s) r = some (a, w')) :
    a = .ok s ∧ w' = { w with store := w.store.putSubscription s } := by
  obtain ⟨hs, hr⟩ := step_of_answering h (by simp)
  rcases step_putSubscription hs with ⟨x, hx, _⟩ | ⟨_, ha, hw⟩
  · exact absurd hx (hr x)
  · exact ⟨ha, hw⟩

theorem answering_append {e : LedgerEntry} {a : Except Error LedgerEntry}
    (h : answering network w (.append e) r = some (a, w')) :
    w' = { w with store := (w.store.append e).2 } ∧ ∃ x, a = .ok x ∧ x.reference = e.reference ∧
      x ∈ w'.store.ledger ∧ (x ∈ w.store.ledger ∨ x = e) := by
  obtain ⟨⟨rfl, hid⟩, hs⟩ := restrict_eq_some.1 h
  cases hs
  obtain ⟨x, hx, ha, href, hor⟩ := Store.append_fresh hid
  exact ⟨rfl, x, ha, href, hx, hor⟩

theorem always_ask_bind {α : Type} {c : Call} {f : c.Answer → Billing α} {post : Except Error α → World → Prop}
    {w : World} (hok : ∀ r b w', answering network w c r = some (.ok b, w') → Always (answering network) post (f b) w')
    (herr : ∀ r e w', answering network w c r = some (.error e, w') → post (.error e) w') :
    Always (answering network) post ((ask c).bind f) w := by
  apply always_bind.2
  apply always_perform.2
  intro r a w' hs
  cases a with
  | ok b => exact hok r b w' hs
  | error e => exact herr r e w' hs

theorem always_now_bind {α : Type} {f : Datetime → Billing α} {post : Except Error α → World → Prop} {w : World}
    (h : ∀ now, w.clock ≤ now → Always (answering network) post (f now) { w with clock := now }) :
    Always (answering network) post (nowUtc.bind f) w := by
  apply always_ask_bind
  · intro r now w' hs
    obtain ⟨t, hclock, ht, rfl⟩ := answering_now hs
    cases ht
    exact h now hclock
  · intro r e w' hs
    obtain ⟨t, _, ht, _⟩ := answering_now hs
    cases ht

end Steps

/-- The status of an invoice after `confirm` was called for it, which looked at
the clock then if it had to. -/
def leaves (network : Network) (i : Invoice) (now : Datetime) : InvoiceStatus :=
  if i.status = .paid then .paid
  else match network i with
    | .ok none => if i.isOpen now then i.status else .expired
    | .ok (some payment) => if payment.settles i = .ok true then .paid else i.status
    | .error _ => i.status

def statusOf (w : World) (id : String) : Option InvoiceStatus := (w.store.invoice id).map Invoice.status

/-- The account is on the plan of an invoice, for a period that began after `now`. -/
def OnPlan (g : Gateway) (now : Datetime) (i : Invoice) (w : World) : Prop :=
  ∃ plan s, g.catalog.product i.sku = .ok (.plan plan) ∧ w.store.subscription i.account = some s ∧
    s.planId = plan.id ∧ s.status = .active ∧ now + plan.period ≤ s.renewsAt

/-- What calls of `confirm` for some invoices may have done: they write these
invoices, credit them, and begin the subscriptions that they buy. -/
structure Swept (g : Gateway) (invoices : List Invoice) (w w' : World) : Prop where
  clock : w.clock ≤ w'.clock
  others : ∀ id, (∀ k ∈ invoices, k.id ≠ id) → w'.store.invoice id = w.store.invoice id
  kept : ∀ e ∈ w.store.ledger, e ∈ w'.store.ledger
  added : ∀ e ∈ w'.store.ledger, e ∈ w.store.ledger ∨ 0 ≤ e.tokens ∧ ∃ k ∈ invoices, e.reference = .invoice k.id
  rows : ∀ account, w'.store.subscription account = w.store.subscription account ∨
    ∃ k ∈ invoices, k.account = account ∧ OnPlan g w.clock k w'

def kindOf : Product → EntryKind
  | .plan _ => .grant
  | .pack _ => .purchase

/-- The entry that an invoice for a product buys. -/
structure Buys (product : Product) (i : Invoice) (e : LedgerEntry) : Prop where
  account : e.account = i.account
  kind : e.kind = kindOf product
  tokens : e.tokens = i.tokens
  reference : e.reference = .invoice i.id
  amount : e.amount = i.price

section Frames

variable {g : Gateway} {network : Network} {ks ls : List Invoice} {u v w : World}

theorem OnPlan.mono {s t : Datetime} {i : Invoice} (h : OnPlan g t i w) (hst : s ≤ t) : OnPlan g s i w := by
  obtain ⟨plan, r, hp, hr, hid, hact, hend⟩ := h
  exact ⟨plan, r, hp, hr, hid, hact, le_trans (Int.add_le_add_right hst _) hend⟩

theorem Swept.refl (w : World) : Swept g ks w w where
  clock := le_rfl
  others _ _ := rfl
  kept _ he := he
  added _ he := .inl he
  rows _ := .inl rfl

theorem Swept.trans (h : Swept g ks u v) (h' : Swept g ls v w) : Swept g (ks ++ ls) u w where
  clock := le_trans h.clock h'.clock
  others id hid := by
    rw [h'.others id fun k hk => hid k (List.mem_append_right _ hk),
      h.others id fun k hk => hid k (List.mem_append_left _ hk)]
  kept e he := h'.kept e (h.kept e he)
  added e he := by
    rcases h'.added e he with he | ⟨ht, k, hk, hr⟩
    · rcases h.added e he with he | ⟨ht, k, hk, hr⟩
      · exact .inl he
      · exact .inr ⟨ht, k, List.mem_append_left _ hk, hr⟩
    · exact .inr ⟨ht, k, List.mem_append_right _ hk, hr⟩
  rows account := by
    rcases h'.rows account with hr | ⟨k, hk, ha, hp⟩
    · rcases h.rows account with hr' | ⟨k, hk, ha, hp⟩
      · exact .inl (hr.trans hr')
      · refine .inr ⟨k, List.mem_append_left _ hk, ha, ?_⟩
        obtain ⟨plan, s, hplan, hs, hrest⟩ := hp
        subst ha
        exact ⟨plan, s, hplan, hr.trans hs, hrest⟩
    · exact .inr ⟨k, List.mem_append_right _ hk, ha, hp.mono h.clock⟩

theorem product_error {sku : String} {e : Error} (h : g.catalog.product sku = .error e) : e.isException = true := by
  unfold Catalog.product at h
  split at h
  · cases h
  · cases h
    rfl

/-- What paying an invoice buys: the entry, or one that has its reference, and
the subscription if it was a plan. -/
def Bought (g : Gateway) (i : Invoice) (w w' : World) : Prop :=
  ∃ product, g.catalog.product i.sku = .ok product ∧
    (∃ e ∈ w'.store.ledger, e.reference = .invoice i.id ∧ (e ∈ w.store.ledger ∨ Buys product i e)) ∧
    ∀ plan, product = .plan plan → OnPlan g w.clock i w'

theorem Swept.mono (h : Swept g ks u v) (hk : ∀ k ∈ ks, k ∈ ls) : Swept g ls u v where
  clock := h.clock
  others id hid := h.others id fun k hm => hid k (hk k hm)
  kept := h.kept
  added e he := (h.added e he).imp_right fun hr => ⟨hr.1, hr.2.imp fun k hm => ⟨hk k hm.1, hm.2⟩⟩
  rows account := (h.rows account).imp_right (Exists.imp fun k hm => ⟨hk k hm.1, hm.2⟩)

theorem always_credit {i : Invoice} (product : Product) (memo : String) (ht : 0 ≤ i.tokens) (w : World) :
    Always (answering network) (fun o v => o.isOk = true ∧ v.store.subscriptions = w.store.subscriptions ∧
        v.store.invoices = w.store.invoices ∧ Swept g [i] w v ∧
        ∃ e ∈ v.store.ledger, e.reference = .invoice i.id ∧ (e ∈ w.store.ledger ∨ Buys product i e))
      (credit i.account i.tokens (kindOf product) (.invoice i.id) i.price memo) w := by
  unfold credit
  rw [if_neg (not_lt.2 ht)]
  apply always_ask_bind
  swap
  · intro r e w' hs
    obtain ⟨⟨id, hid⟩, _⟩ := answering_entryId hs
    cases hid
  intro r id w' hs
  obtain ⟨_, rfl⟩ := answering_entryId hs
  apply always_now_bind
  intro now hclock
  apply always_perform.2
  intro r a v hs
  obtain ⟨rfl, x, rfl, href, hx, hor⟩ := answering_append hs
  refine ⟨rfl, Store.append_subscriptions _ _, Store.append_invoices _ _, ?_, x, hx, href, ?_⟩
  · constructor
    · exact hclock
    · intro id _
      exact Store.invoice_append _ _ id
    · intro e he
      exact (Store.ledger_prefix_append _ _).subset he
    · intro e he
      apply (Store.mem_append_ledger he).imp_right
      rintro rfl
      exact ⟨ht, i, List.mem_singleton_self i, rfl⟩
    · intro account
      exact .inl (Store.subscription_append _ _ account)
  · apply hor.imp_right
    rintro rfl
    exact ⟨rfl, rfl, rfl, rfl, rfl⟩

theorem always_subscribe {i : Invoice} {plan : Plan} (hp : g.catalog.product i.sku = .ok (.plan plan)) (w : World) :
    Always (answering network) (fun o v => o.isOk = true ∧ v.store.invoices = w.store.invoices ∧
        v.store.ledger = w.store.ledger ∧ Swept g [i] w v ∧ OnPlan g w.clock i v)
      (subscribe i.account plan) w := by
  apply always_now_bind
  intro now hclock
  apply always_ask_bind
  swap
  · intro r e w' hs
    cases (answering_subscription hs).1
  intro r current w' hs
  obtain ⟨hcurrent, rfl⟩ := answering_subscription hs
  cases hcurrent
  have hput (s : Subscription) (ha : s.account = i.account) (hid : s.planId = plan.id) (hact : s.status = .active)
      (hend : s.renewsAt = now + plan.period) :
      Always (answering network) (fun o v => o.isOk = true ∧ v.store.invoices = w.store.invoices ∧
        v.store.ledger = w.store.ledger ∧ Swept g [i] w v ∧ OnPlan g w.clock i v)
      (store.putSubscription s) { w with clock := now } := by
    apply always_perform.2
    intro r a v hs
    obtain ⟨rfl, rfl⟩ := answering_putSubscription hs
    have hplan : OnPlan g w.clock i { store := w.store.putSubscription s, clock := now } := by
      refine ⟨plan, s, hp, ?_, hid, hact, ?_⟩
      · rw [← ha]
        exact Store.subscription_put _ _
      · rw [hend]
        exact Int.add_le_add_right hclock _
    refine ⟨rfl, rfl, rfl, ⟨hclock, fun _ _ => rfl, fun _ he => he, fun _ he => .inl he, fun account => ?_⟩, hplan⟩
    by_cases hacc : s.account = account
    · exact .inr ⟨i, List.mem_singleton_self i, ha.symm.trans hacc, hplan⟩
    · exact .inl (Store.subscription_put_of_ne hacc)
  dsimp only
  cases hs : w.store.subscription i.account with
  | none => exact hput _ rfl rfl rfl rfl
  | some s =>
      have ha : s.account = i.account := Store.subscription_account hs
      dsimp only
      by_cases hid : s.planId = plan.id
      · rw [if_pos hid]
        exact hput _ ha hid rfl rfl
      · rw [if_neg hid]
        exact hput _ rfl rfl rfl rfl

theorem always_deliver (i : Invoice) (w : World) :
    Always (answering network) (fun o v => (∀ e, o = .error e → e.isException = true) ∧
        v.store.invoices = w.store.invoices ∧ Swept g [i] w v ∧
        (0 ≤ i.tokens → Sales.sold g i = true → Bought g i w v))
      (deliver g i) w := by
  unfold deliver
  cases hp : g.catalog.product i.sku with
  | error e =>
      refine ⟨?_, rfl, Swept.refl w, ?_⟩
      · rintro e' ⟨⟩
        exact product_error hp
      · intro _ hs
        rw [Sales.sold, hp] at hs
        cases hs
  | ok product =>
      rw [ofExcept_ok, bind_eq, ret_bind]
      dsimp only
      by_cases ht : 0 ≤ i.tokens
      · cases product with
        | pack pack =>
            apply always_bind.2
            apply (always_credit (.pack pack) _ ht w).mono
            rintro o v ⟨hok, _, hinvoices, hswept, hentry⟩
            cases o with
            | error e => cases hok
            | ok x => exact ⟨by simp, hinvoices, hswept, fun _ _ => ⟨.pack pack, hp, hentry, by simp⟩⟩
        | plan plan =>
            apply always_bind.2
            apply (always_credit (.plan plan) _ ht w).mono
            rintro o v ⟨hok, _, hinvoices, hswept, hentry⟩
            cases o with
            | error e => cases hok
            | ok x =>
                apply always_bind.2
                apply (always_subscribe hp v).mono
                rintro o v' ⟨hok', hinvoices', hledger, hswept', hplan⟩
                cases o with
                | error e => cases hok'
                | ok s =>
                    refine ⟨by simp, hinvoices'.trans hinvoices, (hswept.trans hswept').mono (by simp), fun _ _ => ?_⟩
                    refine ⟨.plan plan, hp, ?_, fun _ _ => hplan.mono hswept.clock⟩
                    rwa [hledger]
      · have hcredit (kind : EntryKind) (memo : String) :
            credit i.account i.tokens kind (.invoice i.id) i.price memo =
              .raise (.billing "a credit cannot be negative; use a debit") := by
          unfold credit
          rw [if_pos (not_le.1 ht)]
        have hraised (o : Except Error Unit) (ho : o = .error (.billing "a credit cannot be negative; use a debit")) :
            (∀ e, o = .error e → e.isException = true) ∧ w.store.invoices = w.store.invoices ∧ Swept g [i] w w ∧
              (0 ≤ i.tokens → Sales.sold g i = true → Bought g i w w) := by
          refine ⟨?_, rfl, Swept.refl w, fun h => absurd h ht⟩
          rintro e rfl
          cases ho
          rfl
        cases product with
        | pack pack =>
            simp only [hcredit]
            exact hraised _ rfl
        | plan plan =>
            simp only [hcredit]
            exact hraised _ rfl

theorem swept_putInvoice (i j : Invoice) (hid : j.id = i.id) (w : World) :
    Swept g [i] w { w with store := w.store.putInvoice j } where
  clock := le_rfl
  others _ h := Store.invoice_putInvoice_of_ne (hid ▸ h i (List.mem_singleton_self i))
  kept _ he := he
  added _ he := .inl he
  rows _ := .inl rfl

theorem Swept.of_paid {i : Invoice} {txHash payer : String} (h : Swept g [i.paid txHash payer] u v) : Swept g [i] u v where
  clock := h.clock
  others _ hid := h.others _ fun k hk => by
    obtain rfl := List.mem_singleton.1 hk
    exact hid i (List.mem_singleton_self i)
  kept := h.kept
  added e he := by
    apply (h.added e he).imp_right
    rintro ⟨ht, k, hk, hr⟩
    obtain rfl := List.mem_singleton.1 hk
    exact ⟨ht, i, List.mem_singleton_self i, hr⟩
  rows account := by
    apply (h.rows account).imp_right
    rintro ⟨k, hk, ha, hp⟩
    obtain rfl := List.mem_singleton.1 hk
    exact ⟨i, List.mem_singleton_self i, ha, hp⟩

theorem Bought.of_paid {i : Invoice} {txHash payer : String} (h : Bought g (i.paid txHash payer) u v) : Bought g i u v := by
  obtain ⟨product, hp, ⟨e, he, href, hor⟩, hplan⟩ := h
  refine ⟨product, hp, ⟨e, he, href, hor.imp_right fun hb => ?_⟩, hplan⟩
  exact ⟨hb.account, hb.kind, hb.tokens, hb.reference, hb.amount⟩

theorem statusOf_putInvoice (w : World) (i : Invoice) :
    statusOf { w with store := w.store.putInvoice i } i.id = some i.status := by
  simp only [statusOf, Store.invoice_putInvoice_self]
  cases w.store.invoice i.id <;> rfl

/-- All that `confirm` does for an invoice that is there. -/
structure Confirmed (g : Gateway) (network : Network) (i : Invoice) (w w' : World) (o : Except Error Invoice) :
    Prop where
  exception : ∀ e, o = .error e → e.isException = true
  swept : Swept g [i] w w'
  status : ∃ now, w.clock ≤ now ∧ statusOf w' i.id = some (leaves network i now)
  bought : ∀ p, i.status ≠ .paid → network i = .ok (some p) → p.settles i = .ok true → 0 ≤ i.tokens →
    Sales.sold g i = true → Bought g i w w'

theorem confirmed_unchanged {i : Invoice} {o : Except Error Invoice} (hi : w.store.invoice i.id = some i)
    (hstore : v.store = w.store) (hclock : w.clock ≤ v.clock) (hl : leaves network i v.clock = i.status)
    (ho : ∀ e, o = .error e → e.isException = true)
    (hb : ∀ p, i.status ≠ .paid → network i = .ok (some p) → p.settles i ≠ .ok true) : Confirmed g network i w v o where
  exception := ho
  swept := by
    constructor
    · exact hclock
    · simp [hstore]
    · simp [hstore]
    · rw [hstore]
      exact fun e he => .inl he
    · simp [hstore]
  status := ⟨v.clock, hclock, by simp [statusOf, hstore, hi, hl]⟩
  bought p hp hn hs := absurd hs (hb p hp hn)

theorem always_paid {i : Invoice} {p : ObservedPayment} (hpaid : i.status ≠ .paid) (hn : network i = .ok (some p))
    (hset : p.settles i = .ok true) (w : World) :
    Always (answering network) (fun o v => Confirmed g network i w v o)
      ((store.putInvoice (i.paid p.txHash p.payer)).bind fun paid => (deliver g paid).bind fun _ => .ret paid) w := by
  apply always_ask_bind
  swap
  · intro r e w' hs
    cases (answering_putInvoice hs).1
  intro r paid w' hs
  obtain ⟨hp, rfl⟩ := answering_putInvoice hs
  cases hp
  apply always_bind.2
  apply (always_deliver (i.paid p.txHash p.payer) _).mono
  rintro o v ⟨ho, hinvoices, hswept, hbought⟩
  have hput : Swept g [i] w { w with store := w.store.putInvoice (i.paid p.txHash p.payer) } :=
    swept_putInvoice i (i.paid p.txHash p.payer) rfl w
  have hstatus : statusOf v i.id = some (leaves network i w.clock) := by
    have hsame : statusOf v i.id = statusOf { w with store := w.store.putInvoice (i.paid p.txHash p.payer) } i.id := by
      simp only [statusOf, Store.invoice, hinvoices]
    have hmarked : leaves network i w.clock = .paid := by simp [leaves, hpaid, hn, hset]
    rw [hsame, hmarked]
    exact statusOf_putInvoice w (i.paid p.txHash p.payer)
  have hdone (o : Except Error Invoice) (ho : ∀ e, o = .error e → e.isException = true) : Confirmed g network i w v o :=
    ⟨ho, (hput.trans hswept.of_paid).mono (by simp), ⟨w.clock, le_rfl, hstatus⟩,
      fun _ _ _ _ ht hsold => (hbought ht hsold).of_paid⟩
  cases o with
  | error e => exact hdone _ fun e' he => ho e' (by cases he; rfl)
  | ok u => exact hdone _ (by simp)

theorem always_confirm {id : String} {i : Invoice} (hi : w.store.invoice id = some i)
    (hfail : ∀ e, network i = .error e → e.isException = true) :
    Always (answering network) (fun o v => Confirmed g network i w v o) (confirm g id) w := by
  obtain rfl : i.id = id := Store.invoice_id hi
  apply always_ask_bind
  swap
  · intro r e w' hs
    cases (answering_invoice hs).1
  intro r found w' hs
  obtain ⟨hfound, rfl⟩ := answering_invoice hs
  rw [hi] at hfound
  cases hfound
  dsimp only
  by_cases hpaid : i.status = .paid
  · rw [if_pos hpaid]
    exact confirmed_unchanged hi rfl le_rfl (by simp [leaves, hpaid]) (by simp) fun p hp => absurd hpaid hp
  rw [if_neg hpaid]
  apply always_ask_bind
  swap
  · intro r e w' hs
    obtain ⟨hn, rfl⟩ := answering_paymentFor hs
    apply confirmed_unchanged hi rfl le_rfl
    · simp [leaves, hpaid, ← hn]
    · rintro e' ⟨⟩
      exact hfail e hn.symm
    · simp [← hn]
  intro r payment w' hs
  obtain ⟨hn, rfl⟩ := answering_paymentFor hs
  cases payment with
  | none =>
      apply always_now_bind
      intro now hclock
      have hunsettled (p : ObservedPayment) (hp : network i = .ok (some p)) : p.settles i ≠ .ok true := by
        rw [← hn] at hp
        cases hp
      by_cases hopen : i.isOpen now = true
      · rw [if_pos hopen]
        exact confirmed_unchanged hi rfl hclock (by simp [leaves, hpaid, ← hn, hopen]) (by simp) fun p _ => hunsettled p
      · rw [if_neg hopen]
        apply always_perform.2
        intro r a v hs
        obtain ⟨rfl, rfl⟩ := answering_putInvoice hs
        have hclocked : Swept g [i] w { w with clock := now } :=
          ⟨hclock, fun _ _ => rfl, fun _ he => he, fun _ he => .inl he, fun _ => .inl rfl⟩
        have hput : Swept g [i] { w with clock := now } { store := w.store.putInvoice i.expired, clock := now } :=
          swept_putInvoice i i.expired rfl { w with clock := now }
        have hexpired : leaves network i now = .expired := by simp [leaves, hpaid, ← hn, hopen]
        refine ⟨by simp, (hclocked.trans hput).mono (by simp), ⟨now, hclock, ?_⟩, fun p _ hp hs => ?_⟩
        · rw [hexpired]
          exact statusOf_putInvoice { w with clock := now } i.expired
        · exact absurd hs (hunsettled p hp)
  | some p =>
      have hother (p' : ObservedPayment) (hp : network i = .ok (some p')) : p' = p := by
        rw [← hn] at hp
        cases hp
        rfl
      cases hset : p.settles i with
      | error e =>
          simp only [hset, ofExcept_error, bind_eq, raise_bind]
          apply confirmed_unchanged hi rfl le_rfl
          · simp [leaves, hpaid, ← hn, hset]
          · rintro e' ⟨⟩
            exact ObservedPayment.settles_error hset
          · intro p' _ hp
            rw [hother p' hp, hset]
            simp
      | ok settled =>
          simp only [hset, ofExcept_ok, bind_eq, ret_bind]
          cases settled with
          | true => exact always_paid hpaid hn.symm hset w
          | false =>
              apply confirmed_unchanged hi rfl le_rfl
              · simp [leaves, hpaid, ← hn, hset]
              · simp
              · intro p' _ hp
                rw [hother p' hp, hset]
                simp

end Frames

/-- An invoice past its window is written off unless it is open to a payment
that does not settle it: it stays as it is then, however late it gets. -/
theorem written_off_iff {g : Gateway} {network : Network} {w w' : World} {id : String} {i : Invoice} {rs : List Reply}
    {o : Except Error Invoice} {answer : Option ObservedPayment} (hi : w.store.invoice id = some i)
    (hlate : i.expiresAt ≤ w.clock) (hanswer : network i = .ok answer)
    (he : exec (answering network) (confirm g id) w rs = some (o, w')) :
    (∃ j, w'.store.invoice id = some j ∧ (j.status = .paid ∨ j.status = .expired)) ↔
      i.status = .paid ∨ i.status = .expired ∨ ∀ p, answer = some p → p.settles i = .ok true := by
  obtain rfl : i.id = id := Store.invoice_id hi
  have hc := (always_confirm (g := g) hi (by simp [hanswer])).exec he
  obtain ⟨now, hclock, hstatus⟩ := hc.status
  have hclosed : i.isOpen now = false := by
    rw [Invoice.isOpen, decide_eq_false (not_lt.2 (le_trans hlate hclock)), Bool.and_false]
  have hleft : (∃ j, w'.store.invoice i.id = some j ∧ (j.status = .paid ∨ j.status = .expired)) ↔
      leaves network i now = .paid ∨ leaves network i now = .expired := by
    obtain ⟨j, hj, hs⟩ := Option.map_eq_some_iff.1 hstatus
    simp [hj, hs]
  rw [hleft, leaves, hanswer]
  by_cases hpaid : i.status = .paid
  · simp [hpaid]
  · cases answer with
    | none => simp [hpaid, hclosed]
    | some p => by_cases hset : p.settles i = .ok true <;> simp [hpaid, hset]

def shop : Gateway := { catalog := defaultCatalog, destination := "GDEST", price := ⟨500000⟩ }

def order : Invoice where
  id := "cz1"
  account := "A"
  sku := "tokens-1m"
  tokens := 1000000
  price := .usd 8
  asset := "XLM"
  amount := "80.0000000"
  destination := "GDEST"
  createdAt := 0
  expiresAt := INVOICE_TTL

def payment (id amount : String) : ObservedPayment := ⟨"t-" ++ id, "GPAYER", "GDEST", "XLM", amount, id, 1⟩

/-- Each invoice has the one payment of its memo, if somebody has sent it. -/
def sent (amounts : List (String × String)) : Network := fun i =>
  .ok ((amounts.lookup i.id).map (payment i.id))

theorem written_off_unpaid : ∃ w', exec (answering (sent [])) (confirm shop "cz1") ⟨{ invoices := [order] }, INVOICE_TTL⟩
      [.done, .payment none, .time INVOICE_TTL, .done] = some (.ok order.expired, w') ∧
    ∃ j, w'.store.invoice "cz1" = some j ∧ (j.status = .paid ∨ j.status = .expired) := by
  have he : exec (answering (sent [])) (confirm shop "cz1") ⟨{ invoices := [order] }, INVOICE_TTL⟩
      [.done, .payment none, .time INVOICE_TTL, .done] =
        some (.ok order.expired, ⟨{ invoices := [order.expired] }, INVOICE_TTL⟩) := rfl
  have hanswer : sent [] order = .ok none := rfl
  exact ⟨_, he, (written_off_iff (i := order) rfl le_rfl hanswer he).2 (by simp)⟩

def later : Invoice := { order with id := "cz2", createdAt := 1, expiresAt := 1 + INVOICE_TTL }

/-- Somebody sends one stroop with the memo of an invoice. Past its window it is
still open, and a sweep that looks at one invoice does not get to the next. -/
theorem open_under_dust : order.expiresAt ≤ (2 * INVOICE_TTL : Int) ∧
    (exec (answering (sent [("cz1", "0.0000001")])) (confirm shop "cz1") ⟨{ invoices := [order, later] }, 2 * INVOICE_TTL⟩
      [.done, .payment (some (payment "cz1" "0.0000001"))]).map (fun x => x.2.store) =
        some { invoices := [order, later] } ∧
    order.status = .pending ∧ Store.openInvoices { invoices := [order, later] } 1 = [order] := by
  decide +kernel

/-- The calls of `confirm` for some invoices, one after the other. -/
inductive Confirms (g : Gateway) (network : Network) : List Invoice → World → World → Prop
  | nil {w : World} : Confirms g network [] w w
  | cons {k : Invoice} {ks : List Invoice} {u v w : World} {o : Except Error Invoice} (h : Confirmed g network k u v o)
      (hs : Confirms g network ks v w) : Confirms g network (k :: ks) u w

section Reconcile

variable {g : Gateway} {network : Network} {ks pre post : List Invoice} {i : Invoice} {u v w w' : World}

theorem Confirms.swept (h : Confirms g network ks w w') : Swept g ks w w' := by
  induction h with
  | nil => exact Swept.refl _
  | cons h _ ih => exact h.swept.trans ih

theorem Confirms.split (h : Confirms g network (pre ++ i :: post) w w') :
    ∃ u v o, Swept g pre w u ∧ Confirmed g network i u v o ∧ Swept g post v w' := by
  induction pre generalizing w with
  | nil =>
      cases h with
      | cons h hs => exact ⟨w, _, _, Swept.refl w, h, hs.swept⟩
  | cons k pre ih =>
      cases h with
      | cons h hs =>
          obtain ⟨u, v, o, hpre, hi, hpost⟩ := ih hs
          exact ⟨u, v, o, h.swept.trans hpre, hi, hpost⟩

theorem always_sweep (hfail : ∀ j e, network j = .error e → e.isException = true)
    (hstored : ∀ k ∈ ks, w.store.invoice k.id = some k) (hids : (ks.map Invoice.id).Nodup) (settled : List Invoice) :
    Always (answering network) (fun _ v => Confirms g network ks w v) (sweep g settled ks) w := by
  induction ks generalizing w settled with
  | nil => exact .nil
  | cons k ks ih =>
      rw [List.map_cons, List.nodup_cons] at hids
      obtain ⟨hk, hids⟩ := hids
      have hrest {v : World} {o : Except Error Invoice} (h : Confirmed g network k w v o) (settled : List Invoice) :
          Always (answering network) (fun _ v => Confirms g network (k :: ks) w v) (sweep g settled ks) v := by
        apply (ih (fun j hj => ?_) hids settled).mono
        · exact fun _ v' hv => .cons h hv
        · rw [h.swept.others j.id fun k' hk' => ?_]
          · exact hstored j (List.mem_cons_of_mem _ hj)
          · obtain rfl := List.mem_singleton.1 hk'
            exact fun he => hk (he ▸ List.mem_map_of_mem hj)
      apply always_bind.2
      apply always_rescue.2
      apply always_bind.2
      apply (always_confirm (hstored k List.mem_cons_self) (hfail k)).mono
      intro o v h
      cases o with
      | ok confirmed =>
          show Always (answering network) _
            (if confirmed.status = .paid then sweep g (settled ++ [confirmed]) ks else sweep g settled ks) v
          split
          · exact hrest h _
          · exact hrest h _
      | error e =>
          simp only [h.exception e rfl, if_true, Always]
          exact hrest h _

theorem mem_openInvoices {s : Store} {limit : Int} {k : Invoice} (h : k ∈ s.openInvoices limit) :
    k ∈ s.invoices ∧ k.status = .pending := by
  have hm := (List.mem_insertionSort _).1 (List.mem_of_mem_take h)
  simpa using hm

theorem openInvoices_eq {s : Store} {limit : Int} (h : s.invoices.length ≤ limit) :
    s.openInvoices limit =
      (s.invoices.filter fun i => i.status = .pending).insertionSort fun i j => i.createdAt ≤ j.createdAt := by
  apply List.take_of_length_le
  have hfilter := List.length_filter_le (fun i => decide (i.status = .pending)) s.invoices
  rw [List.length_insertionSort]
  omega

end Reconcile

def Touched (w : World) (id : String) : Prop := ∃ j, w.store.invoice id = some j ∧ j.status ≠ .pending

def isInvoice : Reference → Bool
  | .invoice _ => true
  | _ => false

/-- A credit that is asked for by itself is not what an invoice buys. -/
def Serves : Request → Prop
  | .credit _ _ _ reference _ _ => isInvoice reference = false
  | _ => True

instance : DecidablePred Serves
  | .credit _ _ _ reference _ _ => inferInstanceAs (Decidable (isInvoice reference = false))
  | .checkout .. | .confirm _ | .reconcile _ | .requirements .. | .settle .. | .redeem .. | .charge .. | .settlePeriod _
  | .authorize .. => .isTrue trivial

/-- No invoice id is handed out twice. -/
def NewIds : Rule := fun w _ _ c _ => match c with
  | .putInvoice i => i.status = .pending → w.store.invoice i.id = none
  | _ => True

instance (w : World) (vs : List InProgress) (v : InProgress) (c : Call) (r : Reply) : Decidable (NewIds w vs v c r) := by
  dsimp only [NewIds]
  split <;> infer_instance

def guard (log : BillingLog) : Call → Prop
  | .append e => ∀ id, e.reference = .invoice id → ∃ k, Sales.debt log = some k ∧ k.id = id
  | _ => True

def notInvoice (x : Reference) : Prop := ∀ id, x ≠ .invoice id

theorem guard_of_allows {log : BillingLog} {c : Call} (h : References.allows { entry := notInvoice } log c) :
    guard log c := by
  cases c with
  | append e => exact fun id he => absurd he (h id)
  | _ => trivial

theorem guard_of_sales {g : Gateway} {q : Request} {log : BillingLog} {c : Call} (h : Sales.guard g q log c) :
    guard log c := by
  cases c with
  | append e =>
      intro id he
      obtain ⟨i, hd, _, hc⟩ := h
      refine ⟨i, hd, ?_⟩
      unfold Sales.Credits at hc
      split at hc
      · exact Reference.invoice.inj (hc.2.1.symm.trans he)
      · rw [hc.2] at he
        cases he
      · exact hc.elim
  | _ => trivial

theorem follows {g : Gateway} {q : Request} (hq : Serves q) :
    Keeps guard Sales.admits (fun _ _ => True) (body g q) [] := by
  by_cases hs : Sales.Sells q
  · exact ((Sales.follows (g := g) hs).weaken fun _ _ => guard_of_sales).mono fun _ _ _ => trivial
  · have hrefers : References.Refers notInvoice q := by
      have hperiodic : References.Periodic notInvoice := by constructor <;> simp [notInvoice]
      cases q with
      | credit account tokens kind reference amount memo =>
          rintro id rfl
          cases hq
      | charge account runId usage => simp [References.Refers, notInvoice]
      | settlePeriod account => exact hperiodic
      | authorize account needed => exact hperiodic
      | _ => exact absurd (by simp [Sales.Sells, Sales.role]) hs
    exact ((References.appends_body hrefers [] trivial).weaken fun _ _ => guard_of_allows).restrict fun _ _ _ _ => trivial

/-- Invoices have ids of their own, and nothing is credited for one that is
still to be paid. -/
structure Inv (w : World) (vs : List InProgress) : Prop where
  ids : (w.store.invoices.map Invoice.id).Nodup
  owed : ∀ v ∈ vs, ∀ k, Sales.debt v.log = some k → Touched w k.id
  entries : ∀ e ∈ w.store.ledger, ∀ id, e.reference = .invoice id → Touched w id

section Invariant

variable {g : Gateway} {w w' : World} {vs : List InProgress} {n : Nat} {q : Request} {log : BillingLog}

theorem inv_init (t : Datetime) : Inv ⟨{}, t⟩ [] := by
  constructor <;> simp

theorem Inv.arrive (h : Inv w vs) (q : Request) : Inv w (vs ++ [⟨q, [], none⟩]) where
  ids := h.ids
  owed v hv k hk := by
    rcases List.mem_append.1 hv with hv | hv
    · exact h.owed v hv k hk
    · obtain rfl := List.mem_singleton.1 hv
      cases hk
  entries := h.entries

theorem Inv.leave (h : Inv w vs) (hn : vs[n]? = some ⟨q, log, none⟩) (o : Except Error Outcome) :
    Inv w (vs.set n ⟨q, log, some o⟩) where
  ids := h.ids
  owed v hv k hk := by
    rcases List.mem_or_eq_of_mem_set hv with hv | rfl
    · exact h.owed v hv k hk
    · exact h.owed _ (List.mem_of_getElem? hn) k hk
  entries := h.entries

theorem Touched.step {c : Call} {r : Reply} {a : Except Error c.Answer} {v : InProgress} {id : String} (h : Touched w id)
    (hc : NewIds w vs v c r) (hs : w.step c r = some (a, w')) : Touched w' id := by
  obtain ⟨j, hj, hp⟩ := h
  cases c with
  | putInvoice i =>
      rcases step_putInvoice hs with ⟨x, _, _, rfl⟩ | ⟨_, _, rfl⟩
      · exact ⟨j, hj, hp⟩
      · by_cases hid : i.id = id
        · subst hid
          refine ⟨j.settledAs i, ?_, fun hpending => ?_⟩
          · rw [Store.invoice_putInvoice_self, hj]
            rfl
          · rw [hc hpending] at hj
            cases hj
        · exact ⟨j, (Store.invoice_putInvoice_of_ne hid).trans hj, hp⟩
  | append e =>
      rcases step_append hs with ⟨x, _, _, rfl⟩ | ⟨_, _, rfl⟩
      · exact ⟨j, hj, hp⟩
      · exact ⟨j, (Store.invoice_append _ _ _).trans hj, hp⟩
  | putSubscription s => rcases step_putSubscription hs with ⟨x, _, _, rfl⟩ | ⟨_, _, rfl⟩ <;> exact ⟨j, hj, hp⟩
  | _ => exact ⟨j, by rw [step_reads hs rfl, hj], hp⟩

theorem ids_step {c : Call} {r : Reply} {a : Except Error c.Answer} (h : (w.store.invoices.map Invoice.id).Nodup)
    (hs : w.step c r = some (a, w')) : (w'.store.invoices.map Invoice.id).Nodup := by
  cases c with
  | putInvoice i =>
      rcases step_putInvoice hs with ⟨x, _, _, rfl⟩ | ⟨_, _, rfl⟩
      · exact h
      · exact Tables.nodup_upsert Invoice.settledAs_key h
  | append e =>
      rcases step_append hs with ⟨x, _, _, rfl⟩ | ⟨_, _, rfl⟩
      · exact h
      · rwa [Store.append_invoices]
  | putSubscription s => rcases step_putSubscription hs with ⟨x, _, _, rfl⟩ | ⟨_, _, rfl⟩ <;> exact h
  | _ => rwa [step_reads hs rfl]

theorem Inv.step (h : Inv w vs) (hn : vs[n]? = some ⟨q, log, none⟩) {c : Call} {r : Reply} {a : Except Error c.Answer}
    (hg : guard log c) (hc : NewIds w vs ⟨q, log, none⟩ c r) (hs : w.step c r = some (a, w')) :
    Inv w' (vs.set n ⟨q, ⟨c, a⟩ :: log, none⟩) where
  ids := ids_step h.ids hs
  owed v hv k hk := by
    rcases List.mem_or_eq_of_mem_set hv with hv | rfl
    · exact (h.owed v hv k hk).step hc hs
    · rcases Sales.debt_cons hk with hd | ⟨hp, x, hx⟩
      · exact (h.owed _ (List.mem_of_getElem? hn) k hd).step hc hs
      · cases hx
        rcases step_putInvoice hs with ⟨x, _, ha, _⟩ | ⟨_, _, rfl⟩
        · cases ha
        · obtain ⟨j, hj, hstatus⟩ := Option.map_eq_some_iff.1 (statusOf_putInvoice w k)
          exact ⟨j, hj, by simp [hstatus, hp]⟩
  entries e he id hid := by
    by_cases hold : e ∈ w.store.ledger
    · exact (h.entries e hold id hid).step hc hs
    · cases c with
      | append e' =>
          rcases step_append hs with ⟨x, _, _, rfl⟩ | ⟨_, _, rfl⟩
          · exact absurd he hold
          · obtain rfl := (Store.mem_append_ledger he).resolve_left hold
            obtain ⟨k, hd, rfl⟩ := hg id hid
            exact (h.owed _ (List.mem_of_getElem? hn) k hd).step hc hs
      | _ =>
          rw [ledger_step (by simp) hs] at he
          exact absurd he hold

end Invariant

def protocol (g : Gateway) : Protocol (body g) World.step Serves NewIds where
  inv := Inv
  guard _ := guard
  admits _ := Sales.admits
  post _ _ _ := True
  arrive _ h := h.arrive _
  follows := follows
  sound h hn hg hc hs := ⟨h.step hn hg hc hs, Sales.admits_step hs⟩
  leave h hn _ := h.leave hn _

theorem inv_of_reachable {g : Gateway} {t : Datetime} {c : Pool} (h : Reachable g Serves NewIds ⟨{}, t⟩ c) :
    Inv c.world c.views :=
  (protocol g).invariant (inv_init t) h

/-- What an invoice buys is there: the tokens and, if it is for a plan, a running
period. Where the account had a newer invoice for a plan, the period is of that one. -/
def Delivered (g : Gateway) (i : Invoice) (w w' : World) : Prop :=
  ∃ product, g.catalog.product i.sku = .ok product ∧ (∃ e ∈ w'.store.ledger, Buys product i e) ∧
    ∀ plan, product = .plan plan → ∃ k ∈ w.store.invoices, k.status = .pending ∧ k.account = i.account ∧
      i.createdAt ≤ k.createdAt ∧ OnPlan g w.clock k w'

section Page

variable {g : Gateway} {network : Network} {w w' : World} {vs : List InProgress} {i : Invoice}

theorem Inv.invoice_of_mem (h : Inv w vs) (hi : i ∈ w.store.invoices) : w.store.invoice i.id = some i := by
  cases hrow : w.store.invoice i.id with
  | none =>
      have hne := List.find?_eq_none.1 hrow i hi
      simp at hne
  | some j => rw [List.inj_on_of_nodup_map h.ids (Tables.row_mem hrow) hi (Store.invoice_id hrow)]

theorem Inv.unrecorded (h : Inv w vs) (hi : w.store.invoice i.id = some i) (hp : i.status = .pending) {e : LedgerEntry}
    (he : e ∈ w.store.ledger) : e.reference ≠ .invoice i.id := by
  intro hr
  obtain ⟨j, hj, hstatus⟩ := h.entries e he i.id hr
  rw [hi] at hj
  cases hj
  exact hstatus hp

theorem Inv.nodup_openInvoices (h : Inv w vs) (limit : Int) :
    ((w.store.openInvoices limit).map Invoice.id).Nodup := by
  have hperm := List.perm_insertionSort (fun i j : Invoice => i.createdAt ≤ j.createdAt)
    (w.store.invoices.filter fun i => i.status = .pending)
  have hnodup : ((w.store.invoices.filter fun i => i.status = .pending).map Invoice.id).Nodup :=
    h.ids.sublist (List.filter_sublist.map Invoice.id)
  exact ((hperm.map Invoice.id).nodup_iff.2 hnodup).sublist ((List.take_sublist _ _).map Invoice.id)

theorem Inv.confirms (h : Inv w vs) (hfail : ∀ j e, network j = .error e → e.isException = true) {limit : Int}
    {rs : List Reply} {o : Except Error (List Invoice)}
    (he : exec (answering network) (reconcile g limit) w rs = some (o, w')) :
    Confirms g network (w.store.openInvoices limit) w w' := by
  have hrun : Always (answering network) (fun _ v => Confirms g network (w.store.openInvoices limit) w v)
      (reconcile g limit) w := by
    apply always_ask_bind
    swap
    · intro r e v hs
      cases (answering_openInvoices hs).1
    intro r page v hs
    obtain ⟨hpage, rfl⟩ := answering_openInvoices hs
    cases hpage
    apply always_sweep hfail
    · exact fun k hk => h.invoice_of_mem (mem_openInvoices hk).1
    · exact h.nodup_openInvoices limit
  exact hrun.exec he

theorem Inv.page_split (h : Inv w vs) {limit : Int} (hlimit : w.store.invoices.length ≤ limit)
    (hi : w.store.invoice i.id = some i) (hp : i.status = .pending) :
    ∃ pre post, w.store.openInvoices limit = pre ++ i :: post ∧ (∀ k ∈ pre, k.id ≠ i.id) ∧
      (∀ k ∈ post, k.id ≠ i.id) ∧ ∀ k ∈ post, i.createdAt ≤ k.createdAt := by
  have hmem : i ∈ w.store.openInvoices limit := by
    rw [openInvoices_eq hlimit, List.mem_insertionSort]
    simpa [hp] using Tables.row_mem hi
  obtain ⟨pre, post, hsplit⟩ := List.append_of_mem hmem
  have hsorted := List.pairwise_insertionSort (fun i j : Invoice => i.createdAt ≤ j.createdAt)
    (w.store.invoices.filter fun i => i.status = .pending)
  rw [← openInvoices_eq hlimit, hsplit] at hsorted
  have hother (k : Invoice) (hk : k ∈ pre ++ post) : k.id ≠ i.id := by
    have hids := h.nodup_openInvoices limit
    rw [hsplit, (List.perm_middle.map Invoice.id).nodup_iff, List.map_cons, List.nodup_cons] at hids
    exact fun he => hids.1 (he ▸ List.mem_map_of_mem hk)
  refine ⟨pre, post, hsplit, fun k hk => hother k (List.mem_append_left _ hk),
    fun k hk => hother k (List.mem_append_right _ hk), fun k hk => ?_⟩
  exact List.rel_of_pairwise_cons (List.pairwise_append.1 hsorted).2.1 hk

variable {limit : Int}

theorem Inv.invoice_of_closed (h : Inv w vs) (hc : Confirms g network (w.store.openInvoices limit) w w')
    (hi : w.store.invoice i.id = some i) (hp : i.status ≠ .pending) : w'.store.invoice i.id = some i := by
  rw [hc.swept.others i.id fun k hk he => ?_, hi]
  have hk' := h.invoice_of_mem (mem_openInvoices hk).1
  rw [he, hi] at hk'
  cases hk'
  exact hp (mem_openInvoices hk).2

theorem Inv.delivered (h : Inv w vs) (hc : Confirms g network (w.store.openInvoices limit) w w')
    (hlimit : w.store.invoices.length ≤ limit) (hi : w.store.invoice i.id = some i) (hp : i.status = .pending)
    {p : ObservedPayment} (hn : network i = .ok (some p)) (hset : p.settles i = .ok true) (ht : 0 ≤ i.tokens)
    (hsold : Sales.sold g i = true) : statusOf w' i.id = some .paid ∧ Delivered g i w w' := by
  obtain ⟨pre, post, hpage, hpre, hpost, hlater⟩ := h.page_split hlimit hi hp
  rw [hpage] at hc
  obtain ⟨u, v, o, hbefore, hconfirmed, hafter⟩ := hc.split
  have hpaid : i.status ≠ .paid := by simp [hp]
  obtain ⟨product, hproduct, ⟨e, he, href, hor⟩, hplan⟩ := hconfirmed.bought p hpaid hn hset ht hsold
  constructor
  · obtain ⟨now, _, hstatus⟩ := hconfirmed.status
    rw [statusOf, hafter.others i.id hpost, ← statusOf, hstatus]
    simp [leaves, hpaid, hn, hset]
  refine ⟨product, hproduct, ⟨e, hafter.kept e he, ?_⟩, ?_⟩
  · apply hor.resolve_left
    intro hold
    rcases hbefore.added e hold with hold | ⟨_, k, hk, hr⟩
    · exact h.unrecorded hi hp hold href
    · exact hpre k hk (Reference.invoice.inj (hr.symm.trans href))
  · intro plan hpl
    have hon : OnPlan g w.clock i v := (hplan plan hpl).mono hbefore.clock
    have hclock : w.clock ≤ v.clock := le_trans hbefore.clock hconfirmed.swept.clock
    rcases hafter.rows i.account with hrow | ⟨k, hk, ha, hk'⟩
    · obtain ⟨plan', s, hpl', hs, hrest⟩ := hon
      exact ⟨i, Tables.row_mem hi, hp, rfl, le_rfl, plan', s, hpl', hrow.trans hs, hrest⟩
    · have hopen := mem_openInvoices (hpage ▸ List.mem_append_right pre (List.mem_cons_of_mem i hk))
      exact ⟨k, hopen.1, hopen.2, ha, hlater k hk, hk'.mono hclock⟩

end Page

/-- A sweep over every open invoice finds a late payment, if the invoice has not
been written off by then and is for something that can be delivered. -/
theorem late_payment_matched_iff {g : Gateway} {network : Network} {t : Datetime} {c : Pool} {id : String} {i : Invoice}
    {p : ObservedPayment} {limit : Int} {rs : List Reply} {o : Except Error (List Invoice)} {w' : World}
    (hr : Reachable g Serves NewIds ⟨{}, t⟩ c) (hfail : ∀ j e, network j = .error e → e.isException = true)
    (hi : c.world.store.invoice id = some i) (hpaid : i.status ≠ .paid) (hn : network i = .ok (some p))
    (hset : p.settles i = .ok true) (hlimit : c.world.store.invoices.length ≤ limit)
    (he : exec (answering network) (reconcile g limit) c.world rs = some (o, w')) :
    ((∃ j, w'.store.invoice id = some j ∧ j.status = .paid) ∧ Delivered g i c.world w') ↔
      i.status = .pending ∧ 0 ≤ i.tokens ∧ Sales.sold g i = true := by
  obtain rfl : i.id = id := Store.invoice_id hi
  have h := inv_of_reachable hr
  have hc := h.confirms hfail he
  constructor
  · rintro ⟨⟨j, hj, hstatus⟩, product, hproduct, ⟨e, he, hb⟩, _⟩
    have hp : i.status = .pending := by
      by_contra hp
      rw [h.invoice_of_closed hc hi hp] at hj
      cases hj
      exact hpaid hstatus
    refine ⟨hp, ?_, by rw [Sales.sold, hproduct]; rfl⟩
    rcases hc.swept.added e he with hold | ⟨ht, _⟩
    · exact absurd hb.reference (h.unrecorded hi hp hold)
    · rwa [← hb.tokens]
  · rintro ⟨hp, ht, hsold⟩
    obtain ⟨hstatus, hd⟩ := h.delivered hc hlimit hi hp hn hset ht hsold
    obtain ⟨j, hj, hs⟩ := Option.map_eq_some_iff.1 hstatus
    exact ⟨⟨j, hj, hs⟩, hd⟩

def bothOrdered : List (Event Request Reply) := [
  .start (.checkout "B" "tokens-1m" ""), .step 0 (.time 0), .step 0 (.text "cz1"), .step 0 (.text "80.0000000"),
  .step 0 .done, .finish 0,
  .start (.checkout "A" "tokens-1m" ""), .step 1 (.time 1), .step 1 (.text "cz2"), .step 1 (.text "80.0000000"),
  .step 1 .done, .finish 1]

def twoOrders : World := ⟨{ invoices := [{ order with account := "B" }, later] }, 1⟩

theorem late_payment_matched : ∃ c w' o, Reachable shop Serves NewIds ⟨{}, 0⟩ c ∧
    exec (answering (sent [("cz1", "1"), ("cz2", "80")])) (reconcile shop 2) c.world
      [.done, .done, .payment (some (payment "cz1" "1")), .done, .payment (some (payment "cz2" "80")), .done,
        .text "e1", .time (2 * INVOICE_TTL), .done] = some (o, w') ∧
    (∃ j, w'.store.invoice "cz2" = some j ∧ j.status = .paid) ∧ Delivered shop later c.world w' := by
  have hrun : (run (body shop) World.step Serves NewIds ⟨⟨{}, 0⟩, []⟩ bothOrdered).any (fun c =>
      c.world.store = twoOrders.store && c.world.clock = twoOrders.clock) = true := by decide +kernel
  obtain ⟨⟨w, vs⟩, hr, hw⟩ := reaches_of_run hrun
  obtain rfl : w = twoOrders := by
    simp only [Bool.and_eq_true, decide_eq_true_eq] at hw
    cases w
    simp_all [twoOrders]
  have he : (exec (answering (sent [("cz1", "1"), ("cz2", "80")])) (reconcile shop 2) twoOrders
      [.done, .done, .payment (some (payment "cz1" "1")), .done, .payment (some (payment "cz2" "80")), .done,
        .text "e1", .time (2 * INVOICE_TTL), .done]).isSome = true := by decide +kernel
  obtain ⟨⟨o, w'⟩, he⟩ := Option.isSome_iff_exists.1 he
  have hi : twoOrders.store.invoice "cz2" = some later := by decide +kernel
  have hset : (payment "cz2" "80").settles later = .ok true := by decide +kernel
  have h := (late_payment_matched_iff hr (by simp [sent]) hi (by decide) rfl hset (le_refl 2) he).2
    ⟨rfl, by decide, by decide +kernel⟩
  exact ⟨_, w', o, hr, he, h.1, h.2⟩

def writtenOff : List (Event Request Reply) := [
  .start (.checkout "A" "tokens-1m" ""), .step 0 (.time 0), .step 0 (.text "cz1"), .step 0 (.text "80.0000000"),
  .step 0 .done, .finish 0,
  .start (.confirm "cz1"), .step 1 .done, .step 1 (.payment none), .step 1 (.time INVOICE_TTL), .step 1 .done,
  .finish 1]

/-- No sweep looks at it again, though its payment is there by then. -/
theorem written_off_unmatched : ∃ c, Reachable shop Serves NewIds ⟨{}, 0⟩ c ∧
    c.world.store = { invoices := [order.expired] } ∧ (payment "cz1" "80").settles order.expired = .ok true ∧
    (exec (answering (sent [("cz1", "80")])) (reconcile shop 100) c.world [.done]).map (fun x => x.2.store) =
      some { invoices := [order.expired] } := by
  have hrun : (run (body shop) World.step Serves NewIds ⟨⟨{}, 0⟩, []⟩ writtenOff).any (fun c =>
      c.world.store = { invoices := [order.expired] } && c.world.clock = INVOICE_TTL) = true := by decide +kernel
  obtain ⟨⟨w, vs⟩, hr, hw⟩ := reaches_of_run hrun
  obtain rfl : w = ⟨{ invoices := [order.expired] }, INVOICE_TTL⟩ := by
    simp only [Bool.and_eq_true, decide_eq_true_eq] at hw
    cases w
    simp_all
  have he : (exec (answering (sent [("cz1", "80")])) (reconcile shop 100) ⟨{ invoices := [order.expired] }, INVOICE_TTL⟩
      [.done]).map (fun x => x.2.store) = some { invoices := [order.expired] } := by decide +kernel
  exact ⟨_, hr, rfl, by decide +kernel, he⟩

end CodeZard.Sweeps
