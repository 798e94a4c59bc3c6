import CodeZard.Interleaving
import CodeZard.Storage

namespace CodeZard.Ports

open Amounts Products Ledgers Periods Invoices Storage Programs

structure VerifyResult where
  valid : Bool
  payer : String := ""
  reason : String := ""
  amount : String := ""
  deriving DecidableEq, Repr

structure SettleResult where
  success : Bool
  network : String
  transaction : String := ""
  payer : String := ""
  reason : String := ""
  deriving DecidableEq, Repr

/-- Everything the services ask of something else: the clock, the sources of
fresh ids, the store, the payment network and the subscriptions contract. -/
inductive Call
  | now
  | entryId
  | newInvoiceId
  | append (entry : LedgerEntry)
  | allEntries (account : String)
  | putInvoice (invoice : Invoice)
  | invoice (invoiceId : String)
  | openInvoices (limit : Int)
  | putSubscription (subscription : Subscription)
  | subscription (account : String)
  | paymentFor (invoice : Invoice)
  | quote (price : Money) (asset : String)
  | verify (transaction : String) (invoice : Invoice)
  | settle (transaction : String)
  | onChain (account : String)

abbrev Call.Answer : Call → Type
  | .now => Datetime
  | .entryId => String
  | .newInvoiceId => String
  | .append _ => LedgerEntry
  | .allEntries _ => List LedgerEntry
  | .putInvoice _ => Invoice
  | .invoice _ => Option Invoice
  | .openInvoices _ => List Invoice
  | .putSubscription _ => Subscription
  | .subscription _ => Option Subscription
  | .paymentFor _ => Option ObservedPayment
  | .quote .. => String
  | .verify .. => VerifyResult
  | .settle _ => SettleResult
  | .onChain _ => Option OnChainSubscription

/-- What the outside contributes to one call. A store call is either done, and
then answers from the store, or raises and leaves it alone. -/
inductive Reply
  | raised (e : Error)
  | done
  | time (t : Datetime)
  | text (s : String)
  | payment (p : Option ObservedPayment)
  | verified (v : VerifyResult)
  | settled (r : SettleResult)
  | onChain (o : Option OnChainSubscription)
  deriving DecidableEq

structure World where
  store : Store := {}
  clock : Datetime := 0

/-- One call, atomically. The clock only moves forward, and it and the sources
of ids are the calls that cannot fail. -/
def World.step : Step Call Call.Answer Error World Reply
  | w, .now, .time t => if w.clock ≤ t then some (.ok t, { w with clock := t }) else none
  | w, .entryId, .text s => some (.ok s, w)
  | w, .newInvoiceId, .text s => some (.ok s, w)
  | _, .now, .raised _ | _, .entryId, .raised _ | _, .newInvoiceId, .raised _ => none
  | w, _, .raised e => some (.error e, w)
  | w, .append entry, .done => some ((w.store.append entry).1, { w with store := (w.store.append entry).2 })
  | w, .allEntries account, .done => some (.ok (w.store.allEntries account), w)
  | w, .putInvoice invoice, .done => some (.ok invoice, { w with store := w.store.putInvoice invoice })
  | w, .invoice invoiceId, .done => some (.ok (w.store.invoice invoiceId), w)
  | w, .openInvoices limit, .done => some (.ok (w.store.openInvoices limit), w)
  | w, .putSubscription s, .done => some (.ok s, { w with store := w.store.putSubscription s })
  | w, .subscription account, .done => some (.ok (w.store.subscription account), w)
  | w, .paymentFor _, .payment p => some (.ok p, w)
  | w, .quote .., .text s => some (.ok s, w)
  | w, .verify .., .verified v => some (.ok v, w)
  | w, .settle _, .settled r => some (.ok r, w)
  | w, .onChain _, .onChain o => some (.ok o, w)
  | _, _, _ => none

def Call.reads : Call → Bool
  | .append _ | .putInvoice _ | .putSubscription _ => false
  | _ => true

section Steps

variable {w w' : World} {r : Reply}

theorem step_now {a : Except Error Datetime} (h : w.step .now r = some (a, w')) :
    ∃ t, r = .time t ∧ w.clock ≤ t ∧ a = .ok t ∧ w' = { w with clock := t } := by
  cases r with
  | time t =>
      simp only [World.step] at h
      split at h
      · cases h; exact ⟨t, rfl, ‹_›, rfl, rfl⟩
      · cases h
  | _ => cases h

theorem step_entryId {a : Except Error String} (h : w.step .entryId r = some (a, w')) :
    w' = w ∧ ∃ s, a = .ok s := by
  cases r with
  | text s => cases h; exact ⟨rfl, s, rfl⟩
  | _ => cases h

theorem step_append {e : LedgerEntry} {a : Except Error LedgerEntry} (h : w.step (.append e) r = some (a, w')) :
    (∃ x, r = .raised x ∧ a = .error x ∧ w' = w) ∨
      (r = .done ∧ a = (w.store.append e).1 ∧ w' = { w with store := (w.store.append e).2 }) := by
  cases r with
  | raised x => cases h; exact .inl ⟨x, rfl, rfl, rfl⟩
  | done => cases h; exact .inr ⟨rfl, rfl, rfl⟩
  | _ => cases h

theorem step_allEntries {account : String} {a : Except Error (List LedgerEntry)}
    (h : w.step (.allEntries account) r = some (a, w')) :
    w' = w ∧ (a = .ok (w.store.allEntries account) ∨ ∃ x, r = .raised x ∧ a = .error x) := by
  cases r with
  | raised x => cases h; exact ⟨rfl, .inr ⟨x, rfl, rfl⟩⟩
  | done => cases h; exact ⟨rfl, .inl rfl⟩
  | _ => cases h

theorem step_putInvoice {i : Invoice} {a : Except Error Invoice} (h : w.step (.putInvoice i) r = some (a, w')) :
    (∃ x, r = .raised x ∧ a = .error x ∧ w' = w) ∨
      (r = .done ∧ a = .ok i ∧ w' = { w with store := w.store.putInvoice i }) := by
  cases r with
  | raised x => cases h; exact .inl ⟨x, rfl, rfl, rfl⟩
  | done => cases h; exact .inr ⟨rfl, rfl, rfl⟩
  | _ => cases h

theorem step_invoice {id : String} {a : Except Error (Option Invoice)} (h : w.step (.invoice id) r = some (a, w')) :
    w' = w ∧ (a = .ok (w.store.invoice id) ∨ ∃ x, r = .raised x ∧ a = .error x) := by
  cases r with
  | raised x => cases h; exact ⟨rfl, .inr ⟨x, rfl, rfl⟩⟩
  | done => cases h; exact ⟨rfl, .inl rfl⟩
  | _ => cases h

theorem step_putSubscription {s : Subscription} {a : Except Error Subscription}
    (h : w.step (.putSubscription s) r = some (a, w')) :
    (∃ x, r = .raised x ∧ a = .error x ∧ w' = w) ∨
      (r = .done ∧ a = .ok s ∧ w' = { w with store := w.store.putSubscription s }) := by
  cases r with
  | raised x => cases h; exact .inl ⟨x, rfl, rfl, rfl⟩
  | done => cases h; exact .inr ⟨rfl, rfl, rfl⟩
  | _ => cases h

theorem step_subscription {account : String} {a : Except Error (Option Subscription)}
    (h : w.step (.subscription account) r = some (a, w')) :
    w' = w ∧ (a = .ok (w.store.subscription account) ∨ ∃ x, r = .raised x ∧ a = .error x) := by
  cases r with
  | raised x => cases h; exact ⟨rfl, .inr ⟨x, rfl, rfl⟩⟩
  | done => cases h; exact ⟨rfl, .inl rfl⟩
  | _ => cases h

theorem step_onChain {account : String} {a : Except Error (Option OnChainSubscription)}
    (h : w.step (.onChain account) r = some (a, w')) :
    w' = w ∧ ((∃ o, r = .onChain o ∧ a = .ok o) ∨ ∃ x, r = .raised x ∧ a = .error x) := by
  cases r with
  | raised x => cases h; exact ⟨rfl, .inr ⟨x, rfl, rfl⟩⟩
  | onChain o => cases h; exact ⟨rfl, .inl ⟨o, rfl, rfl⟩⟩
  | _ => cases h

theorem step_reads {c : Call} {a : Except Error c.Answer} (h : w.step c r = some (a, w'))
    (hc : c.reads = true) : w'.store = w.store := by
  cases c with
  | now => obtain ⟨t, _, _, _, rfl⟩ := step_now h; rfl
  | append | putInvoice | putSubscription => cases hc
  | _ => cases r <;> cases h <;> rfl

theorem stored_step {c : Call} {a : Except Error c.Answer} (hs : w.step c r = some (a, w'))
    {id : String} {j : Invoice} (h : w.store.invoice id = some j) :
    ∃ j', w'.store.invoice id = some j' ∧ j.SameTerms j' := by
  cases c with
  | putInvoice i =>
      rcases step_putInvoice hs with ⟨x, _, _, rfl⟩ | ⟨_, _, rfl⟩
      · exact ⟨j, h, rfl⟩
      by_cases hid : i.id = id
      · subst hid
        exact ⟨j.settledAs i, by rw [Store.invoice_putInvoice_self, h]; rfl, rfl⟩
      · exact ⟨j, by rw [Store.invoice_putInvoice_of_ne hid, h], rfl⟩
  | append e =>
      rcases step_append hs with ⟨x, _, _, rfl⟩ | ⟨_, _, rfl⟩
      · exact ⟨j, h, rfl⟩
      · exact ⟨j, by rw [Store.invoice_append, h], rfl⟩
  | putSubscription s =>
      rcases step_putSubscription hs with ⟨x, _, _, rfl⟩ | ⟨_, _, rfl⟩ <;> exact ⟨j, h, rfl⟩
  | _ => exact ⟨j, by rw [step_reads hs rfl, h], rfl⟩

theorem ledger_step {c : Call} {a : Except Error c.Answer} (hc : ∀ e, c ≠ .append e)
    (hs : w.step c r = some (a, w')) : w'.store.ledger = w.store.ledger := by
  cases c with
  | append e => exact absurd rfl (hc e)
  | putInvoice i => rcases step_putInvoice hs with ⟨x, _, _, rfl⟩ | ⟨_, _, rfl⟩ <;> rfl
  | putSubscription s => rcases step_putSubscription hs with ⟨x, _, _, rfl⟩ | ⟨_, _, rfl⟩ <;> rfl
  | _ => rw [step_reads hs rfl]

theorem subscription_step {c : Call} {a : Except Error c.Answer} (hc : ∀ s, c ≠ .putSubscription s)
    (hs : w.step c r = some (a, w')) (account : String) :
    w'.store.subscription account = w.store.subscription account := by
  cases c with
  | putSubscription s => exact absurd rfl (hc s)
  | putInvoice i => rcases step_putInvoice hs with ⟨x, _, _, rfl⟩ | ⟨_, _, rfl⟩ <;> rfl
  | append e =>
      rcases step_append hs with ⟨x, _, _, rfl⟩ | ⟨_, _, rfl⟩
      · rfl
      · exact w.store.subscription_append e account
  | _ => rw [step_reads hs rfl]

theorem ledger_subset {c : Call} {a : Except Error c.Answer} (hs : w.step c r = some (a, w')) :
    ∀ e ∈ w.store.ledger, e ∈ w'.store.ledger := by
  intro e he
  by_cases hc : ∃ x, c = .append x
  · obtain ⟨x, rfl⟩ := hc
    rcases step_append hs with ⟨_, _, _, rfl⟩ | ⟨_, _, rfl⟩
    · exact he
    · exact (w.store.ledger_prefix_append x).subset he
  · push Not at hc
    rwa [ledger_step hc hs]

theorem clock_step {c : Call} {a : Except Error c.Answer} (hs : w.step c r = some (a, w')) :
    w.clock ≤ w'.clock := by
  cases c with
  | now => obtain ⟨t, _, ht, _, rfl⟩ := step_now hs; exact ht
  | putInvoice i => rcases step_putInvoice hs with ⟨x, _, _, rfl⟩ | ⟨_, _, rfl⟩ <;> exact le_rfl
  | putSubscription s => rcases step_putSubscription hs with ⟨x, _, _, rfl⟩ | ⟨_, _, rfl⟩ <;> exact le_rfl
  | append e => rcases step_append hs with ⟨x, _, _, rfl⟩ | ⟨_, _, rfl⟩ <;> exact le_rfl
  | _ => cases r <;> cases hs <;> exact le_rfl

end Steps

abbrev Billing := Prog Call Call.Answer Error

def ask (c : Call) : Billing c.Answer := perform c

def nowUtc : Billing Datetime := ask .now

def entryId : Billing String := ask .entryId

def newInvoiceId : Billing String := ask .newInvoiceId

namespace store

def append (entry : LedgerEntry) : Billing LedgerEntry := ask (.append entry)

def allEntries (account : String) : Billing (List LedgerEntry) := ask (.allEntries account)

def putInvoice (invoice : Invoice) : Billing Invoice := ask (.putInvoice invoice)

def invoice (invoiceId : String) : Billing (Option Invoice) := ask (.invoice invoiceId)

def openInvoices (limit : Int) : Billing (List Invoice) := ask (.openInvoices limit)

def putSubscription (s : Subscription) : Billing Subscription := ask (.putSubscription s)

def subscription (account : String) : Billing (Option Subscription) := ask (.subscription account)

end store

namespace network

def paymentFor (invoice : Invoice) : Billing (Option ObservedPayment) := ask (.paymentFor invoice)

def quote (price : Money) (asset : String) : Billing String := ask (.quote price asset)

def verify (transaction : String) (invoice : Invoice) : Billing VerifyResult :=
  ask (.verify transaction invoice)

def settle (transaction : String) : Billing SettleResult := ask (.settle transaction)

end network

/-- What the two services are built with: the catalog and the settings of the
billing service, what the network and the contract say about themselves, and
the price that the x402 service charges. -/
structure Gateway where
  catalog : Catalog
  asset : String := "XLM"
  reserve : Int := 50000
  network : String := "stellar-testnet"
  destination : String := ""
  chainAvailable : Bool := false
  contractId : String := ""
  price : Money := {}
  resource : String := "/runs"

end CodeZard.Ports
