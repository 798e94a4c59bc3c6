import CodeZard.Invoices
import CodeZard.Periods
import CodeZard.Tables
import Mathlib.Data.List.Sort

namespace CodeZard.Storage

open Amounts Products Ledgers Periods Invoices Tables

structure Store where
  ledger : List LedgerEntry := []
  invoices : List Invoice := []
  subscriptions : List Subscription := []
  deriving DecidableEq, Repr

namespace Store

def recorded (s : Store) (r : Reference) : Option LedgerEntry :=
  s.ledger.find? fun x => x.reference = r && x.reference ≠ .blank

/-- `INSERT`, and on a violated index the row that already has the reference. -/
def append (s : Store) (entry : LedgerEntry) : Except Error LedgerEntry × Store :=
  match s.recorded entry.reference with
  | some existing => (.ok existing, s)
  | none =>
      if s.ledger.any fun x => x.id = entry.id then (.error .integrity, s)
      else (.ok entry, { s with ledger := s.ledger ++ [entry] })

def allEntries (s : Store) (account : String) : List LedgerEntry :=
  s.ledger.filter fun e => e.account = account

def entries (s : Store) (account : String) (limit : Int) : List LedgerEntry :=
  ((s.allEntries account).reverse.take (max 1 limit).toNat).reverse

def putInvoice (s : Store) (invoice : Invoice) : Store :=
  { s with invoices := upsert Invoice.id Invoice.settledAs invoice s.invoices }

def invoice (s : Store) (invoiceId : String) : Option Invoice := row Invoice.id invoiceId s.invoices

def openInvoices (s : Store) (limit : Int) : List Invoice :=
  ((s.invoices.filter fun i => i.status = .pending).insertionSort fun i j => i.createdAt ≤ j.createdAt).take
    (max 1 limit).toNat

def putSubscription (s : Store) (subscription : Subscription) : Store :=
  { s with subscriptions := upsert Subscription.account (fun _ new => new) subscription s.subscriptions }

def subscription (s : Store) (account : String) : Option Subscription :=
  row Subscription.account account s.subscriptions

theorem recorded_some {s : Store} {r : Reference} {x : LedgerEntry} (h : s.recorded r = some x) :
    x ∈ s.ledger ∧ x.reference = r := by
  have hx := List.find?_some h
  simp only [Bool.and_eq_true, decide_eq_true_eq] at hx
  exact ⟨List.mem_of_find?_eq_some h, hx.1⟩

theorem recorded_none {s : Store} {r : Reference} (h : s.recorded r = none) (hr : r ≠ .blank) :
    ∀ x ∈ s.ledger, x.reference ≠ r := by
  intro x hx hxr
  have := List.find?_eq_none.1 h x hx
  simp [hxr, hr] at this

theorem append_cases (s : Store) (e : LedgerEntry) :
    (∃ x ∈ s.ledger, x.reference = e.reference ∧ s.append e = (.ok x, s)) ∨
      (∃ x ∈ s.ledger, x.id = e.id ∧ s.append e = (.error .integrity, s)) ∨
      ((∀ x ∈ s.ledger, x.id ≠ e.id) ∧ s.recorded e.reference = none ∧
        s.append e = (.ok e, { s with ledger := s.ledger ++ [e] })) := by
  unfold append
  cases hr : s.recorded e.reference with
  | some x =>
      obtain ⟨hx, hxr⟩ := recorded_some hr
      exact .inl ⟨x, hx, hxr, rfl⟩
  | none =>
      by_cases hid : ∃ x ∈ s.ledger, x.id = e.id
      · obtain ⟨x, hx, he⟩ := hid
        exact .inr (.inl ⟨x, hx, he, if_pos (List.any_eq_true.2 ⟨x, hx, by simpa using he⟩)⟩)
      · push Not at hid
        exact .inr (.inr ⟨hid, rfl, by simpa using hid⟩)

theorem append_fresh {s : Store} {e : LedgerEntry} (h : ∀ x ∈ s.ledger, x.id ≠ e.id) :
    ∃ x ∈ (s.append e).2.ledger, (s.append e).1 = .ok x ∧ x.reference = e.reference ∧
      (x ∈ s.ledger ∨ x = e) := by
  rcases s.append_cases e with ⟨x, hx, hr, ha⟩ | ⟨x, hx, hid, _⟩ | ⟨_, _, ha⟩
  · exact ⟨x, by rw [ha]; exact hx, by rw [ha], hr, .inl hx⟩
  · exact absurd hid (h x hx)
  · exact ⟨e, by rw [ha]; simp, by rw [ha], rfl, .inr rfl⟩

theorem mem_append_ledger {s : Store} {e x : LedgerEntry} (h : x ∈ (s.append e).2.ledger) :
    x ∈ s.ledger ∨ x = e := by
  rcases s.append_cases e with ⟨_, _, _, ha⟩ | ⟨_, _, _, ha⟩ | ⟨_, _, ha⟩ <;> rw [ha] at h
  · exact .inl h
  · exact .inl h
  · simpa using h

theorem ledger_prefix_append (s : Store) (e : LedgerEntry) : s.ledger <+: (s.append e).2.ledger := by
  rcases s.append_cases e with ⟨_, _, _, h⟩ | ⟨_, _, _, h⟩ | ⟨_, _, h⟩ <;> simp [h]

theorem append_ledger_congr {s s' : Store} (h : s.ledger = s'.ledger) (e : LedgerEntry) :
    (s.append e).2.ledger = (s'.append e).2.ledger := by
  have hr : s.recorded e.reference = s'.recorded e.reference := by rw [recorded, recorded, h]
  unfold append
  rw [hr, h]
  split
  · exact h
  · split
    · exact h
    · rfl

@[simp] theorem append_invoices (s : Store) (e : LedgerEntry) : (s.append e).2.invoices = s.invoices := by
  rcases s.append_cases e with ⟨_, _, _, h⟩ | ⟨_, _, _, h⟩ | ⟨_, _, h⟩ <;> simp [h]

@[simp] theorem append_subscriptions (s : Store) (e : LedgerEntry) :
    (s.append e).2.subscriptions = s.subscriptions := by
  rcases s.append_cases e with ⟨_, _, _, h⟩ | ⟨_, _, _, h⟩ | ⟨_, _, h⟩ <;> simp [h]

@[simp] theorem invoice_append (s : Store) (e : LedgerEntry) (id : String) :
    (s.append e).2.invoice id = s.invoice id := by
  simp [invoice]

theorem invoice_id {s : Store} {id : String} {i : Invoice} (h : s.invoice id = some i) : i.id = id :=
  row_key h

theorem invoice_putInvoice_self (s : Store) (i : Invoice) :
    (s.putInvoice i).invoice i.id =
      some ((s.invoice i.id).elim i fun j => j.settledAs i) :=
  row_upsert_self Invoice.settledAs_key i s.invoices

theorem invoice_putInvoice_of_ne {s : Store} {i : Invoice} {id : String} (h : i.id ≠ id) :
    (s.putInvoice i).invoice id = s.invoice id :=
  row_upsert_of_ne Invoice.settledAs_key h s.invoices

theorem putInvoice_settled {s : Store} {i j : Invoice} (h : (s.putInvoice i).invoice i.id = some j) :
    j.status = i.status ∧ j.txHash = i.txHash := by
  rw [invoice_putInvoice_self] at h
  cases hs : s.invoice i.id <;> rw [hs] at h <;> cases h <;> exact ⟨rfl, rfl⟩

@[simp] theorem subscription_append (s : Store) (e : LedgerEntry) (account : String) :
    (s.append e).2.subscription account = s.subscription account := by
  simp [subscription]

theorem subscription_account {s : Store} {account : String} {r : Subscription}
    (h : s.subscription account = some r) : r.account = account :=
  row_key h

theorem subscription_put (s : Store) (r : Subscription) :
    (s.putSubscription r).subscription r.account = some r := by
  have h := row_upsert_self (fun (_ new : Subscription) (_ : _ = new.account) => rfl) r s.subscriptions
  rw [subscription, putSubscription, h]
  cases row Subscription.account r.account s.subscriptions <;> rfl

theorem subscription_put_of_ne {s : Store} {r : Subscription} {account : String} (h : r.account ≠ account) :
    (s.putSubscription r).subscription account = s.subscription account :=
  row_upsert_of_ne (fun _ _ _ => rfl) h s.subscriptions

@[simp] theorem putInvoice_ledger (s : Store) (i : Invoice) : (s.putInvoice i).ledger = s.ledger := rfl

end Store

end CodeZard.Storage
