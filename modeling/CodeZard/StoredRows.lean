import CodeZard.SqliteStore
import Mathlib.Data.List.DropRight
import Mathlib.Data.List.Forall2
import Mathlib.Data.List.Induction

namespace CodeZard.StoredRows

open Indexes SqliteStore Tables Timestamps Values
open Invoices (InvoiceStatus)
open Ledgers (EntryKind)

inductive Op
  | append (e : LedgerEntry)
  | putInvoice (i : Invoice)
  | putSubscription (s : Subscription)

/-- One call to the store, which the lock lets through alone. -/
def step (db : Database) : Op → Database
  | .append e => (db.append e).2
  | .putInvoice i => (db.putInvoice i).2
  | .putSubscription s => (db.putSubscription s).2

def run (ops : List Op) : Database := ops.foldl step {}

/-- The integers of an entry are ones that the columns take. -/
def storable (e : LedgerEntry) : Bool := fits e.tokens && fits e.amount.micros

/-- The purpose of the ledger: an entry is accepted unless its reference, or its id,
is one that the ledger has. -/
def accepts (ledger : List LedgerEntry) (e : LedgerEntry) : Bool :=
  storable e && ledger.all fun x => x.id ≠ e.id && (e.reference = "" || x.reference ≠ e.reference)

def accept (ledger : List LedgerEntry) (e : LedgerEntry) : List LedgerEntry :=
  if accepts ledger e then ledger ++ [e] else ledger

def appends : List Op → List LedgerEntry :=
  List.filterMap fun op => match op with | .append e => some e | _ => none

/-- The accepted entries in the order they were accepted in. -/
def accepted (ops : List Op) : List LedgerEntry := (appends ops).foldl accept []

def entriesOf (account : String) (ledger : List LedgerEntry) : List LedgerEntry :=
  ledger.filter fun e => e.account = account

def puts : List Op → List Invoice :=
  List.filterMap fun op => match op with | .putInvoice i => some i | _ => none

/-- The first invoice that was put under an id. -/
def firstPut (invoiceId : String) (ops : List Op) : Option Invoice :=
  (puts ops).find? fun i => i.id = invoiceId && (fits i.tokens && fits i.price.micros)

section Rows

@[simp] theorem entryKind_kindValue (kind : EntryKind) : entryKind (kindValue kind) = .ok kind := by
  cases kind <;> simp [entryKind, member, kindValue]

@[simp] theorem invoiceStatus_value (status : InvoiceStatus) :
    invoiceStatus (invoiceStatusValue status) = .ok status := by
  cases status <;> simp [invoiceStatus, member, invoiceStatusValue]

theorem entryOf_entryRow (seq : Nat) (e : LedgerEntry) : entryOf (entryRow seq e) = .ok e := by
  simp only [entryOf, entryRow, entryKind_kindValue, time_isoformat]
  rfl

theorem invoiceOf_invoiceRow (i : Invoice) : invoiceOf (invoiceRow i) = .ok i := by
  simp only [invoiceOf, invoiceRow, invoiceStatus_value, time_isoformat]
  rfl

def Records (row : LedgerRow) (e : LedgerEntry) : Prop := row = entryRow row.seq e

variable {rows : List LedgerRow} {ledger : List LedgerEntry}

theorem mapM_entryOf (h : List.Forall₂ Records rows ledger) : rows.mapM entryOf = .ok ledger := by
  induction h with
  | nil => rfl
  | cons hrow _ ih =>
      rw [List.mapM_cons, ih, hrow, entryOf_entryRow]
      rfl

theorem records_account (account : String) (h : List.Forall₂ Records rows ledger) :
    List.Forall₂ Records (rows.filter fun row => row.account = account) (entriesOf account ledger) := by
  induction h with
  | nil => exact .nil
  | @cons row e rows ledger hrow _ ih =>
      have hacc : row.account = e.account := congrArg LedgerRow.account hrow
      rw [entriesOf, List.filter_cons, List.filter_cons, hacc]
      split
      · exact .cons hrow ih
      · exact ih

theorem filterMap_byId (h : List.Forall₂ Records rows ledger) : rows.filterMap byId = ledger.map LedgerEntry.id := by
  induction h with
  | nil => rfl
  | cons hrow _ ih =>
      rw [hrow, List.map_cons, ← ih]
      rfl

theorem mem_byReference {r : String} (hr : r ≠ "") (h : List.Forall₂ Records rows ledger) :
    r ∈ rows.filterMap byReference ↔ ∃ x ∈ ledger, x.reference = r := by
  induction h with
  | nil => simp
  | @cons row e rows ledger hrow _ ih =>
      have href : row.reference = e.reference := congrArg LedgerRow.reference hrow
      simp only [List.exists_mem_cons_iff, ← ih]
      by_cases he : e.reference = ""
      · rw [List.filterMap_cons_none (by simp [byReference, href, he]), he]
        simp [hr.symm]
      · rw [List.filterMap_cons_some (b := e.reference) (by simp [byReference, href, he]), List.mem_cons, eq_comm]

theorem exists_row {x : LedgerEntry} (h : List.Forall₂ Records rows ledger) (hx : x ∈ ledger) :
    ∃ row ∈ rows, Records row x := by
  induction h with
  | nil => cases hx
  | cons hrow _ ih =>
      rcases List.mem_cons.1 hx with rfl | hx
      · exact ⟨_, List.mem_cons_self, hrow⟩
      · obtain ⟨row, hmem, hr⟩ := ih hx
        exact ⟨row, List.mem_cons_of_mem _ hmem, hr⟩

theorem find_reference {x : LedgerEntry} (hu : Unique byReference rows) (h : List.Forall₂ Records rows ledger)
    (hx : x ∈ ledger) (hr : x.reference ≠ "") : ∃ row, Records row x ∧
      rows.find? (fun row => row.reference = x.reference && row.reference ≠ "") = some row := by
  obtain ⟨row, hmem, hrow⟩ := exists_row h hx
  have href : row.reference = x.reference := congrArg LedgerRow.reference hrow
  have hkey {other : LedgerRow} (ho : other.reference = x.reference) : byReference other = some x.reference := by
    simp [byReference, ho, hr]
  refine ⟨row, hrow, ?_⟩
  cases hfind : rows.find? fun row => row.reference = x.reference && row.reference ≠ "" with
  | none => simpa [href, hr] using List.find?_eq_none.1 hfind row hmem
  | some other =>
      have hother : other.reference = x.reference := by
        have hp := List.find?_some hfind
        simp only [Bool.and_eq_true, decide_eq_true_eq] at hp
        exact hp.1
      rw [eq_of_unique hu (List.mem_of_find?_eq_some hfind) hmem (hkey hother) (hkey href)]

end Rows

section Insertions

variable {db : Database} {ledger : List LedgerEntry} {e : LedgerEntry}

/-- What the table has once the entries were accepted. -/
structure Holds (ledger : List LedgerEntry) (db : Database) : Prop where
  records : List.Forall₂ Records db.ledger ledger
  increasing : db.ledger.Pairwise fun x y => x.seq < y.seq
  bounded : ∀ row ∈ db.ledger, row.seq ≤ db.lastSeq
  references : Unique byReference db.ledger

theorem holds_empty : Holds [] {} := ⟨.nil, .nil, by simp, unique_nil _⟩

theorem accepts_iff : accepts ledger e = true ↔ storable e = true ∧ (¬ ∃ x ∈ ledger, x.id = e.id) ∧
    ¬ (e.reference ≠ "" ∧ ∃ x ∈ ledger, x.reference = e.reference) := by
  simp only [accepts, Bool.and_eq_true, List.all_eq_true, decide_eq_true_eq, Bool.or_eq_true]
  constructor
  · rintro ⟨hs, hall⟩
    refine ⟨hs, ?_, ?_⟩
    · rintro ⟨x, hx, hid⟩
      exact (hall x hx).1 hid
    · rintro ⟨hne, x, hx, href⟩
      exact (hall x hx).2.elim hne fun hr => hr href
  · rintro ⟨hs, hid, href⟩
    refine ⟨hs, fun x hx => ⟨fun he => hid ⟨x, hx, he⟩, ?_⟩⟩
    by_cases hne : e.reference = ""
    · exact .inl hne
    · exact .inr fun he => href ⟨hne, x, hx, he⟩

theorem refuses_byId (h : Holds ledger db) (n : Nat) :
    refuses byId db.ledger (entryRow n e) = true ↔ ∃ x ∈ ledger, x.id = e.id := by
  rw [refuses, filterMap_byId h.records]
  simp [byId, entryRow]

theorem refuses_byReference (h : Holds ledger db) (n : Nat) :
    refuses byReference db.ledger (entryRow n e) = true ↔
      e.reference ≠ "" ∧ ∃ x ∈ ledger, x.reference = e.reference := by
  by_cases hr : e.reference = ""
  · simp [refuses, byReference, entryRow, hr]
  · have hkey : byReference (entryRow n e) = some e.reference := by simp [byReference, entryRow, hr]
    rw [refuses, hkey, Option.any_some, List.contains_iff_mem, mem_byReference hr h.records]
    exact ⟨fun hx => ⟨hr, hx⟩, fun hx => hx.2⟩

theorem insert_entry (h : Holds ledger db) (hs : storable e = true) (n : Nat) :
    insert [byId, byReference] (entryRow n e) db.ledger =
      if accepts ledger e then some (db.ledger ++ [entryRow n e]) else none := by
  have hany : ([byId, byReference].any fun index => refuses index db.ledger (entryRow n e)) = !accepts ledger e := by
    rw [Bool.eq_iff_iff, Bool.not_eq_true', ← Bool.not_eq_true, accepts_iff]
    simp only [List.any_cons, List.any_nil, Bool.or_false, Bool.or_eq_true, refuses_byId h, refuses_byReference h, hs, true_and]
    rw [not_and_or, not_not, not_not]
  rw [Indexes.insert, hany]
  cases accepts ledger e <;> rfl

theorem append_accepts (h : Holds ledger db) (ha : accepts ledger e = true) : db.append e = (.ok e, { db with
    ledger := db.ledger ++ [entryRow (db.lastSeq + 1) e], lastSeq := db.lastSeq + 1 }) := by
  have hs : storable e = true := (accepts_iff.1 ha).1
  have hfit : (fits e.tokens && fits e.amount.micros) = true := hs
  rw [Database.append, Database.insertEntry]
  simp only [hfit, insert_entry h hs, ha]
  rfl

theorem append_refuses (h : Holds ledger db) (ha : accepts ledger e = false) : (db.append e).2 = db := by
  have herr : ∃ f, db.insertEntry e = .error f := by
    cases hs : storable e with
    | false =>
        have hfit : (fits e.tokens && fits e.amount.micros) = false := hs
        exact ⟨overflowError, by simp [Database.insertEntry, hfit]⟩
    | true =>
        have hfit : (fits e.tokens && fits e.amount.micros) = true := hs
        simp only [Database.insertEntry, hfit, insert_entry h hs, ha]
        exact ⟨_, rfl⟩
  obtain ⟨f, hf⟩ := herr
  rw [Database.append, hf]
  dsimp only
  split
  · split <;> rfl
  · rfl

theorem append_recorded {x : LedgerEntry} (h : Holds ledger db) (hs : storable e = true) (hr : e.reference ≠ "")
    (hx : x ∈ ledger) (hxr : x.reference = e.reference) : db.append e = (.ok x, db) := by
  have ha : accepts ledger e = false := by
    rw [← Bool.not_eq_true, accepts_iff]
    exact fun hacc => hacc.2.2 ⟨hr, x, hx, hxr⟩
  have hfit : (fits e.tokens && fits e.amount.micros) = true := hs
  obtain ⟨row, hrow, hfind⟩ := find_reference h.references h.records hx (hxr ▸ hr)
  rw [hxr] at hfind
  have hone : db.referenced e.reference = some row := hfind
  have herr : ∃ column, db.insertEntry e = .error (integrityError column) := by
    simp only [Database.insertEntry, hfit, insert_entry h hs, ha]
    exact ⟨_, rfl⟩
  obtain ⟨column, hcol⟩ := herr
  rw [Database.append, hcol]
  have hint : Failure.isIntegrity (integrityError column) = true := by simp [Failure.isIntegrity, integrityError]
  simp only [hint, hone, if_true]
  rw [hrow, entryOf_entryRow]

theorem holds_append (h : Holds ledger db) (e : LedgerEntry) : Holds (accept ledger e) (db.append e).2 := by
  cases ha : accepts ledger e with
  | false =>
      rw [append_refuses h ha, accept, ha]
      exact h
  | true =>
      rw [append_accepts h ha, accept, if_pos ha]
      refine ⟨?_, ?_, ?_, ?_⟩
      · exact List.rel_append h.records (.cons rfl .nil)
      · refine List.pairwise_append.2 ⟨h.increasing, List.pairwise_singleton _ _, fun x hx y hy => ?_⟩
        rw [List.mem_singleton.1 hy]
        exact Nat.lt_succ_of_le (h.bounded x hx)
      · intro row hrow
        rcases List.mem_append.1 hrow with hrow | hrow
        · exact Nat.le_succ_of_le (h.bounded row hrow)
        · rw [List.mem_singleton.1 hrow]
          exact Nat.le_refl _
      · have hins := insert_entry h (accepts_iff.1 ha).1 (db.lastSeq + 1)
        rw [ha, if_pos rfl] at hins
        exact unique_insert (by simp) h.references hins

end Insertions

section Runs

variable {db : Database}

theorem putInvoice_ledger (i : Invoice) : (db.putInvoice i).2.ledger = db.ledger ∧
    (db.putInvoice i).2.lastSeq = db.lastSeq := by
  unfold Database.putInvoice
  split <;> exact ⟨rfl, rfl⟩

theorem holds_step {ledger : List LedgerEntry} (h : Holds ledger db) (op : Op) :
    Holds ((appends [op]).foldl accept ledger) (step db op) := by
  cases op with
  | append e => exact holds_append h e
  | putInvoice i =>
      have hput : (db.putInvoice i).2.ledger = _ ∧ (db.putInvoice i).2.lastSeq = _ := putInvoice_ledger i
      obtain ⟨hledger, hseq⟩ := hput
      exact ⟨hledger ▸ h.records, hledger ▸ h.increasing, hledger ▸ hseq ▸ h.bounded, hledger ▸ h.references⟩
  | putSubscription s => exact ⟨h.records, h.increasing, h.bounded, h.references⟩

theorem accepted_concat (ops : List Op) (op : Op) :
    accepted (ops ++ [op]) = (appends [op]).foldl accept (accepted ops) := by
  rw [accepted, appends, List.filterMap_append, List.foldl_append]
  rfl

theorem holds_run (ops : List Op) : Holds (accepted ops) (run ops) := by
  induction ops using List.reverseRecOn with
  | nil => exact holds_empty
  | append_singleton ops op ih =>
      rw [accepted_concat, run, List.foldl_append]
      exact holds_step ih op

theorem allEntries_run (ops : List Op) (account : String) :
    (run ops).allEntries account = .ok (entriesOf account (accepted ops)) := by
  have h := holds_run ops
  rw [Database.allEntries, Database.ledgerOf, ascending_eq (h.increasing.filter _)]
  exact mapM_entryOf (records_account account h.records)

theorem entries_run (ops : List Op) (account : String) {limit : Int} (hl : fits (max 1 limit) = true) :
    (run ops).entries account limit = .ok ((entriesOf account (accepted ops)).rtake (max 1 limit).toNat) := by
  have h := holds_run ops
  have hrows := records_account account h.records
  rw [Database.entries, Database.ledgerOf, latest_eq (h.increasing.filter _), List.rtake_eq_reverse_take_reverse, hl]
  exact mapM_entryOf (List.rel_reverse (List.forall₂_take _ (List.rel_reverse hrows)))

theorem ledger_prefix (ops : List Op) (op : Op) : (run ops).ledger <+: (run (ops ++ [op])).ledger := by
  rw [run, run, List.foldl_append]
  cases op with
  | append e =>
      have h := holds_run ops
      cases ha : accepts (accepted ops) e with
      | false => exact (congrArg Database.ledger (append_refuses h ha)).symm ▸ List.prefix_rfl
      | true => exact (congrArg (fun p => p.2.ledger) (append_accepts h ha)).symm ▸ List.prefix_append _ _
  | putInvoice i => exact (putInvoice_ledger i).1.symm ▸ List.prefix_rfl
  | putSubscription s => exact List.prefix_rfl

end Runs

section Invoices

def Keeps (row : InvoiceRow) (i : Invoice) : Prop :=
  ∃ status txHash payer, row = invoiceRow { i with status := status, txHash := txHash, payer := payer }

theorem keeps_self (i : Invoice) : Keeps (invoiceRow i) i := ⟨i.status, i.txHash, i.payer, rfl⟩

theorem keeps_updated {old : InvoiceRow} {i : Invoice} (h : Keeps old i) (j : Invoice) :
    Keeps (old.updated (invoiceRow j)) i := by
  obtain ⟨_, _, _, rfl⟩ := h
  exact ⟨j.status, j.txHash, j.payer, rfl⟩

variable {db : Database} {invoiceId : String}

theorem keeps_putInvoice {first : Option Invoice} (h : Option.Rel Keeps (row InvoiceRow.id invoiceId db.invoices) first)
    (i : Invoice) : Option.Rel Keeps (row InvoiceRow.id invoiceId (db.putInvoice i).2.invoices)
      (first.or (firstPut invoiceId [.putInvoice i])) := by
  have hkey (old new : InvoiceRow) (hid : InvoiceRow.id old = InvoiceRow.id new) :
      InvoiceRow.id (old.updated new) = InvoiceRow.id new := hid
  rw [Database.putInvoice, firstPut]
  cases hfit : fits i.tokens && fits i.price.micros with
  | false => simpa [puts, hfit] using h
  | true =>
      by_cases hid : i.id = invoiceId
      · subst invoiceId
        have hself : row InvoiceRow.id (invoiceRow i).id _ = _ := row_upsert_self hkey (invoiceRow i) db.invoices
        have hid : (invoiceRow i).id = i.id := rfl
        rw [hid] at hself
        generalize row InvoiceRow.id i.id db.invoices = old at h hself
        simp only [Bool.not_true, Bool.false_eq_true, if_false, hself]
        cases h with
        | none => simpa [puts, hfit] using Option.Rel.some (keeps_self i)
        | some hold => exact .some (keeps_updated hold i)
      · have hne : (invoiceRow i).id ≠ invoiceId := hid
        have hother : row InvoiceRow.id invoiceId _ = _ := row_upsert_of_ne hkey hne db.invoices
        simpa [puts, hid, hother] using h

theorem append_invoices (e : LedgerEntry) : (db.append e).2.invoices = db.invoices := by
  have hinsert {db' : Database} (h : db.insertEntry e = .ok db') : db'.invoices = db.invoices := by
    unfold Database.insertEntry at h
    dsimp only at h
    split at h
    · cases h
    · split at h
      · cases h
        rfl
      · cases h
  unfold Database.append
  split
  · exact hinsert ‹_›
  · split
    · split <;> rfl
    · rfl

theorem firstPut_concat (ops : List Op) (op : Op) :
    firstPut invoiceId (ops ++ [op]) = (firstPut invoiceId ops).or (firstPut invoiceId [op]) := by
  rw [firstPut, puts, List.filterMap_append, List.find?_append]
  rfl

theorem keeps_run (ops : List Op) :
    Option.Rel Keeps (row InvoiceRow.id invoiceId (run ops).invoices) (firstPut invoiceId ops) := by
  induction ops using List.reverseRecOn with
  | nil => exact .none
  | append_singleton ops op ih =>
      rw [firstPut_concat, run, List.foldl_append]
      cases op with
      | append e =>
          have hnone : firstPut invoiceId [.append e] = none := rfl
          rw [hnone, Option.or_none]
          exact (append_invoices e).symm ▸ ih
      | putInvoice i => exact keeps_putInvoice ih i
      | putSubscription s =>
          have hnone : firstPut invoiceId [.putSubscription s] = none := rfl
          rw [hnone, Option.or_none]
          exact ih

theorem invoice_run (ops : List Op) {i : Invoice} (hi : firstPut invoiceId ops = some i) :
    ∃ status txHash payer,
      (run ops).invoice invoiceId = .ok (some { i with status := status, txHash := txHash, payer := payer }) := by
  have h : Option.Rel Keeps (row InvoiceRow.id invoiceId _) _ := keeps_run ops
  rw [hi] at h
  cases hrow : row InvoiceRow.id invoiceId (run ops).invoices with
  | none =>
      rw [hrow] at h
      cases h
  | some r =>
      rw [hrow] at h
      cases h with
      | some hkeeps =>
          obtain ⟨status, txHash, payer, rfl⟩ := hkeeps
          refine ⟨status, txHash, payer, ?_⟩
          rw [Database.invoice, hrow]
          dsimp only
          rw [invoiceOf_invoiceRow]
          rfl

end Invoices

/-- The tables are a ledger that only grows and that says a referenced fact once,
and invoices whose terms stay as they were first put. -/
theorem ledger_faithful (ops : List Op) :
    Unique byReference (run ops).ledger ∧
    (∀ op, (run ops).ledger <+: (run (ops ++ [op])).ledger) ∧
    (∀ e, accepts (accepted ops) e = true → ((run ops).append e).1 = .ok e) ∧
    (∀ e, accepts (accepted ops) e = false → ((run ops).append e).2 = run ops) ∧
    (∀ e, ∀ x ∈ accepted ops, storable e = true → e.reference ≠ "" → x.reference = e.reference →
      (run ops).append e = (.ok x, run ops)) ∧
    (∀ account, (run ops).allEntries account = .ok (entriesOf account (accepted ops))) ∧
    (∀ account limit, fits (max 1 limit) = true →
      (run ops).entries account limit = .ok ((entriesOf account (accepted ops)).rtake (max 1 limit).toNat)) ∧
    ∀ invoiceId i, firstPut invoiceId ops = some i → ∃ status txHash payer,
      (run ops).invoice invoiceId = .ok (some { i with status := status, txHash := txHash, payer := payer }) := by
  have h := holds_run ops
  refine ⟨h.references, ledger_prefix ops, ?_, ?_, ?_, allEntries_run ops, ?_, ?_⟩
  · intro e ha
    rw [append_accepts h ha]
  · intro e ha
    exact append_refuses h ha
  · intro e x hx hs hr hxr
    exact append_recorded h hs hr hx hxr
  · intro account limit hl
    exact entries_run ops account hl
  · intro invoiceId i hi
    exact invoice_run ops hi

def noon : Stamp := ⟨{ year := 2026, month := 1, day := 31, hour := 12 }, by decide⟩

def grantEntry : LedgerEntry :=
  { id := "le_1", account := "acct", kind := .grant, tokens := 10, at_ := noon, reference := "welcome:acct" }

theorem ledger_faithful_again :
    (run [.append grantEntry]).append { grantEntry with id := "le_2", tokens := 20 } =
      (.ok grantEntry, run [.append grantEntry]) :=
  (ledger_faithful [.append grantEntry]).2.2.2.2.1 _ grantEntry (by decide) (by decide) (by decide) rfl

end CodeZard.StoredRows
