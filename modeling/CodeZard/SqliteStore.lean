import CodeZard.Indexes
import CodeZard.Invoices
import CodeZard.Periods
import CodeZard.Tables
import CodeZard.Timestamps

namespace CodeZard.SqliteStore

open Amounts Indexes Tables Timestamps Values
open Ledgers (EntryKind)
open Invoices (InvoiceStatus)
open Periods (SubscriptionStatus)

structure LedgerEntry where
  id : String
  account : String
  kind : EntryKind
  tokens : Int
  at_ : Stamp
  amount : Money := {}
  reference : String := ""
  memo : String := ""
  deriving DecidableEq

structure Invoice where
  id : String
  account : String
  sku : String
  tokens : Int
  price : Money
  asset : String
  amount : String
  destination : String
  createdAt : Stamp
  expiresAt : Stamp
  status : InvoiceStatus := .pending
  kind : String := "pack"
  txHash : String := ""
  payer : String := ""
  deriving DecidableEq

structure Subscription where
  account : String
  planId : String
  startedAt : Stamp
  renewsAt : Stamp
  status : SubscriptionStatus := .active
  deriving DecidableEq

def kindValue : EntryKind → String
  | .grant => "grant"
  | .purchase => "purchase"
  | .usage => "usage"
  | .refund => "refund"
  | .adjustment => "adjustment"
  | .expiry => "expiry"

def invoiceStatusValue : InvoiceStatus → String
  | .pending => "pending"
  | .paid => "paid"
  | .expired => "expired"
  | .cancelled => "cancelled"

def subscriptionStatusValue : SubscriptionStatus → String
  | .active => "active"
  | .expired => "expired"
  | .cancelled => "cancelled"

def member {α : Type} (name : String) (value : α → String) (all : List α) (s : String) : Except Failure α :=
  match all.find? fun x => value x = s with
  | some x => .ok x
  | none => .error (.exception "ValueError" (Json.quoted s ++ " is not a valid " ++ name))

def entryKind : String → Except Failure EntryKind :=
  member "EntryKind" kindValue [.grant, .purchase, .usage, .refund, .adjustment, .expiry]

def invoiceStatus : String → Except Failure InvoiceStatus :=
  member "InvoiceStatus" invoiceStatusValue [.pending, .paid, .expired, .cancelled]

def subscriptionStatus : String → Except Failure SubscriptionStatus :=
  member "SubscriptionStatus" subscriptionStatusValue [.active, .expired, .cancelled]

structure LedgerRow where
  seq : Nat
  id : String
  account : String
  kind : String
  tokens : Int
  amount : Int
  at_ : String
  reference : String
  memo : String
  deriving DecidableEq, Repr

structure InvoiceRow where
  id : String
  account : String
  sku : String
  kind : String
  tokens : Int
  price : Int
  asset : String
  amount : String
  destination : String
  createdAt : String
  expiresAt : String
  status : String
  txHash : String
  payer : String
  deriving DecidableEq, Repr

structure SubscriptionRow where
  account : String
  planId : String
  startedAt : String
  renewsAt : String
  status : String
  deriving DecidableEq, Repr

/-- The three tables, and the last number that was given to a ledger row. -/
structure Database where
  ledger : List LedgerRow := []
  lastSeq : Nat := 0
  invoices : List InvoiceRow := []
  subscriptions : List SubscriptionRow := []
  deriving DecidableEq, Repr

def byId : Index LedgerRow String := fun row => some row.id

/-- `ledger_reference`, which leaves out the rows without one. -/
def byReference : Index LedgerRow String := fun row => if row.reference = "" then none else some row.reference

/-- What an `INTEGER` column takes. -/
def fits (n : Int) : Bool := -2 ^ 63 ≤ n && n < 2 ^ 63

def overflowError : Failure := .exception "OverflowError" "Python int too large to convert to SQLite INTEGER"

def integrityError (column : String) : Failure := .exception "IntegrityError" ("UNIQUE constraint failed: " ++ column)

def Failure.isIntegrity : Failure → Bool
  | .exception name _ => name = "IntegrityError"
  | _ => false

def entryRow (seq : Nat) (e : LedgerEntry) : LedgerRow :=
  ⟨seq, e.id, e.account, kindValue e.kind, e.tokens, e.amount.micros, isoformat e.at_, e.reference, e.memo⟩

/-- `_entry`. -/
def entryOf (row : LedgerRow) : Except Failure LedgerEntry := do
  let kind ← entryKind row.kind
  let at_ ← time row.at_
  return ⟨row.id, row.account, kind, row.tokens, at_, ⟨row.amount⟩, row.reference, row.memo⟩

def invoiceRow (i : Invoice) : InvoiceRow :=
  ⟨i.id, i.account, i.sku, i.kind, i.tokens, i.price.micros, i.asset, i.amount, i.destination, isoformat i.createdAt,
    isoformat i.expiresAt, invoiceStatusValue i.status, i.txHash, i.payer⟩

/-- `_invoice`. -/
def invoiceOf (row : InvoiceRow) : Except Failure Invoice := do
  let createdAt ← time row.createdAt
  let expiresAt ← time row.expiresAt
  let status ← invoiceStatus row.status
  return ⟨row.id, row.account, row.sku, row.tokens, ⟨row.price⟩, row.asset, row.amount, row.destination, createdAt,
    expiresAt, status, row.kind, row.txHash, row.payer⟩

def subscriptionRow (s : Subscription) : SubscriptionRow :=
  ⟨s.account, s.planId, isoformat s.startedAt, isoformat s.renewsAt, subscriptionStatusValue s.status⟩

def subscriptionOf (row : SubscriptionRow) : Except Failure Subscription := do
  let startedAt ← time row.startedAt
  let renewsAt ← time row.renewsAt
  let status ← subscriptionStatus row.status
  return ⟨row.account, row.planId, startedAt, renewsAt, status⟩

/-- `ON CONFLICT(id) DO UPDATE`: three columns of the new row, the rest of the old one. -/
def InvoiceRow.updated (old excluded : InvoiceRow) : InvoiceRow :=
  { old with status := excluded.status, txHash := excluded.txHash, payer := excluded.payer }

def SubscriptionRow.updated (old excluded : SubscriptionRow) : SubscriptionRow :=
  { old with
    planId := excluded.planId, startedAt := excluded.startedAt, renewsAt := excluded.renewsAt, status := excluded.status }

namespace Database

variable (db : Database)

/-- `INSERT INTO ledger`. -/
def insertEntry (e : LedgerEntry) : Except Failure Database :=
  let row := entryRow (db.lastSeq + 1) e
  if !(fits e.tokens && fits e.amount.micros) then .error overflowError
  else match insert [byId, byReference] row db.ledger with
    | some ledger => .ok { db with ledger := ledger, lastSeq := row.seq }
    | none => .error (integrityError (if refuses byId db.ledger row then "ledger.id" else "ledger.reference"))

/-- `SELECT * FROM ledger WHERE reference = ? AND reference <> ''`, the first row of it. -/
def referenced (reference : String) : Option LedgerRow :=
  db.ledger.find? fun row => row.reference = reference && row.reference ≠ ""

/-- A row that is there already is handed back in place of the one refused. -/
def append (e : LedgerEntry) : Except Failure LedgerEntry × Database :=
  match db.insertEntry e with
  | .ok db => (.ok e, db)
  | .error f =>
      if Failure.isIntegrity f then match db.referenced e.reference with
        | some existing => (entryOf existing, db)
        | none => (.error f, db)
      else (.error f, db)

def ledgerOf (account : String) : List LedgerRow := db.ledger.filter fun row => row.account = account

def entries (account : String) (limit : Int) : Except Failure (List LedgerEntry) :=
  if !fits (max 1 limit) then .error overflowError
  else (latest LedgerRow.seq (max 1 limit).toNat (db.ledgerOf account)).mapM entryOf

def allEntries (account : String) : Except Failure (List LedgerEntry) :=
  (ascending LedgerRow.seq (db.ledgerOf account)).mapM entryOf

def putInvoice (i : Invoice) : Except Failure Invoice × Database :=
  if !(fits i.tokens && fits i.price.micros) then (.error overflowError, db)
  else (.ok i, { db with invoices := upsert InvoiceRow.id InvoiceRow.updated (invoiceRow i) db.invoices })

def invoice (invoiceId : String) : Except Failure (Option Invoice) :=
  match row InvoiceRow.id invoiceId db.invoices with
  | some row => (invoiceOf row).map some
  | none => .ok none

def openInvoices (limit : Int) : Except Failure (List Invoice) :=
  if !fits (max 1 limit) then .error overflowError
  else (((db.invoices.filter fun row => row.status = invoiceStatusValue .pending).insertionSort fun x y =>
    x.createdAt ≤ y.createdAt).take (max 1 limit).toNat).mapM invoiceOf

def putSubscription (s : Subscription) : Subscription × Database :=
  (s, { db with
    subscriptions := upsert SubscriptionRow.account SubscriptionRow.updated (subscriptionRow s) db.subscriptions })

def subscription (account : String) : Except Failure (Option Subscription) :=
  match row SubscriptionRow.account account db.subscriptions with
  | some row => (subscriptionOf row).map some
  | none => .ok none

end Database

end CodeZard.SqliteStore
