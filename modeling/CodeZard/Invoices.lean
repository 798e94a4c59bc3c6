import CodeZard.Products

namespace CodeZard.Invoices

open Amounts Products Decimals

inductive InvoiceStatus
  | pending
  | paid
  | expired
  | cancelled
  deriving DecidableEq, Repr

def INVOICE_TTL : Int := 30 * MINUTE

structure Invoice where
  id : String
  account : String
  sku : String
  tokens : Int
  price : Money
  asset : String
  amount : String
  destination : String
  createdAt : Datetime
  expiresAt : Datetime
  status : InvoiceStatus := .pending
  kind : String := "pack"
  txHash : String := ""
  payer : String := ""
  deriving DecidableEq, Repr

namespace Invoice

def memo (i : Invoice) : String := i.id

def isOpen (i : Invoice) (now : Datetime) : Bool := i.status = .pending && now < i.expiresAt

def paid (i : Invoice) (txHash payer : String) : Invoice :=
  { i with status := .paid, txHash := txHash, payer := payer }

def expired (i : Invoice) : Invoice := { i with status := .expired }

/-- What an upsert leaves of the old row: its terms, with the status, the
transaction and the payer of the new one. -/
def settledAs (old new : Invoice) : Invoice :=
  { old with status := new.status, txHash := new.txHash, payer := new.payer }

def SameTerms (i j : Invoice) : Prop := i.settledAs j = j

theorem isOpen_iff {i : Invoice} {now : Datetime} :
    i.isOpen now = true ↔ i.status = .pending ∧ now < i.expiresAt := by
  simp [isOpen]

theorem SameTerms.settledAs {i j : Invoice} (h : i.SameTerms j) (k : Invoice) :
    i.SameTerms (j.settledAs k) := by
  unfold SameTerms at h ⊢
  rw [← h]
  rfl

theorem SameTerms.trans {i j k : Invoice} (h : i.SameTerms j) (h' : j.SameTerms k) : i.SameTerms k := by
  unfold SameTerms at h h' ⊢
  rw [← h', ← h]
  rfl

theorem SameTerms.symm_trans {i j k : Invoice} (h : i.SameTerms j) (h' : i.SameTerms k) : j.SameTerms k := by
  unfold SameTerms at h h' ⊢
  rw [← h, ← h']
  rfl

theorem SameTerms.id_eq {i j : Invoice} (h : i.SameTerms j) : j.id = i.id :=
  (congrArg Invoice.id h).symm

theorem SameTerms.tokens_eq {i j : Invoice} (h : i.SameTerms j) : j.tokens = i.tokens :=
  (congrArg Invoice.tokens h).symm

theorem SameTerms.sku_eq {i j : Invoice} (h : i.SameTerms j) : j.sku = i.sku :=
  (congrArg Invoice.sku h).symm

theorem SameTerms.account_eq {i j : Invoice} (h : i.SameTerms j) : j.account = i.account :=
  (congrArg Invoice.account h).symm

theorem settledAs_key (old new : Invoice) (h : old.id = new.id) : (old.settledAs new).id = new.id := h

end Invoice

structure ObservedPayment where
  txHash : String
  payer : String
  destination : String
  asset : String
  amount : String
  memo : String
  at_ : Datetime
  deriving DecidableEq, Repr

/-- `str.upper` on ASCII, whose letters and digits asset codes are made of. -/
def upper (s : String) : String := s.map Char.toUpper

/-- `Decimal(10_000 - tolerance_bps) / Decimal(10_000)` at the default tolerance. -/
def toleranceFactor : Decimal := .finite false 99 (-2)

/-- The two amounts are parsed under a handler, the comparison is not: a product
that overflows or an amount that is not a number raises. -/
def ObservedPayment.settles (p : ObservedPayment) (invoice : Invoice) : Except Error Bool :=
  if p.memo ≠ invoice.memo ∨ p.destination ≠ invoice.destination then .ok false
  else if upper p.asset ≠ upper invoice.asset then .ok false
  else match parse p.amount, parse invoice.amount with
    | some paid, some owed => match (mul owed toleranceFactor).bind fun least => le least paid with
      | .ok b => .ok b
      | .error signal => .error (.decimal signal)
    | _, _ => .ok false

section Settling

variable {p : ObservedPayment} {i : Invoice}

theorem ObservedPayment.settles_ok (h : p.settles i = .ok true) :
    (p.memo = i.memo ∧ p.destination = i.destination) ∧ upper p.asset = upper i.asset := by
  unfold settles at h
  split at h
  · cases h
  · rename_i hsent
    push Not at hsent
    split at h
    · cases h
    · exact ⟨hsent, not_not.1 ‹_›⟩

theorem ObservedPayment.settles_error {e : Error} (h : p.settles i = .error e) : e.isException = true := by
  unfold settles at h
  split at h
  · cases h
  · split at h
    · cases h
    · split at h
      · split at h
        · cases h
        · cases h
          rfl
      · cases h

end Settling

end CodeZard.Invoices
