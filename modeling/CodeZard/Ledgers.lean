import CodeZard.Products

namespace CodeZard.Ledgers

open Amounts Products

inductive EntryKind
  | grant
  | purchase
  | usage
  | refund
  | adjustment
  | expiry
  deriving DecidableEq, Repr

/-- The kinds in `CREDITS`. -/
def EntryKind.isCredit : EntryKind → Bool
  | .grant | .purchase | .refund => true
  | .usage | .adjustment | .expiry => false

/-- The idempotency key of an entry, by what it is built from: the text before
the first colon is the constructor, and a `period_key` is its plan and its time. -/
inductive Reference
  | blank
  | invoice (invoiceId : String)
  | x402 (transaction : String)
  | run (runId : String)
  | grant (planId : String) (renewsAt : Datetime)
  | chain (planId : String) (started : Int)
  | expiry (planId : String) (renewsAt : Datetime)
  deriving DecidableEq, Repr

structure LedgerEntry where
  id : String
  account : String
  kind : EntryKind
  tokens : Int
  at_ : Datetime
  amount : Money := {}
  reference : Reference := .blank
  memo : String := ""
  deriving DecidableEq, Repr

structure Balance where
  account : String
  granted : Int := 0
  purchased : Int := 0
  deriving DecidableEq, Repr

def Balance.total (b : Balance) : Int := b.granted + b.purchased

def Balance.canAfford (b : Balance) (tokens : Int) : Bool := tokens ≤ b.total

/-- The two running totals of a replay, before they are netted. The purchased
one goes below zero to carry what was spent beyond both. -/
structure Pools where
  granted : Int := 0
  purchased : Int := 0
  deriving DecidableEq, Repr

def Pools.replay (p : Pools) (entry : LedgerEntry) : Pools :=
  match entry.kind with
  | .grant => { p with granted := p.granted + entry.tokens }
  | .expiry => { p with granted := max 0 (p.granted + entry.tokens) }
  | .purchase | .refund => { p with purchased := p.purchased + entry.tokens }
  | .usage | .adjustment =>
      let owed := -entry.tokens
      let fromGrant := min p.granted owed
      ⟨p.granted - fromGrant, p.purchased - (owed - fromGrant)⟩

def Pools.net (p : Pools) : Pools :=
  if p.purchased < 0 then ⟨p.granted + p.purchased, 0⟩ else p

def Pools.after (entries : List LedgerEntry) : Pools := entries.foldl Pools.replay {}

def balanceOf (account : String) (entries : List LedgerEntry) : Balance :=
  let p := (Pools.after entries).net
  ⟨account, max 0 p.granted, max 0 p.purchased⟩

def tokensOf (entries : List LedgerEntry) : Int := (entries.map LedgerEntry.tokens).sum

@[simp] theorem Pools.after_nil : Pools.after [] = {} := rfl

@[simp] theorem Pools.after_append_singleton (L : List LedgerEntry) (e : LedgerEntry) :
    Pools.after (L ++ [e]) = (Pools.after L).replay e := by
  simp [Pools.after]

@[simp] theorem tokensOf_nil : tokensOf [] = 0 := rfl

@[simp] theorem tokensOf_append (L M : List LedgerEntry) : tokensOf (L ++ M) = tokensOf L + tokensOf M := by
  simp [tokensOf]

@[simp] theorem tokensOf_cons (e : LedgerEntry) (L : List LedgerEntry) :
    tokensOf (e :: L) = e.tokens + tokensOf L := by
  simp [tokensOf]

def shown (entries : List LedgerEntry) : Int :=
  (Pools.after entries).granted + min 0 (Pools.after entries).purchased

theorem granted_eq (account : String) (L : List LedgerEntry) :
    (balanceOf account L).granted =
      max 0 ((Pools.after L).granted + min 0 (Pools.after L).purchased) := by
  simp only [balanceOf, Pools.net]
  split
  · simp only; omega
  · omega

theorem granted_eq_shown (account : String) (L : List LedgerEntry) :
    (balanceOf account L).granted = max 0 (shown L) :=
  granted_eq account L

theorem shown_grant {e : LedgerEntry} (h : e.kind = .grant) (L : List LedgerEntry) :
    shown (L ++ [e]) = shown L + e.tokens := by
  simp only [shown, Pools.after_append_singleton, Pools.replay, h]
  omega

theorem shown_usage {e : LedgerEntry} (h : e.kind = .usage) (ht : e.tokens ≤ 0) (L : List LedgerEntry) :
    shown (L ++ [e]) ≤ max 0 (shown L) := by
  simp only [shown, Pools.after_append_singleton, Pools.replay, h]
  omega

theorem shown_purchase {e : LedgerEntry} (h : e.kind = .purchase) (ht : 0 ≤ e.tokens) {L : List LedgerEntry}
    (hp : 0 ≤ (Pools.after L).purchased) : shown (L ++ [e]) = shown L := by
  simp only [shown, Pools.after_append_singleton, Pools.replay, h]
  omega

theorem shown_expiry (account : String) {e : LedgerEntry} {L : List LedgerEntry} (h : e.kind = .expiry)
    (ht : e.tokens = -(balanceOf account L).granted) (hpos : 0 < (balanceOf account L).granted) :
    shown (L ++ [e]) = 0 := by
  rw [granted_eq] at ht hpos
  simp only [shown, Pools.after_append_singleton, Pools.replay, h]
  omega

theorem purchased_eq (account : String) (L : List LedgerEntry) :
    (balanceOf account L).purchased = max 0 (Pools.after L).purchased := by
  simp only [balanceOf, Pools.net]
  split
  · simp only; omega
  · rfl

theorem granted_nonneg (account : String) (L : List LedgerEntry) : 0 ≤ (balanceOf account L).granted :=
  le_max_left _ _

theorem purchased_nonneg (account : String) (L : List LedgerEntry) : 0 ≤ (balanceOf account L).purchased :=
  le_max_left _ _

end CodeZard.Ledgers
