import CodeZard.Decimals

namespace CodeZard.Amounts

/-- Whatever a call may end by raising. Only `cancelled` is let through by a handler
of every exception. -/
inductive Error
  | billing (message : String)
  | insufficientFunds (needed available : Int)
  | unknownProduct (sku : String)
  | invoiceNotFound (invoiceId : String)
  | x402 (message : String)
  | integrity
  | decimal (signal : Decimals.Signal)
  | failed (message : String)
  | cancelled
  deriving DecidableEq, Repr

def Error.isException : Error → Bool
  | .cancelled => false
  | _ => true

def MICROS : Int := 1000000

def PER_MILLION : Int := 1000000

/-- An amount of USD, in micros. -/
structure Money where
  micros : Int := 0
  deriving DecidableEq, Repr

def Money.usd (dollars : Int) : Money := ⟨dollars * MICROS⟩

def Money.isZero (m : Money) : Bool := m.micros = 0

def Money.scaled (m : Money) (numerator denominator : Int) : Except Error Money :=
  if denominator = 0 then .error (.billing "a price cannot be scaled by zero")
  else .ok ⟨(m.micros * numerator + denominator.fdiv 2).fdiv denominator⟩

/-- What one run really consumed, as the agent measured it. -/
structure Usage where
  tokens : Int := 0
  calls : Int := 0
  cost : Money := {}
  simulated : Bool := false
  deriving DecidableEq, Repr

def Usage.isEmpty (u : Usage) : Bool := u.calls = 0 && u.tokens = 0

structure Pricing where
  perMillion : Money := .usd 6
  marginBps : Int := 3000
  minimumCharge : Int := 1000
  deriving DecidableEq, Repr

namespace Pricing

def costOf (p : Pricing) (tokens : Int) : Except Error Money :=
  p.perMillion.scaled (max 0 tokens) PER_MILLION

def tokensFor (p : Pricing) (amount : Money) : Int :=
  if p.perMillion.micros ≤ 0 then 0
  else max 0 ((amount.micros * PER_MILLION).fdiv p.perMillion.micros)

def billable (p : Pricing) (usage : Usage) : Except Error Int :=
  if usage.simulated || usage.isEmpty then .ok 0
  else if usage.cost.isZero then .ok (max p.minimumCharge usage.tokens)
  else (usage.cost.scaled (10000 + p.marginBps) 10000).map fun markedUp =>
    max p.minimumCharge (p.tokensFor markedUp)

end Pricing

/-- The `,` of a format specification: digits in groups of three. -/
def groupThrees : List Char → List Char
  | a :: b :: c :: d :: ds => a :: b :: c :: ',' :: groupThrees (d :: ds)
  | ds => ds

def grouped (n : Int) : String :=
  (if n < 0 then "-" else "") ++
    String.ofList (groupThrees (Nat.toDigits 10 n.natAbs).reverse).reverse

example : grouped (-1234567) = "-1,234,567" := by decide +kernel

end CodeZard.Amounts
