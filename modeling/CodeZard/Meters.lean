import CodeZard.Compositions
import CodeZard.Orchestration
import CodeZard.Requests

namespace CodeZard.Meters

open Amounts Ledgers Programs Interleaving Compositions Ports Values

/-- A gateway with billing: a call of the orchestrator that is not to its meter,
or a call of the meter. -/
inductive Call
  | run (c : Orchestration.Call)
  | billing (c : Ports.Call)

abbrev Call.Answer : Call → Type
  | .run c => Except Failure c.Answer
  | .billing c => Except Error c.Answer

inductive Reply
  | run (r : Orchestration.Reply)
  | billing (r : Ports.Reply)
  deriving DecidableEq

structure World where
  runs : Orchestration.World := {}
  billing : Ports.World := {}

def World.step : Step Call Call.Answer Failure World Reply
  | w, .run c, .run r => (w.runs.step c r).map fun s => (.ok s.1, { w with runs := s.2 })
  | w, .billing c, .billing r => (w.billing.step c r).map fun s => (.ok s.1, { w with billing := s.2 })
  | _, _, _ => none

abbrev Metered := Prog Call Call.Answer Failure

def asFailure : Error → Failure
  | .billing message => .exception "BillingError" message
  | .insufficientFunds needed available => .exception "InsufficientFundsError"
      ("This account has " ++ grouped available ++ " tokens and needs " ++ grouped needed ++ " for that run")
  | .unknownProduct sku => .exception "UnknownProductError" ("There is no plan or token pack called " ++ Json.quoted sku)
  | .invoiceNotFound _ => .exception "InvoiceNotFoundError" "That invoice does not exist, or it expired"
  | .x402 message => .exception "X402Error" message
  | .integrity => .exception "IntegrityError" "UNIQUE constraint failed: ledger.id"
  | .decimal signal => .exception (StreamScans.signalName signal) ("[<class 'decimal." ++ StreamScans.signalName signal ++ "'>]")
  | .failed message => .exception "Exception" message
  | .cancelled => .cancelled

theorem asFailure_isException (e : Error) : (asFailure e).isException = e.isException := by
  cases e <;> rfl

def runly (c : Orchestration.Call) : Metered (Except Failure c.Answer) := perform (Call.run c)

def billingly (c : Ports.Call) : Metered (Except Error c.Answer) := perform (Call.billing c)

variable (g : Gateway)

/-- The orchestrator's calls: those to its meter are what the billing service does. -/
def metered : (c : Orchestration.Call) → Metered (Except Failure c.Answer)
  | .authorize account => do
      let balance ← through billingly (BillingService.authorize g account)
      return (balance.map fun _ => ()).mapError asFailure
  | .charge account runId usage => do
      let entry ← through billingly (BillingService.charge g account runId usage)
      return (entry.map fun entry => entry.map LedgerEntry.tokens).mapError asFailure
  | c => runly c

/-- A move of a run, or one of the operations of the billing services. -/
inductive Request
  | move (q : Orchestration.Request)
  | billing (q : Requests.Request)

def body (settings : Orchestration.Settings) (loads : RunLogs.Bytes → Except String Json) : Request → Metered Unit
  | .move q => do let _ ← ofExcept (← through (metered g) (Orchestration.body settings loads q))
  | .billing q => do let _ ← through billingly (Requests.body g q)

abbrev MeterLog := Log Call Call.Answer Failure

abbrev InProgress := View Request Call Call.Answer Failure Unit

abbrev Rule := Condition World Request Call Call.Answer Failure Unit Reply

end CodeZard.Meters
