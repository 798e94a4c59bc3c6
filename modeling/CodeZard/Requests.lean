import CodeZard.X402Service

namespace CodeZard.Requests

open Amounts Products Ledgers Periods Invoices Storage Programs Ports Interleaving X402Service

/-- The operations of the two services that touch the store. -/
inductive Request
  | checkout (account sku asset : String)
  | confirm (invoiceId : String)
  | reconcile (limit : Int)
  | requirements (account resource : String) (price : Option Money)
  | settle (payload : PaymentPayload) (requirements : PaymentRequirements)
  | redeem (payload : Except Error PaymentPayload) (resource : String)
  | credit (account : String) (tokens : Int) (kind : EntryKind) (reference : Reference)
      (amount : Money) (memo : String)
  | charge (account runId : String) (usage : Usage)
  | settlePeriod (account : String)
  | authorize (account : String) (needed : Int)

inductive Outcome
  | invoice (i : Invoice)
  | invoices (settled : List Invoice)
  | quoted (r : PaymentRequirements) (i : Invoice)
  | settled (r : SettleResult)
  | redeemed (account : String) (r : SettleResult)
  | entry (e : Option LedgerEntry)
  | subscription (s : Option Subscription)
  | balance (b : Balance)

def body (g : Gateway) : Request → Billing Outcome
  | .checkout account sku asset => .invoice <$> BillingService.checkout g account sku asset
  | .confirm invoiceId => .invoice <$> BillingService.confirm g invoiceId
  | .reconcile limit => .invoices <$> BillingService.reconcile g limit
  | .requirements account resource price =>
      (fun p => .quoted p.1 p.2) <$> X402Service.requirements g account resource price
  | .settle payload requirements => .settled <$> X402Service.settle g payload requirements
  | .redeem payload resource => (fun p => .redeemed p.1 p.2) <$> X402Service.redeem g payload resource
  | .credit account tokens kind reference amount memo =>
      (fun e => .entry (some e)) <$> BillingService.credit account tokens kind reference amount memo
  | .charge account runId usage => .entry <$> BillingService.charge g account runId usage
  | .settlePeriod account => .subscription <$> BillingService.settlePeriod g account
  | .authorize account needed => .balance <$> BillingService.authorize g account needed

abbrev BillingLog := Log Call Call.Answer Error

abbrev InProgress := View Request Call Call.Answer Error Outcome

abbrev Pool := Config World Request Call Call.Answer Error Outcome

abbrev Rule := Condition World Request Call Call.Answer Error Outcome Reply

/-- The pools reached from a world by requests among `starts`, interleaved in
any order, whose steps all meet the rule. -/
abbrev Reachable (g : Gateway) (starts : Request → Prop) (rule : Rule) (w : World) (c : Pool) : Prop :=
  Reaches (body g) World.step starts rule w c

end CodeZard.Requests
