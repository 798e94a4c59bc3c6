import CodeZard.Ports

namespace CodeZard.BillingService

open Amounts Products Ledgers Periods Invoices Programs Ports

variable (g : Gateway)

def balance (account : String) : Billing Balance := do
  return balanceOf account (← store.allEntries account)

/-- The one way tokens come into existence. -/
def credit (account : String) (tokens : Int) (kind : EntryKind) (reference : Reference)
    (amount : Money) (memo : String) : Billing LedgerEntry :=
  if tokens < 0 then .raise (.billing "a credit cannot be negative; use a debit")
  else do
    let id ← entryId
    let now ← nowUtc
    store.append ⟨id, account, kind, tokens, now, amount, reference, memo⟩

def checkout (account sku : String) (asset : String := "") : Billing Invoice := do
  let product ← ofExcept (g.catalog.product sku)
  match product with
  | .plan plan =>
      if !plan.isFree && g.chainAvailable then
        .raise (.billing (plan.name ++ " is subscribed to on chain, not paid by invoice: call subscribe() on "
          ++ g.contractId))
      else if plan.isFree then
        .raise (.billing (plan.name ++ " costs nothing: it is already on this account"))
      else issue product "plan"
  | .pack _ => issue product "pack"
where
  issue (product : Product) (kind : String) : Billing Invoice :=
    if g.destination = "" then
      .raise (.billing ("this gateway has no payment destination configured " ++
        "(GATEWAY_BILLING__DESTINATION), so nothing can be bought here yet"))
    else do
      let asset := upper (if asset = "" then g.asset else asset)
      let now ← nowUtc
      let id ← newInvoiceId
      let amount ← network.quote product.price asset
      store.putInvoice {
        id := id
        account := account
        sku := product.id
        tokens := product.tokens
        price := product.price
        asset := asset
        amount := amount
        destination := g.destination
        createdAt := now
        expiresAt := now + INVOICE_TTL
        kind := kind }

/-- The subscription that a paid plan starts or renews. -/
def subscribe (account : String) (plan : Plan) : Billing Subscription := do
  let now ← nowUtc
  let current ← store.subscription account
  match current with
  | some current =>
      if current.planId = plan.id then store.putSubscription (current.renewed plan now)
      else store.putSubscription (.begin account plan now)
  | none => store.putSubscription (.begin account plan now)

def deliver (invoice : Invoice) : Billing Unit := do
  let product ← ofExcept (g.catalog.product invoice.sku)
  let memo := product.name ++ " · " ++ invoice.amount ++ " " ++ invoice.asset
  match product with
  | .plan plan => do
      let _ ← credit invoice.account invoice.tokens .grant (.invoice invoice.id) invoice.price memo
      let _ ← subscribe invoice.account plan
      return ()
  | .pack _ => do
      let _ ← credit invoice.account invoice.tokens .purchase (.invoice invoice.id) invoice.price memo
      return ()

def confirm (invoiceId : String) : Billing Invoice := do
  match ← store.invoice invoiceId with
  | none => .raise (.invoiceNotFound invoiceId)
  | some invoice =>
      if invoice.status = .paid then return invoice
      else match ← network.paymentFor invoice with
        | none => do
            let now ← nowUtc
            if invoice.isOpen now then return invoice
            else store.putInvoice invoice.expired
        | some payment => do
            let settled ← ofExcept (payment.settles invoice)
            if settled then do
              let paid ← store.putInvoice (invoice.paid payment.txHash payment.payer)
              deliver g paid
              return paid
            else return invoice

/-- The loop of `reconcile`: one bad invoice does not stop the sweep. -/
def sweep : List Invoice → List Invoice → Billing (List Invoice)
  | settled, [] => return settled
  | settled, invoice :: rest => do
      let confirmed ← (some <$> confirm g invoice.id).rescue fun e =>
        if e.isException then .ret none else .raise e
      match confirmed with
      | some confirmed =>
          if confirmed.status = .paid then sweep (settled ++ [confirmed]) rest else sweep settled rest
      | none => sweep settled rest

def reconcile (limit : Int := 100) : Billing (List Invoice) := do
  sweep g [] (← store.openInvoices limit)

def charge (account runId : String) (usage : Usage) : Billing (Option LedgerEntry) := do
  let tokens ← ofExcept (g.catalog.pricing.billable usage)
  if tokens ≤ 0 then return none
  else do
    let id ← entryId
    let now ← nowUtc
    some <$> store.append ⟨id, account, .usage, -tokens, now, usage.cost, .run runId,
      grouped usage.tokens ++ " tokens · " ++ toString usage.calls ++ " calls"⟩

/-- This period's tokens, keyed on the period. -/
def grant (account : String) (plan : Plan) (subscription : Subscription) : Billing LedgerEntry :=
  credit account plan.tokens .grant subscription.grantReference {} (plan.name ++ " · " ++ plan.cadence.value)

def expireGrant (account : String) (subscription : Subscription) (now : Datetime) : Billing Unit := do
  let balance ← balance account
  if balance.granted ≤ 0 then return ()
  else do
    let id ← entryId
    let _ ← store.append ⟨id, account, .expiry, -balance.granted, now, {}, subscription.expiryReference,
      "the period ended and its tokens did not roll over"⟩
    return ()

/-- `None` unless the contract reports a live subscription to a plan on sale.
A contract that cannot be read says nothing. -/
def readChain (account : String) : Billing (Option OnChainSubscription) :=
  if g.chainAvailable then
    (ask (.onChain account)).rescue fun e => if e.isException then .ret none else .raise e
  else return none

def mirror (account : String) (plan : Plan) (onchain : OnChainSubscription) : Billing Subscription := do
  let mirrored : Subscription := ⟨account, plan.id, onchain.started, onchain.expires, .active⟩
  let _ ← store.putSubscription mirrored
  let _ ← credit account plan.tokens .grant onchain.reference {} (plan.name ++ " · on-chain")
  return mirrored

def mirrorChain (account : String) (now : Datetime) : Billing (Option Subscription) := do
  match ← readChain g account with
  | none => return none
  | some onchain =>
      if !onchain.active now then return none
      else match g.catalog.plan onchain.plan with
        | .error _ => return none
        | .ok plan => some <$> mirror account plan onchain

def beginFree (account : String) (now : Datetime) : Billing (Option Subscription) :=
  match g.catalog.freePlan with
  | none => return none
  | some plan => do
      let subscription ← store.putSubscription (.begin account plan now)
      let _ ← grant account plan subscription
      return some subscription

/-- The part of `settle_period` that is left when the chain has nothing live to
say: the row kept here decides. -/
def settleRow (account : String) (now : Datetime) : Billing (Option Subscription) := do
  match ← store.subscription account with
  | none => beginFree g account now
  | some subscription =>
      if !subscription.due now then return some subscription
      else do
        expireGrant account subscription now
        match g.catalog.plan subscription.planId with
        | .ok plan =>
            if plan.isFree then do
              let renewed ← store.putSubscription (subscription.renewed plan now)
              let _ ← grant account plan renewed
              return some renewed
            else some <$> store.putSubscription subscription.ended
        | .error _ => some <$> store.putSubscription subscription.ended

def settlePeriod (account : String) : Billing (Option Subscription) := do
  let now ← nowUtc
  match ← mirrorChain g account now with
  | some mirrored => return some mirrored
  | none => settleRow g account now

def authorize (account : String) (needed : Int := 0) : Billing Balance := do
  let _ ← settlePeriod g account
  let balance ← balance account
  let required := max needed g.reserve
  if balance.canAfford required then return balance
  else .raise (.insufficientFunds required balance.total)

def tokensWorth (amount : Money) : Int := g.catalog.pricing.tokensFor amount

end CodeZard.BillingService
