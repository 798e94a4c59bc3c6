import CodeZard.BillingService
import CodeZard.Values

namespace CodeZard.X402Service

open Amounts Products Ledgers Invoices Programs Ports

variable (g : Gateway)

def SCHEME : String := "exact"

def QUOTE_TTL : Int := 10 * MINUTE

def DEFAULT_TIMEOUT_S : Int := 120

/-- What the header claims: `transaction` and `invoice` are the strings read out
of its payload block, empty when there are none. -/
structure PaymentPayload where
  scheme : String
  network : String
  transaction : String := ""
  invoice : String := ""
  deriving DecidableEq, Repr

structure PaymentRequirements where
  scheme : String
  network : String
  maxAmountRequired : String
  resource : String
  description : String
  payTo : String
  asset : String
  maxTimeoutSeconds : Int := 300
  memo : String := ""
  invoice : String := ""
  tokens : Option Int := none
  deriving DecidableEq, Repr

/-- The first of two strings that is not empty: `a or b`. -/
def orElse (a b : String) : String := if a = "" then b else a

def requirements (account : String) (resource : String := "") (price : Option Money := none) :
    Billing (PaymentRequirements × Invoice) := do
  let amount := price.getD g.price
  let now ← nowUtc
  let id ← newInvoiceId
  let quote ← network.quote amount g.asset
  let invoice ← store.putInvoice {
    id := id
    account := account
    sku := "x402"
    tokens := BillingService.tokensWorth g amount
    price := amount
    asset := g.asset
    amount := quote
    destination := g.destination
    createdAt := now
    expiresAt := now + QUOTE_TTL
    kind := "x402" }
  return ({
    scheme := SCHEME
    network := g.network
    maxAmountRequired := invoice.amount
    resource := orElse resource g.resource
    description := grouped invoice.tokens ++ " CodeZard tokens"
    payTo := invoice.destination
    asset := g.asset
    maxTimeoutSeconds := DEFAULT_TIMEOUT_S
    memo := invoice.memo
    invoice := invoice.id
    tokens := some invoice.tokens }, invoice)

def invoiceOf (requirements : PaymentRequirements) : Billing (Option Invoice) :=
  if requirements.invoice = "" then return none
  else do
    match ← store.invoice requirements.invoice with
    | none => return none
    | some invoice => do
        let now ← nowUtc
        if invoice.isOpen now then return some invoice else return none

def verify (payload : PaymentPayload) (requirements : PaymentRequirements) : Billing VerifyResult :=
  if payload.scheme ≠ SCHEME then
    return { valid := false, reason := "scheme " ++ Values.Json.quoted payload.scheme ++ " is not supported" }
  else if payload.network ≠ g.network then
    return { valid := false, reason := "this is " ++ g.network ++ ", not " ++ Values.Json.quoted payload.network }
  else if payload.transaction = "" then
    return { valid := false, reason := "the payload carries no signed transaction" }
  else do
    match ← invoiceOf requirements with
    | none => return { valid := false, reason := "that payment requirement is unknown or expired" }
    | some invoice => network.verify payload.transaction invoice

/-- The half of `settle` that comes after the ledger took the transaction. -/
def record (requirements : PaymentRequirements) (verified : VerifyResult) (result : SettleResult) :
    Billing SettleResult := do
  match ← invoiceOf requirements with
  | none => return result
  | some invoice => do
      let payer := orElse (orElse result.payer verified.payer) invoice.account
      let _ ← store.putInvoice (invoice.paid result.transaction payer)
      let _ ← BillingService.credit payer invoice.tokens .purchase (.x402 result.transaction) invoice.price
        ("x402 · " ++ invoice.amount ++ " " ++ invoice.asset)
      return result

def settle (payload : PaymentPayload) (requirements : PaymentRequirements) : Billing SettleResult := do
  let verified ← verify g payload requirements
  if !verified.valid then return { success := false, network := g.network, reason := verified.reason }
  else do
    let result ← network.settle payload.transaction
    if !result.success then return result else record requirements verified result

def namedInvoice (payload : PaymentPayload) : Billing (Option Invoice) :=
  if payload.invoice = "" then return none else store.invoice payload.invoice

def redeem (payload : Except Error PaymentPayload) (resource : String := "") :
    Billing (String × SettleResult) := do
  let payload ← ofExcept payload
  match ← namedInvoice payload with
  | none => .raise (.x402 "that payment does not name an invoice this gateway issued")
  | some invoice => do
      let result ← settle g payload {
        scheme := SCHEME
        network := g.network
        maxAmountRequired := invoice.amount
        resource := orElse resource g.resource
        description := ""
        payTo := invoice.destination
        asset := invoice.asset
        memo := invoice.memo
        invoice := invoice.id }
      if !result.success then .raise (.x402 (orElse result.reason "the payment could not be settled"))
      else return (orElse result.payer invoice.account, result)

end CodeZard.X402Service
