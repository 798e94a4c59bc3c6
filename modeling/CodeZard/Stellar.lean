import CodeZard.Ports
import CodeZard.Stroops
import CodeZard.Values

namespace CodeZard.Stellar

open Amounts Decimals Invoices Ports Programs Products Stroops Values

structure StellarConfig where
  network : String := "testnet"
  destination : String := ""
  asset : String := "XLM"
  usdcIssuer : String := ""
  xlmUsd : String := ""
  deriving DecidableEq, Repr

def StellarConfig.public (config : StellarConfig) : Bool := config.network = "public"

def StellarConfig.passphrase (config : StellarConfig) : String :=
  if config.public then "Public Global Stellar Network ; September 2015" else "Test SDF Network ; September 2015"

def StellarConfig.x402Network (config : StellarConfig) : String :=
  if config.public then "stellar" else "stellar-testnet"

/-- An asset that somebody issues, under a code of its own choice. -/
@[ext]
structure CreditAsset where
  code : String
  issuer : String
  named : code ≠ ""
  deriving Repr

instance : DecidableEq CreditAsset := fun a b =>
  decidable_of_iff (a.code = b.code ∧ a.issuer = b.issuer) CreditAsset.ext_iff.symm

inductive Asset
  | native
  | credit (a : CreditAsset)
  deriving DecidableEq, Repr

/-- What the HTTP client makes of a request to Horizon. A body may not be JSON. -/
inductive Answer
  | response (status : Nat) (body : Except String Json)
  | unreachable (message : String)
  | raised (e : Error)

inductive Operation
  | payment (destination : String) (asset : Asset) (amount : String)
  | other
  deriving DecidableEq, Repr

structure TimeBounds where
  minTime : Nat
  maxTime : Nat
  deriving DecidableEq, Repr

structure Envelope where
  source : String
  memo : Option String
  timeBounds : Option TimeBounds
  operations : List Operation
  signatures : List String
  deriving DecidableEq, Repr

/-- What is asked of the Stellar dependency: reading an envelope, the hash that
its signatures are over, whether an address is a key, and the check of one
signature. -/
structure Sdk where
  fromXdr : String → String → Except String Envelope
  hash : String → Envelope → Option String
  isKey : String → Bool
  verifies : String → String → String → Bool

/-- The dependency, when it is installed, and the reading of a record's time. -/
structure Outside where
  sdk : Option Sdk := none
  time : Json → Datetime := fun _ => 0

/-- `_decimal`: zero for anything that is not a finite number. -/
def decimalOf (value : Json) : Decimal :=
  match parse (value.or (.str "0")).text with
  | some d => if isFinite d then d else .finite false 0 0
  | none => .finite false 0 0

def signals {α : Type} : Except Signal α → Except Error α
  | .ok a => .ok a
  | .error signal => .error (.decimal signal)

def records : Json → List Fields
  | .dict body => match Json.get body "_embedded" with
    | .dict embedded => match Json.get embedded "records" with
      | .list records => records.filterMap fun r => match r with
        | .dict fields => some fields
        | _ => none
      | _ => []
    | _ => []
  | _ => []

/-- `fields.get(key) == s`. -/
def isText (fields : Fields) (key s : String) : Bool :=
  match Json.get fields key with
  | .str t => t = s
  | _ => false

def memoText (record : Fields) : String :=
  match Json.get record "transaction" with
  | .dict transaction =>
      if isText transaction "memo_type" "text" then ((Json.get transaction "memo").or (.str "")).text else ""
  | _ => ""

/-- One Horizon payment record, or `none` when it is not a payment to read. -/
def payment (time : Json → Datetime) (record : Fields) : Option ObservedPayment :=
  if !isText record "type" "payment" && !isText record "type" "create_account" then none
  else some {
    txHash := ((Json.get record "transaction_hash").or (.str "")).text
    payer := (((Json.get record "from").or (Json.get record "funder")).or (.str "")).text
    destination := (((Json.get record "to").or (Json.get record "account")).or (.str "")).text
    asset := if (record.lookup "asset_type").isNone || isText record "asset_type" "native" then "XLM"
      else upper ((Json.get record "asset_code").or (.str "?")).text
    amount := (((Json.get record "amount").or (Json.get record "starting_balance")).or (.str "0")).text
    memo := memoText record
    at_ := time (Json.get record "created_at") }

/-- The payment carrying this invoice's memo, or `none`. -/
def paymentFor (out : Outside) (invoice : Invoice) : Answer → Except Error (Option ObservedPayment)
  | .raised e => .error e
  | .unreachable message => .error (.failed ("Horizon could not be reached: " ++ message))
  | .response status body =>
      if status = 404 then .ok none
      else if 400 ≤ status then .error (.failed ("Horizon answered " ++ toString status))
      else match body with
        | .error message => .error (.failed message)
        | .ok body => .ok ((records body).findSome? fun record =>
            (payment out.time record).filter fun p => p.memo = invoice.memo)

section Network

variable (config : StellarConfig) (out : Outside)

/-- What one XLM is worth, from the exchange when it can be asked and else the
rate of the configuration. -/
def xlmUsd (answer : Answer) : Except Error Decimal :=
  let fallback := decimalOf (.str config.xlmUsd)
  if config.usdcIssuer = "" then .ok fallback
  else match answer with
    | .raised e => .error e
    | .response status (.ok body) =>
        if 400 ≤ status then .ok fallback
        else .ok (((records body).map fun record => decimalOf (Json.get record "destination_amount")).find? isPositive
          |>.getD fallback)
    | _ => .ok fallback

/-- A price in an asset, as Stellar spells amounts. -/
def quote (price : Money) (asset : String) (answer : Answer) : Except Error String :=
  let asset := upper (if asset = "" then config.asset else asset)
  if asset = "USDC" then signals ((decimal price).bind amount)
  else do
    let rate ← xlmUsd config answer
    if !isPositive rate then
      .error (.failed ("there is no XLM/USD rate: the DEX could not be asked and no fallback rate " ++
        "is configured (GATEWAY_BILLING__XLM_USD)"))
    else signals do amount (← div (← decimal price) rate)

def horizonError (body : Fields) : String :=
  match Json.get body "extras" with
  | .dict extras => match Json.get extras "result_codes" with
    | .dict codes =>
        let detail := match Json.get codes "operations" with
          | .list operations => ", ".intercalate (operations.map Json.text)
          | _ => ""
        let headline := ((Json.get codes "transaction").or (.str "the transaction failed")).text
        if detail = "" then headline else headline ++ " (" ++ detail ++ ")"
    | _ => title
  | _ => title
where
  title : String := ((Json.get body "title").or (.str "Horizon refused the transaction")).text

def settle : Answer → Except Error SettleResult
  | .raised e => .error e
  | .unreachable message =>
      .ok { success := false, network := config.x402Network, reason := "Horizon could not be reached: " ++ message }
  | .response status body =>
      let body := match body with
        | .ok (.dict fields) => fields
        | _ => []
      let hash := ((Json.get body "hash").or (.str "")).text
      if 400 ≤ status then
        .ok { success := false, network := config.x402Network, reason := horizonError body }
      else if !((body.lookup "successful").getD (.bool true)).truthy then
        .ok { success := false, network := config.x402Network, transaction := hash
              reason := "the transaction was included and failed" }
      else
        .ok { success := true, network := config.x402Network, transaction := hash
              payer := ((Json.get body "source_account").or (.str "")).text }

def signedBy (sdk : Sdk) (envelope : Envelope) (address : String) : Bool :=
  match sdk.hash config.passphrase envelope with
  | none => false
  | some digest => sdk.isKey address && envelope.signatures.any (sdk.verifies address digest)

def assetCode : Asset → String
  | .native => "XLM"
  | .credit a => upper a.code

/-- The first operation that pays the destination in an asset of the code. -/
def deciding (invoice : Invoice) : List Operation → Option (Asset × String)
  | [] => none
  | .other :: rest => deciding invoice rest
  | .payment destination asset amount :: rest =>
      if destination ≠ invoice.destination then deciding invoice rest
      else if assetCode asset ≠ upper invoice.asset then deciding invoice rest
      else some (asset, amount)

/-- Read the envelope back and check that it really pays this invoice. -/
def verify (transaction : String) (invoice : Invoice) : Except Error VerifyResult :=
  match out.sdk with
  | none => .ok { valid := false, reason := "this gateway cannot read signed transactions: the Stellar dependency is " ++
      "not installed (pip install -e \".[stellar]\")" }
  | some sdk => match sdk.fromXdr transaction config.passphrase with
    | .error message => .ok { valid := false, reason := "the transaction could not be read: " ++ message }
    | .ok envelope =>
        let payer := envelope.source
        let memo := envelope.memo.getD ""
        if memo ≠ invoice.memo then
          .ok { valid := false, payer := payer
                reason := "the transaction's memo is " ++ Json.quoted memo ++ ", not " ++ Json.quoted invoice.memo }
        else if !signedBy config sdk envelope payer then
          .ok { valid := false, payer := payer
                reason := "the transaction is not signed by its source account for " ++ config.network }
        else match deciding invoice envelope.operations with
          | none =>
              .ok { valid := false, payer := payer
                    reason := "no operation pays " ++ invoice.asset ++ " to " ++ invoice.destination }
          | some (_, paid) => signals do
              let written ← amount (decimalOf (.str paid))
              if ← le (decimalOf (.str invoice.amount)) (decimalOf (.str paid)) then
                .ok { valid := true, payer := payer, amount := written }
              else
                .ok { valid := false, payer := payer, amount := written
                      reason := "it pays " ++ written ++ " and the price is " ++ invoice.amount }

/-- What reaches the gateway: an answer of Horizon, where it is asked, and
everything else as it is. -/
inductive Heard
  | plain (r : Reply)
  | http (answer : Answer)

def replyOf {α : Type} (f : α → Reply) : Except Error α → Reply
  | .ok a => f a
  | .error e => .raised e

def reply : Ports.Call → Heard → Option Reply
  | .paymentFor invoice, .http answer => some (replyOf .payment (paymentFor out invoice answer))
  | .quote price asset, .http answer => some (replyOf .text (quote config price asset answer))
  | .settle _, .http answer => some (replyOf .settled (settle config answer))
  | .verify transaction invoice, .plain .done => some (replyOf .verified (verify config out transaction invoice))
  | .paymentFor _, .plain _ | .quote .., .plain _ | .settle _, .plain _ | .verify .., _ => none
  | _, .plain r => some r
  | _, .http _ => none

def step : Step Ports.Call Call.Answer Error World Heard := fun w c heard =>
  (reply config out c heard).bind (World.step w c)

end Network

theorem step_world {config : StellarConfig} {out : Outside} {w w' : World} {c : Ports.Call} {heard : Heard}
    {a : Except Error c.Answer} (h : step config out w c heard = some (a, w')) :
    ∃ r, reply config out c heard = some r ∧ World.step w c r = some (a, w') :=
  Option.bind_eq_some_iff.1 h

end CodeZard.Stellar
