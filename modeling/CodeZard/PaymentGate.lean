import CodeZard.Compositions
import CodeZard.Hearings
import CodeZard.PaymentHeaders
import CodeZard.Requests
import CodeZard.SignIns

namespace CodeZard.PaymentGate

open Amounts Ledgers Invoices Programs Interleaving Compositions Values Decimals
open JsonTexts (Floats)
open Hearings
open X402Service (PaymentRequirements)

/-- The whole 402 body: why, and what would be accepted instead. -/
structure PaymentRequired where
  error : String
  accepts : List PaymentRequirements := []
  deriving DecidableEq, Repr

/-- A call of the identity service or of the billing services. -/
inductive Call
  | identity (c : Identity.Call)
  | billing (c : Ports.Call)

abbrev Call.Answer : Call → Type
  | .identity c => Except Failure c.Answer
  | .billing c => Except Error c.Answer

inductive Reply
  | identity (r : Identity.Reply)
  | billing (r : Ports.Reply)
  deriving DecidableEq

structure World where
  identity : Identity.World := {}
  billing : Ports.World := {}

/-- What is raised here: a 402 with its body, or what one of the services raised. -/
inductive Raised
  | paymentRequired (document : PaymentRequired)
  | identity (f : Failure)
  | billing (e : Error)
  deriving DecidableEq

def World.step (mac : RunLogs.Bytes → RunLogs.Bytes) : Step Call Call.Answer Raised World Reply
  | w, .identity c, .identity r =>
      (Identity.World.step mac w.identity c r).map fun s => (.ok s.1, { w with identity := s.2 })
  | w, .billing c, .billing r => (w.billing.step c r).map fun s => (.ok s.1, { w with billing := s.2 })
  | _, _, _ => none

abbrev Gated := Prog Call Call.Answer Raised

def identically (c : Identity.Call) : Gated (Except Failure c.Answer) := perform (Call.identity c)

def billingly (c : Ports.Call) : Gated (Except Error c.Answer) := perform (Call.billing c)

/-- Which of the services this gateway has. -/
structure Container where
  billing : Bool := true
  x402 : Bool := true
  identity : Bool := true
  deriving DecidableEq, Repr

/-- `challenge`: the body of a 402. -/
def challenge (g : Ports.Gateway) (account reason resource : String) : Ports.Billing PaymentRequired := do
  let quoted ← X402Service.requirements g account resource
  return ⟨reason, [quoted.1]⟩

/-- `text.partition(" ")`, without the separator. -/
def partitioned (text : String) : List Char × List Char :=
  let (head, tail) := text.toList.span fun c => c ≠ ' '
  (head, tail.drop 1)

def bearer (authorization : String) : Option String :=
  let (scheme, token) := partitioned authorization
  if scheme.map Char.toLower ≠ "bearer".toList ∨ token = [] then none else some (stripped (String.ofList token))

def isIdentityError : Failure → Bool
  | .exception name _ => name = "IdentityError" || name = "UnverifiableError"
  | _ => false

def addressOf : Identity.Response → String
  | .account address => address
  | _ => ""

section Deciding

variable (container : Container) (g : Ports.Gateway) (settings : Identity.Settings) (real : Floats)
  (why : List Char → String) (loads : RunLogs.Bytes → Except String Json)

/-- `_session_account`. -/
def sessionAccount (authorization : String) : Gated String :=
  let (scheme, token) := partitioned authorization
  if scheme.map Char.toLower ≠ "bearer".toList ∨ token = [] ∨ container.identity = false then return ""
  else do
    match ← through identically (Identity.accountOf loads (stripped (String.ofList token))) with
    | .ok response => return addressOf response
    | .error f => if isIdentityError f then return "" else .raise (.identity f)

/-- `_refuse`. A 402 that cannot be priced is a 402 all the same. -/
def refuse {α : Type} (account reason path : String) : Gated α :=
  if container.x402 = false then .raise (.paymentRequired ⟨reason, []⟩)
  else do
    match ← through billingly (challenge g account reason path) with
    | .ok document => .raise (.paymentRequired document)
    | .error e => if e.isException then .raise (.paymentRequired ⟨reason, []⟩) else .raise (.billing e)

/-- `_paid_account`. -/
def paidAccount (header path : String) : Gated (String × Option Ports.SettleResult) := do
  match ← through billingly (PaymentHeaders.redeem real why g header path) with
  | .ok (account, settlement) => return (account, some settlement)
  | .error (.x402 message) => refuse container g "" message path
  | .error e => .raise (.billing e)

def sessionOrPayment (account header path : String) : Gated (String × Option Ports.SettleResult) :=
  if account = "" ∧ header ≠ "" ∧ container.x402 = true then paidAccount container g real why header path
  else return (account, none)

def insufficient (needed available : Int) : String :=
  "This account has " ++ grouped available ++ " tokens and needs " ++ grouped needed ++ " for that run"

/-- `payer_of`, and the settlement that is left in the request. -/
def payerOf (authorization header path : String) : Gated (String × Option Ports.SettleResult) :=
  if container.billing = false then return ("", none)
  else do
    let account ← sessionAccount container loads authorization
    let payer ← sessionOrPayment container g real why account header path
    if payer.1 = "" then
      refuse container g "" "this gateway charges for runs: sign in or pay per call" path
    else do
      match ← through billingly (BillingService.authorize g payer.1) with
      | .ok _ => return payer
      | .error (.insufficientFunds needed available) => refuse container g payer.1 (insufficient needed available) path
      | .error e => .raise (.billing e)

/-- A request that starts something, or one of the operations of the services. -/
inductive Request
  | payer (authorization header path : String)
  | identity (q : Identity.Request)
  | billing (q : Requests.Request)

def Request.brought : Request → Option (String × String × String)
  | .payer authorization header path => some (authorization, header, path)
  | .identity _ | .billing _ => none

theorem Request.eq_payer {q : Request} {authorization header path : String}
    (h : q.brought = some (authorization, header, path)) : q = .payer authorization header path := by
  cases q <;> cases h
  rfl

def body : Request → Gated (Option (String × Option Ports.SettleResult))
  | .payer authorization header path => some <$> payerOf container g real why loads authorization header path
  | .identity q => do
      let _ ← through identically (Identity.body settings loads q)
      return none
  | .billing q => do
      let _ ← through billingly (Requests.body g q)
      return none

end Deciding

abbrev GateLog := Log Call Call.Answer Raised

abbrev Rule := Condition World Request Call Call.Answer Raised (Option (String × Option Ports.SettleResult)) Reply

section Gate

open Endings Identity

variable {container : Container} {g : Ports.Gateway} {settings : Identity.Settings} {real : Floats}
  {why : List Char → String} {loads : RunLogs.Bytes → Except String Json} {mac : RunLogs.Bytes → RunLogs.Bytes}

theorem keeps_challenge (account reason path : String) (log : Requests.BillingLog) :
    Keeps (fun _ _ => True) said (fun o log => ∀ document, o = .ok document → ∃ i,
      ⟨.putInvoice i, .ok i⟩ ∈ log ∧ i.status = .pending ∧ i.kind = "x402" ∧ i.account = account ∧ i.asset = g.asset ∧
        document = ⟨reason, [offerOf g path i]⟩) (challenge g account reason path) log := by
  refine keeps_bind.2 ((keeps_requirements account path log).mono fun o log h => ?_)
  cases o with
  | error e => exact fun _ h => nomatch h
  | ok quoted =>
      obtain ⟨r, i⟩ := quoted
      obtain ⟨hput, hstatus, hkind, haccount, hasset, rfl⟩ := h r i rfl
      intro document hd
      cases hd
      exact ⟨i, hput, hstatus, hkind, haccount, hasset, rfl⟩

theorem blames_challenge (account reason path : String) :
    Blames said (fun _ => False) (challenge g account reason path) := by
  have hrequirements : Blames said (fun _ => False) (X402Service.requirements g account path) :=
    (blames_perform _).bind fun _ => (blames_perform _).bind fun _ => (blames_perform _).bind fun _ =>
      (blames_perform _).bind fun _ => blames_ret _
  exact hrequirements.bind fun _ => blames_ret _

def answered (mac : RunLogs.Bytes → RunLogs.Bytes) (_ : GateLog) : (c : Call) → Except Raised c.Answer → Prop
  | .identity c, a => ∃ b, a = .ok b ∧ SignIns.answers mac c b
  | .billing c, a => ∃ b, a = .ok b ∧ said [] c b

def HeardIdentity (log : GateLog) (c : Identity.Call) (a : Except Failure c.Answer) : Prop := ⟨.identity c, .ok a⟩ ∈ log

def Heard (log : GateLog) (c : Ports.Call) (a : Except Error c.Answer) : Prop := ⟨.billing c, .ok a⟩ ∈ log

theorem keeps_call {c : Call} {post : Except Raised c.Answer → GateLog → Prop} {log : GateLog}
    (h : ∀ a, answered mac log c a → post a (⟨c, a⟩ :: log)) :
    Keeps (fun _ _ => True) (answered mac) post (perform c : Gated c.Answer) log :=
  keeps_perform.2 ⟨trivial, h⟩

variable (mac) in
theorem keeps_billing {α : Type} {post : Except Error α → Requests.BillingLog → Prop} {p : Ports.Billing α}
    (h : Keeps (fun _ _ => True) said post p []) (log : GateLog) :
    Keeps (fun _ _ => True) (answered mac) (fun o log' => ∃ o' inner, o = .ok o' ∧ post o' inner ∧
      ∀ x ∈ inner, Heard log' x.1 x.2) (through billingly p) log := by
  refine keeps_heard (fun inner log' c => keeps_call (c := .billing c) ?_) h log
  rintro _ ⟨b, rfl, hb⟩
  exact ⟨b, rfl, hb, List.mem_cons_self, fun _ _ hheard => List.mem_cons_of_mem _ hheard⟩

theorem keeps_identity {α : Type} {post : Except Failure α → Sessions.IdentityLog → Prop} {p : Identified α}
    (h : Keeps (fun _ _ => True) (fun _ => SignIns.answers mac) post p []) (log : GateLog) :
    Keeps (fun _ _ => True) (answered mac) (fun o log' => ∃ o' inner, o = .ok o' ∧ post o' inner ∧
      ∀ x ∈ inner, HeardIdentity log' x.1 x.2) (through identically p) log := by
  refine keeps_heard (fun inner log' c => keeps_call (c := .identity c) ?_) h log
  rintro _ ⟨b, rfl, hb⟩
  exact ⟨b, rfl, hb, List.mem_cons_self, fun _ _ hheard => List.mem_cons_of_mem _ hheard⟩

theorem sessionAccount_of_none {authorization : String} (h : bearer authorization = none) :
    sessionAccount container loads authorization = .ret "" := by
  rw [bearer] at h
  rw [sessionAccount]
  dsimp only at h ⊢
  split at h
  · rename_i hbare
    rw [if_pos (hbare.imp_right .inl)]
    rfl
  · cases h

theorem sessionAccount_of_some {authorization token : String} (h : bearer authorization = some token)
    (hi : container.identity = true) : sessionAccount container loads authorization = (do
      match ← through identically (Identity.accountOf loads token) with
      | .ok response => return addressOf response
      | .error f => if isIdentityError f then return "" else .raise (.identity f)) := by
  rw [bearer] at h
  rw [sessionAccount]
  dsimp only at h ⊢
  split at h
  · cases h
  · rename_i hbears
    obtain rfl := Option.some.inj h
    rw [not_or] at hbears
    rw [if_neg (by simp only [not_or]; exact ⟨hbears.1, hbears.2, by simp [hi]⟩)]

/-- An account that the token of a request proves, which the key of this gateway has signed. -/
def Proven (authorization : String) (loads : RunLogs.Bytes → Except String Json) (mac : RunLogs.Bytes → RunLogs.Bytes)
    (log : GateLog) (account : String) : Prop :=
  ∃ token data fields expiresAt, ∃ now : Nat, bearer authorization = some token ∧ parts token = .ok (data, mac data) ∧
    loads data = .ok (.dict fields) ∧ account = textClaim fields "a" ∧ intClaim fields "e" = .ok expiresAt ∧
      HeardIdentity log .time (.ok now) ∧ now < expiresAt

def Unreadable (token : String) (loads : RunLogs.Bytes → Except String Json) (mac : RunLogs.Bytes → RunLogs.Bytes)
    (f : Failure) : Prop :=
  ∃ data fields, parts token = .ok (data, mac data) ∧ loads data = .ok (.dict fields) ∧ intClaim fields "e" = .error f

theorem keeps_opened (token : String) : Keeps (fun _ _ => True) (fun _ => SignIns.answers mac) (fun o _ =>
    Sessions.Refused o ∨ ∃ fields data, o = .ok fields ∧ parts token = .ok (data, mac data) ∧
      loads data = .ok (.dict fields)) (opened loads token) [] := by
  have hopened := @Sessions.keeps_opened {} loads (.accountOf token) token
  have hanswers : Keeps (fun _ _ => True) (fun _ => SignIns.answers mac) (fun o log => (Sessions.Refused o ∨
      ∃ fields, o = .ok fields ∧ Sessions.Opens loads token fields log) ∧ ∀ x ∈ log, SignIns.answers mac x.1 x.2)
      (opened loads token) [] := by
    refine Keeps.invariant ?_ (Keeps.weaken (fun _ _ _ => trivial) (hopened.restrict ?_)) fun x hx => nomatch hx
    · intro log c a _ ha hI x hx
      rcases List.mem_cons.1 hx with rfl | hx
      · exact ha
      · exact hI x hx
    · intro log c a ha
      cases c <;> first | exact ha | exact ⟨_, ha⟩
  apply hanswers.mono
  rintro o log ⟨hrefused | ⟨fields, rfl, data, signature, hparts, hloads, rfl⟩, hsaid⟩
  · exact .inl hrefused
  · have hsigned : signature = mac data := by
      have hanswer := hsaid _ List.mem_cons_self
      simpa [SignIns.answers] using hanswer
    subst hsigned
    exact .inr ⟨fields, data, rfl, hparts, hloads⟩

theorem keeps_account (token : String) : Keeps (fun _ _ => True) (fun _ => SignIns.answers mac) (fun o log => match o with
      | .ok response => ∃ data fields expiresAt, ∃ now : Nat, parts token = .ok (data, mac data) ∧
          loads data = .ok (.dict fields) ∧ addressOf response = textClaim fields "a" ∧
          intClaim fields "e" = .ok expiresAt ∧ ⟨.time, .ok now⟩ ∈ log ∧ now < expiresAt
      | .error f => isIdentityError f = true ∨ Unreadable token loads mac f) (Identity.accountOf loads token) [] := by
  refine keeps_bind.2 ((keeps_opened token).mono ?_)
  rintro o log (⟨message, rfl⟩ | ⟨fields, data, rfl, hparts, hloads⟩)
  · exact .inl rfl
  dsimp only
  cases he : intClaim fields "e" with
  | error f => exact .inr ⟨data, fields, hparts, hloads, he⟩
  | ok expiresAt =>
      simp only [ofExcept_ok, bind_eq, ret_bind]
      split
      · exact .inl rfl
      · refine keeps_perform_bind.2 ⟨trivial, ?_⟩
        rintro _ ⟨now, rfl⟩
        dsimp only
        split
        · exact .inl rfl
        · exact ⟨data, fields, expiresAt, now, hparts, hloads, rfl, he, List.mem_cons_self, by omega⟩

theorem keeps_accountOf {authorization token : String} (hbears : bearer authorization = some token) (log : GateLog) :
    Keeps (fun _ _ => True) (answered mac) (fun o log' => ∃ o', o = .ok o' ∧ match o' with
      | .ok response => Proven authorization loads mac log' (addressOf response)
      | .error f => isIdentityError f = true ∨ Unreadable token loads mac f)
      (through identically (Identity.accountOf loads token)) log := by
  apply (keeps_identity (keeps_account token) log).mono
  rintro o log' ⟨o', inner, rfl, hpost, hheard⟩
  refine ⟨o', rfl, ?_⟩
  cases o' with
  | error f => exact hpost
  | ok response =>
      obtain ⟨data, fields, expiresAt, now, hparts, hloads, haddress, he, htime, hnow⟩ := hpost
      exact ⟨token, data, fields, expiresAt, now, hbears, hparts, hloads, haddress, he, hheard _ htime, hnow⟩

def Offers (g : Ports.Gateway) (path : String) (log : GateLog) (document : PaymentRequired) : Prop :=
  document.accepts = [] ∨ ∃ i, Heard log (.putInvoice i) (.ok i) ∧ i.status = .pending ∧ i.kind = "x402" ∧
    i.asset = g.asset ∧ document.accepts = [offerOf g path i]

def Grounded (g : Ports.Gateway) (authorization : String) (loads : RunLogs.Bytes → Except String Json)
    (mac : RunLogs.Bytes → RunLogs.Bytes) (path : String) (log : GateLog) : Raised → Prop
  | .paymentRequired document => Offers g path log document
  | .identity f => ∃ token, bearer authorization = some token ∧ Unreadable token loads mac f
  | .billing e => e = negativeCredit ∨ ∃ c, Heard log c (.error e)

/-- A payment that was verified for an invoice that was found open, and that the ledger took. -/
def Settled (payload : X402Service.PaymentPayload) (log : GateLog) (account : String) (r : Ports.SettleResult) : Prop :=
  ∃ inner : Requests.BillingLog, (∀ x ∈ inner, Heard log x.1 x.2) ∧ Paid payload inner account r

/-- Whose account it is: of the session that the request brings, or of the payment
that its header carries. -/
def Owned (authorization : String) (header : Except Error PaymentHeaders.PaymentPayload)
    (loads : RunLogs.Bytes → Except String Json) (mac : RunLogs.Bytes → RunLogs.Bytes) (log : GateLog) (account : String) :
    Option Ports.SettleResult → Prop
  | none => Proven authorization loads mac log account
  | some r => ∃ p, header = .ok p ∧ Settled p.claimed log account r

theorem Owned.suffix {authorization : String} {header : Except Error PaymentHeaders.PaymentPayload} {log log' : GateLog}
    {account : String} {settlement : Option Ports.SettleResult}
    (h : Owned authorization header loads mac log account settlement) (hs : log <:+ log') :
    Owned authorization header loads mac log' account settlement := by
  cases settlement with
  | none =>
      obtain ⟨token, data, fields, expiresAt, now, hbears, hparts, hloads, haccount, he, htime, hnow⟩ := h
      exact ⟨token, data, fields, expiresAt, now, hbears, hparts, hloads, haccount, he, hs.subset htime, hnow⟩
  | some r =>
      obtain ⟨p, hp, inner, hheard, hpaid⟩ := h
      exact ⟨p, hp, inner, fun x hx => hs.subset (hheard x hx), hpaid⟩

theorem keeps_sessionAccount (authorization : String) (log : GateLog) :
    Keeps (fun _ _ => True) (answered mac) (fun o log => match o with
      | .ok account => account ≠ "" → Proven authorization loads mac log account
      | .error e => ∃ f token, e = .identity f ∧ bearer authorization = some token ∧ Unreadable token loads mac f)
      (sessionAccount container loads authorization) log := by
  cases hbears : bearer authorization with
  | none =>
      rw [sessionAccount_of_none hbears]
      exact fun h => absurd rfl h
  | some token =>
      cases hi : container.identity with
      | false =>
          rw [sessionAccount]
          dsimp only
          rw [if_pos (.inr (.inr hi))]
          exact fun h => absurd rfl h
      | true =>
          rw [sessionAccount_of_some hbears hi]
          refine keeps_bind.2 ((keeps_accountOf hbears log).mono ?_)
          rintro o log ⟨o', rfl, h⟩
          cases o' with
          | ok response => exact fun _ => h
          | error f =>
              dsimp only at h ⊢
              split
              · exact fun h => absurd rfl h
              · rename_i hne
                exact ⟨f, token, rfl, rfl, h.resolve_left hne⟩

theorem keeps_refuse {α : Type} (authorization : String) (loads : RunLogs.Bytes → Except String Json)
    (account reason path : String) (log : GateLog) :
    Keeps (fun _ _ => True) (answered mac) (fun o log => ∃ e, o = .error e ∧ Grounded g authorization loads mac path log e)
      (refuse container g account reason path : Gated α) log := by
  rw [refuse]
  split
  · exact ⟨_, rfl, .inl rfl⟩
  · have hchallenge := keeps_billing mac
      (keeps_both (keeps_challenge (g := g) account reason path []) (blames_challenge account reason path [])) log
    refine keeps_bind.2 (hchallenge.mono ?_)
    rintro o log ⟨o', inner, rfl, ⟨hoffer, hblame⟩, hheard⟩
    cases o' with
    | ok document =>
        obtain ⟨i, hput, hstatus, hkind, _, hasset, rfl⟩ := hoffer document rfl
        exact ⟨_, rfl, .inr ⟨i, hheard _ hput, hstatus, hkind, hasset, rfl⟩⟩
    | error e =>
        dsimp only
        split
        · exact ⟨_, rfl, .inl rfl⟩
        · obtain hfalse | ⟨c, hc⟩ := hblame e rfl
          · exact hfalse.elim
          · exact ⟨_, rfl, .inr ⟨c, hheard _ hc⟩⟩

theorem keeps_paidAccount (authorization : String) (loads : RunLogs.Bytes → Except String Json) (header path : String)
    (log : GateLog) :
    Keeps (fun _ _ => True) (answered mac) (fun o log => match o with
      | .ok payer => Owned authorization (PaymentHeaders.decode real why header) loads mac log payer.1 payer.2
      | .error e => Grounded g authorization loads mac path log e)
      (paidAccount container g real why header path) log := by
  have hclaimed {q : X402Service.PaymentPayload}
      (hq : (PaymentHeaders.decode real why header).map PaymentHeaders.PaymentPayload.claimed = .ok q) :
      ∃ p, PaymentHeaders.decode real why header = .ok p ∧ p.claimed = q := by
    cases hd : PaymentHeaders.decode real why header with
    | error e =>
        rw [hd] at hq
        cases hq
    | ok p =>
        rw [hd] at hq
        exact ⟨p, rfl, Except.ok.inj hq⟩
  have hdecoded : ∀ e, (PaymentHeaders.decode real why header).map PaymentHeaders.PaymentPayload.claimed = .error e →
      RedeemError e := by
    intro e he
    cases hd : PaymentHeaders.decode real why header with
    | error e' =>
        rw [hd] at he
        cases he
        exact .inr (PaymentHeaders.decode_refused hd)
    | ok p =>
        rw [hd] at he
        cases he
  have hredeem := keeps_billing mac (keeps_both (keeps_redeem (g := g)
    ((PaymentHeaders.decode real why header).map PaymentHeaders.PaymentPayload.claimed) path [])
    (blames_redeem _ path hdecoded [])) log
  refine keeps_bind.2 (hredeem.mono ?_)
  rintro o log ⟨o', inner, rfl, ⟨hpaid, hblame⟩, hheard⟩
  match o' with
  | .ok (account, result) =>
      obtain ⟨q, hq, hpaid⟩ := hpaid account result rfl
      obtain ⟨p, hp, rfl⟩ := hclaimed hq
      exact ⟨p, hp, inner, hheard, hpaid⟩
  | .error e =>
      dsimp only
      split
      · cases ‹_›
      · apply (keeps_refuse authorization loads "" _ path log).mono
        rintro o log ⟨e, rfl, he⟩
        exact he
      · rename_i hne heq
        cases heq
        rcases hblame _ rfl with (hnegative | ⟨message, rfl⟩) | ⟨c, hc⟩
        · exact .inl hnegative
        · exact absurd rfl (hne message)
        · exact .inr ⟨c, hheard _ hc⟩

def Admitted (g : Ports.Gateway) (authorization : String) (header : Except Error PaymentHeaders.PaymentPayload)
    (loads : RunLogs.Bytes → Except String Json) (mac : RunLogs.Bytes → RunLogs.Bytes) (log : GateLog)
    (payer : String × Option Ports.SettleResult) : Prop :=
  payer.1 ≠ "" ∧ Owned authorization header loads mac log payer.1 payer.2 ∧
    ∃ entries, Heard log (.allEntries payer.1) (.ok entries) ∧ Covers g payer.1 entries

theorem keeps_authorized {authorization : String} {header : Except Error PaymentHeaders.PaymentPayload}
    (payer : String × Option Ports.SettleResult) (path : String) (hp : payer.1 ≠ "") (log : GateLog)
    (ho : Owned authorization header loads mac log payer.1 payer.2) :
    Keeps (fun _ _ => True) (answered mac) (fun o log => match o with
      | .ok payer => Admitted g authorization header loads mac log payer
      | .error e => Grounded g authorization loads mac path log e)
      (do
        match ← through billingly (BillingService.authorize g payer.1) with
        | .ok _ => return payer
        | .error (.insufficientFunds needed available) => refuse container g payer.1 (insufficient needed available) path
        | .error e => .raise (.billing e)) log := by
  refine keeps_bind.2 ((keeps_billing mac (keeps_authorize payer.1 []) log).suffix.mono ?_)
  rintro o log' ⟨⟨o', inner, rfl, hpost, hheard⟩, hs⟩
  match o' with
  | .ok _ =>
      obtain ⟨entries, hentries, hcovers⟩ := hpost
      exact ⟨hp, ho.suffix hs, entries, hheard _ hentries, hcovers⟩
  | .error e =>
      dsimp only
      split
      · cases ‹_›
      · refine (keeps_refuse authorization loads payer.1 _ path log').mono ?_
        rintro o log ⟨e, rfl, he⟩
        exact he
      · rename_i hne heq
        cases heq
        rcases hpost with hnegative | ⟨needed, available, _, rfl, _⟩ | ⟨c, hc⟩
        · exact .inl hnegative
        · exact absurd rfl (hne needed available)
        · exact .inr ⟨c, hheard _ hc⟩

theorem keeps_payerOf (authorization header path : String) (log : GateLog) :
    Keeps (fun _ _ => True) (answered mac) (fun o log => match o with
      | .ok payer => container.billing = false ∧ payer = ("", none) ∨
          Admitted g authorization (PaymentHeaders.decode real why header) loads mac log payer
      | .error e => Grounded g authorization loads mac path log e)
      (payerOf container g real why loads authorization header path) log := by
  rw [payerOf]
  split
  · exact .inl ⟨‹_›, rfl⟩
  refine keeps_bind.2 ((keeps_sessionAccount authorization log).mono fun o log h => ?_)
  cases o with
  | error e =>
      obtain ⟨f, token, rfl, hbears, hf⟩ := h
      exact ⟨token, hbears, hf⟩
  | ok account =>
      have hpayer : Keeps (fun _ _ => True) (answered mac) (fun o log => match o with
          | .ok payer => payer.1 ≠ "" →
              Owned authorization (PaymentHeaders.decode real why header) loads mac log payer.1 payer.2
          | .error e => Grounded g authorization loads mac path log e)
          (sessionOrPayment container g real why account header path) log := by
        rw [sessionOrPayment]
        split
        · refine (keeps_paidAccount authorization loads header path log).mono fun o log h => ?_
          cases o with
          | ok payer => exact fun _ => h
          | error e => exact h
        · exact h
      refine keeps_bind.2 (hpayer.mono fun o log h => ?_)
      cases o with
      | error e => exact h
      | ok payer =>
          dsimp only
          split
          · apply (keeps_refuse authorization loads "" _ path log).mono
            rintro o log ⟨e, rfl, he⟩
            exact he
          · rename_i hne
            refine (keeps_authorized payer path hne log (h hne)).mono fun o log h => ?_
            cases o with
            | ok payer => exact .inr h
            | error e => exact h

/-- No invoice id is handed out twice. -/
def NewIds : Rule := fun w _ _ c _ => match c with
  | .billing (.putInvoice i) => i.status = .pending → w.billing.store.invoice i.id = none
  | _ => True

instance (w : World) (vs : List (View Request Call Call.Answer Raised (Option (String × Option Ports.SettleResult))))
    (v : View Request Call Call.Answer Raised (Option (String × Option Ports.SettleResult))) (c : Call) (r : Reply) :
    Decidable (NewIds w vs v c r) := by
  dsimp only [NewIds]
  split <;> infer_instance

def Remembered (w : World) : (c : Call) → Except Raised c.Answer → Prop
  | .billing (.allEntries account), .ok (.ok entries) =>
      ∃ s : Storage.Store, s.ledger <+: w.billing.store.ledger ∧ entries = s.allEntries account
  | .billing (.putInvoice i), .ok (.ok _) => i.status = .pending →
      ∃ k, w.billing.store.invoice i.id = some k ∧ i.SameTerms k
  | _, _ => True

theorem step_identity {w w' : World} {c : Identity.Call} {r : Reply} {a : Except Raised (Call.identity c).Answer}
    (h : w.step mac (.identity c) r = some (a, w')) : w'.billing = w.billing ∧ ∃ r' b s', r = .identity r' ∧ a = .ok b ∧
      Identity.World.step mac w.identity c r' = some (b, s') := by
  cases r with
  | billing r => cases h
  | identity r =>
      obtain ⟨⟨b, s'⟩, hs, h⟩ := Option.map_eq_some_iff.1 h
      cases h
      exact ⟨rfl, r, b, s', rfl, rfl, hs⟩

theorem step_billing {w w' : World} {c : Ports.Call} {r : Reply} {a : Except Raised (Call.billing c).Answer}
    (h : w.step mac (.billing c) r = some (a, w')) : ∃ r' b, r = .billing r' ∧ a = .ok b ∧
      w.billing.step c r' = some (b, w'.billing) := by
  cases r with
  | identity r => cases h
  | billing r =>
      obtain ⟨⟨b, s'⟩, hs, h⟩ := Option.map_eq_some_iff.1 h
      cases h
      exact ⟨r, b, rfl, rfl, hs⟩

theorem answered_step {w w' : World} (log : GateLog) {c : Call} {r : Reply} {a : Except Raised c.Answer}
    (h : w.step mac c r = some (a, w')) : answered mac log c a := by
  cases c with
  | identity c =>
      obtain ⟨_, r', b, s', rfl, rfl, hs⟩ := step_identity h
      exact ⟨b, rfl, SignIns.answers_step hs⟩
  | billing c =>
      obtain ⟨r', b, rfl, rfl, hs⟩ := step_billing h
      exact ⟨b, rfl, said_step [] hs⟩

theorem prefix_step {w w' : World} {c : Call} {r : Reply} {a : Except Raised c.Answer} (h : w.step mac c r = some (a, w')) :
    w.billing.store.ledger <+: w'.billing.store.ledger := by
  cases c with
  | identity c =>
      exact (step_identity h).1 ▸ List.prefix_rfl
  | billing c =>
      obtain ⟨r', b, rfl, rfl, hs⟩ := step_billing h
      by_cases hc : ∃ e, c = .append e
      · obtain ⟨e, rfl⟩ := hc
        rcases Ports.step_append hs with ⟨_, _, _, hw⟩ | ⟨_, _, hw⟩
        · exact hw ▸ List.prefix_rfl
        · rw [hw]
          exact w.billing.store.ledger_prefix_append e
      · push Not at hc
        exact Ports.ledger_step hc hs ▸ List.prefix_rfl

theorem stored_step {w w' : World} {c : Call} {r : Reply} {a : Except Raised c.Answer} (h : w.step mac c r = some (a, w'))
    {id : String} {i : Invoice} (hi : ∃ k, w.billing.store.invoice id = some k ∧ i.SameTerms k) :
    ∃ k, w'.billing.store.invoice id = some k ∧ i.SameTerms k := by
  cases c with
  | identity c =>
      rw [(step_identity h).1]
      exact hi
  | billing c =>
      obtain ⟨r', b, rfl, rfl, hs⟩ := step_billing h
      obtain ⟨k, hk, hik⟩ := hi
      obtain ⟨k', hk', hkk⟩ := Ports.stored_step hs hk
      exact ⟨k', hk', hik.trans hkk⟩

theorem remembered_new {w w' : World}
    {vs : List (View Request Call Call.Answer Raised (Option (String × Option Ports.SettleResult)))}
    {v : View Request Call Call.Answer Raised (Option (String × Option Ports.SettleResult))} {c : Call} {r : Reply}
    {a : Except Raised c.Answer} (hc : NewIds w vs v c r) (h : w.step mac c r = some (a, w')) : Remembered w' c a := by
  cases c with
  | identity c => cases a <;> trivial
  | billing c =>
      obtain ⟨r', b, rfl, rfl, hs⟩ := step_billing h
      cases c with
      | allEntries account =>
          obtain ⟨hw, rfl | ⟨e, _, rfl⟩⟩ := Ports.step_allEntries hs
          · exact ⟨w.billing.store, hw ▸ List.prefix_rfl, rfl⟩
          · trivial
      | putInvoice i =>
          rcases Ports.step_putInvoice hs with ⟨e, _, rfl, _⟩ | ⟨_, rfl, hw⟩
          · trivial
          · intro hpending
            refine ⟨i, ?_, rfl⟩
            rw [hw, Storage.Store.invoice_putInvoice_self, hc hpending]
            rfl
      | _ => cases b <;> trivial

theorem remembered_old {w w' : World} {c : Call} {r : Reply} {a : Except Raised c.Answer} (h : w.step mac c r = some (a, w'))
    (d : Call) (b : Except Raised d.Answer) (hd : Remembered w d b) : Remembered w' d b := by
  cases d with
  | identity d => cases b <;> trivial
  | billing d =>
      match d, b with
      | .allEntries account, .ok (.ok entries) =>
          obtain ⟨s, hs, hentries⟩ := hd
          exact ⟨s, hs.trans (prefix_step h), hentries⟩
      | .putInvoice i, .ok (.ok _) => exact fun hpending => stored_step h (hd hpending)
      | .now, _ | .entryId, _ | .newInvoiceId, _ | .append _, _ | .invoice _, _ | .openInvoices _, _
      | .putSubscription _, _ | .subscription _, _ | .paymentFor _, _ | .quote .., _ | .verify .., _ | .settle _, _
      | .onChain _, _ => trivial
      | .allEntries _, .error _ | .allEntries _, .ok (.error _) | .putInvoice _, .error _
      | .putInvoice _, .ok (.error _) => trivial

/-- What is true of a request that starts something once it has been decided. -/
def Decided (container : Container) (g : Ports.Gateway) (authorization : String)
    (header : Except Error PaymentHeaders.PaymentPayload) (loads : RunLogs.Bytes → Except String Json)
    (mac : RunLogs.Bytes → RunLogs.Bytes) (path : String) (log : GateLog) (s : Storage.Store) :
    Except Raised (Option (String × Option Ports.SettleResult)) → Prop
  | .ok none => False
  | .ok (some payer) => container.billing = false ∧ payer = ("", none) ∨
      payer.1 ≠ "" ∧ Owned authorization header loads mac log payer.1 payer.2 ∧ ∃ entries, ∃ t : Storage.Store,
        Heard log (.allEntries payer.1) (.ok entries) ∧ Covers g payer.1 entries ∧ t.ledger <+: s.ledger ∧
          entries = t.allEntries payer.1
  | .error (.paymentRequired document) => document.accepts = [] ∨ ∃ i k, i.status = .pending ∧ i.kind = "x402" ∧
      document.accepts = [offerOf g path i] ∧ s.invoice i.id = some k ∧ i.SameTerms k
  | .error (.identity f) => ∃ token, bearer authorization = some token ∧ Unreadable token loads mac f
  | .error (.billing e) => e = negativeCredit ∨ ∃ c, Heard log c (.error e)

theorem keeps_body (q : Request) (log : GateLog) :
    Keeps (fun _ _ => True) (answered mac) (fun o log => ∀ authorization header path,
      q = .payer authorization header path → match o with
        | .ok none => False
        | .ok (some payer) => container.billing = false ∧ payer = ("", none) ∨
            Admitted g authorization (PaymentHeaders.decode real why header) loads mac log payer
        | .error e => Grounded g authorization loads mac path log e) (body container g settings real why loads q) log := by
  cases q with
  | identity q => exact (keeps_of_guard (fun _ _ => trivial) _).mono fun _ _ _ _ _ _ h => nomatch h
  | billing q => exact (keeps_of_guard (fun _ _ => trivial) _).mono fun _ _ _ _ _ _ h => nomatch h
  | payer authorization header path =>
      refine keeps_bind.2 ((keeps_payerOf authorization header path log).mono fun o log h => ?_)
      cases o with
      | ok payer =>
          intro _ _ _ hq
          cases hq
          exact h
      | error e =>
          intro _ _ _ hq
          cases hq
          exact h

end Gate

def shop : Ports.Gateway := { catalog := Products.defaultCatalog, destination := "GDEST", price := ⟨500000⟩ }

def claimed : String := String.ofList (PaymentHeaders.header PaymentHeaders.terse)

def billed (i : Nat) (r : Ports.Reply) : Event Request Reply := .step i (.billing r)

def paidFor : List (Event Request Reply) := [
  .start (.payer "" "" "/runs"), billed 0 (.time 0), billed 0 (.text "inv_1"), billed 0 (.text "5.0000000"),
  billed 0 .done, .finish 0,
  .start (.payer "" claimed "/runs"), billed 1 .done, billed 1 .done, billed 1 (.time 1),
  billed 1 (.verified { valid := true, payer := "GPAYER" }),
  billed 1 (.settled { success := true, network := "stellar-testnet", transaction := "t1", payer := "GPAYER" }),
  billed 1 .done, billed 1 (.time 1), billed 1 .done, billed 1 (.text "e1"), billed 1 (.time 1), billed 1 .done,
  billed 1 (.time 2), billed 1 .done, billed 1 .done, billed 1 (.text "e2"), billed 1 (.time 2), billed 1 .done,
  billed 1 .done, .finish 1]

end CodeZard.PaymentGate
