import CodeZard.Envelopes
import CodeZard.PaymentGate

namespace CodeZard.Payments

open Amounts Decimals Endings Envelopes Hearings Interleaving Invoices Ledgers PaymentGate Programs Stellar Values
open JsonTexts (Floats)
open X402Service (PaymentRequirements)

/-- A payload that brings a transaction for an offer. -/
structure Brings (offer : PaymentRequirements) (transaction : String) (p : PaymentHeaders.PaymentPayload) : Prop where
  scheme : p.scheme = offer.scheme
  network : p.network = offer.network
  transaction : p.transaction = transaction
  invoice : p.invoice = offer.invoice

def toOffer (offer : PaymentRequirements) : Operation → Bool
  | .payment destination asset _ => destination = offer.payTo && assetCode asset = upper offer.asset
  | .other => false

/-- A transaction that does what an offer asks for. -/
structure Meets (config : StellarConfig) (sdk : Sdk) (offer : PaymentRequirements) (transaction : String)
    (envelope : Envelope) : Prop where
  present : transaction ≠ ""
  read : sdk.fromXdr transaction config.passphrase = .ok envelope
  memo : envelope.memo = some offer.memo
  signed : signedBy config sdk envelope envelope.source = true
  whole : Whole envelope.operations
  paid : ∃ asset text n, envelope.operations.find? (toOffer offer) = some (.payment offer.payTo asset text) ∧
    Reads text n ∧ Magnitudes.value (decimalOf (.str offer.maxAmountRequired)) ≤ inStroops n

section Terms

variable {config : StellarConfig} {out : Outside} {sdk : Sdk} {g : Ports.Gateway} {i k : Invoice} {path transaction : String}
  {envelope : Envelope}

theorem verify_accepts (hsdk : out.sdk = some sdk) (hasset : i.asset = g.asset) (hk : i.SameTerms k)
    (h : Meets config sdk (offerOf g path i) transaction envelope) :
    ∃ v, verify config out transaction k = .ok v ∧ v.valid = true := by
  obtain ⟨v, hv, -, hinvalid⟩ := verify_eq hsdk h.read h.whole (i := k)
  refine ⟨v, hv, ?_⟩
  by_contra hc
  have hto : toInvoice k = toOffer (offerOf g path i) := by
    funext operation
    have hdestination : k.destination = i.destination := (congrArg Invoice.destination hk).symm
    have hcode : k.asset = g.asset := (congrArg Invoice.asset hk).symm.trans hasset
    cases operation with
    | payment destination asset text => rw [toInvoice, toOffer, hdestination, hcode, offerOf]
    | other => rfl
  rcases hinvalid (Bool.not_eq_true _ ▸ hc) with hmemo | hsigned | hpaid
  · rw [h.memo] at hmemo
    exact hmemo hk.id_eq.symm
  · rw [h.signed] at hsigned
    cases hsigned
  · obtain ⟨asset, text, n, hfind, hreads, hle⟩ := h.paid
    have hamount : k.amount = i.amount := (congrArg Invoice.amount hk).symm
    have hdestination : k.destination = i.destination := (congrArg Invoice.destination hk).symm
    rw [hto, hdestination] at hpaid
    have hless := hpaid asset text n hfind hreads
    rw [owed, hamount] at hless
    exact absurd hle (not_le.2 hless)

end Terms

/-- Why somebody who pays is not let in: the invoice was read and then found paid
or out of date, the ledger did not take the transaction, a call failed, or what
the payer holds does not cover a run. -/
inductive Hindered (g : Ports.Gateway) (invoice transaction : String) (log : Requests.BillingLog) : Prop
  | lapsed {k : Invoice} {now : Products.Datetime} (h : [⟨.now, .ok now⟩, ⟨.invoice invoice, .ok (some k)⟩] <:+: log)
      (hk : k.isOpen now = false) : Hindered g invoice transaction log
  | declined {r : Ports.SettleResult} (h : ⟨.settle transaction, .ok r⟩ ∈ log) (hr : r.success = true → r.payer = "") :
      Hindered g invoice transaction log
  | broken {c : Ports.Call} {e : Error} (h : ⟨c, .error e⟩ ∈ log) : Hindered g invoice transaction log
  | poor {r : Ports.SettleResult} {entries : List LedgerEntry} (h : ⟨.settle transaction, .ok r⟩ ∈ log)
      (hentries : ⟨.allEntries r.payer, .ok entries⟩ ∈ log) (hr : (balanceOf r.payer entries).total < max 0 g.reserve) :
      Hindered g invoice transaction log

theorem Hindered.later {g : Ports.Gateway} {invoice transaction : String} {log log' : Requests.BillingLog}
    (h : Hindered g invoice transaction log) (hs : log <:+: log') : Hindered g invoice transaction log' := by
  cases h with
  | lapsed h hk => exact .lapsed (h.trans hs) hk
  | declined h hr => exact .declined (hs.subset h) hr
  | broken h => exact .broken (hs.subset h)
  | poor h hentries hr => exact .poor (hs.subset h) (hs.subset hentries) hr

def Names (config : StellarConfig) (out : Outside) (transaction : String) (r : Ports.SettleResult) : Prop :=
  match out.sdk with
  | none => True
  | some sdk => match sdk.fromXdr transaction config.passphrase with
      | .ok envelope => r.success = true → r.payer ≠ "" → r.payer = envelope.source
      | .error _ => True

instance (config : StellarConfig) (out : Outside) (transaction : String) (r : Ports.SettleResult) :
    Decidable (Names config out transaction r) := by
  dsimp only [Names]
  split
  · infer_instance
  · split <;> infer_instance

theorem Names.payer {config : StellarConfig} {out : Outside} {sdk : Sdk} {transaction : String} {envelope : Envelope}
    {r : Ports.SettleResult} (h : Names config out transaction r) (hsdk : out.sdk = some sdk)
    (hread : sdk.fromXdr transaction config.passphrase = .ok envelope) (hsuccess : r.success = true)
    (hpayer : r.payer ≠ "") : r.payer = envelope.source := by
  unfold Names at h
  rw [hsdk] at h
  dsimp only at h
  rw [hread] at h
  exact h hsuccess hpayer

/-- What the store says of an invoice that it holds, and the network of a transaction. -/
def Told (config : StellarConfig) (out : Outside) (i : Invoice) : (c : Ports.Call) → Except Error c.Answer → Prop
  | .invoice id, a => id = i.id → ∀ found, a = .ok found → ∃ k, found = some k ∧ i.SameTerms k
  | .verify transaction k, a => a = verify config out transaction k
  | .settle transaction, a => ∀ r, a = .ok r → Names config out transaction r
  | _, _ => True

section Redeeming

open X402Service

variable {config : StellarConfig} {out : Outside} {sdk : Sdk} {g : Ports.Gateway} {i : Invoice} {path transaction : String}
  {envelope : Envelope} {log : Requests.BillingLog} {r : PaymentRequirements} {α : Type}

/-- What the store and the network answer to somebody who pays an invoice. -/
def answering (config : StellarConfig) (out : Outside) (i : Invoice) (log : Requests.BillingLog) (c : Ports.Call)
    (a : Except Error c.Answer) : Prop := said log c a ∧ Told config out i c a

theorem keeps_ask {c : Ports.Call} {post : Except Error c.Answer → Requests.BillingLog → Prop}
    (h : ∀ a, answering config out i log c a → post a (⟨c, a⟩ :: log)) :
    Keeps (fun _ _ => True) (answering config out i) post (Ports.ask c) log := keeps_perform.2 ⟨trivial, h⟩

theorem keeps_hindered (h : Hindered g i.id transaction log) (p : Ports.Billing α) :
    Keeps (fun _ _ => True) (answering config out i) (fun _ log => Hindered g i.id transaction log) p log :=
  (keeps_of_guard (fun _ _ => trivial) p).suffix.mono fun _ _ hs => h.later hs.2.isInfix

variable (g transaction) in
theorem keeps_invoiceOf (hr : r.invoice = i.id) (hid : i.id ≠ "") :
    Keeps (fun _ _ => True) (answering config out i) (fun o log => (∃ k, o = .ok (some k) ∧ i.SameTerms k) ∨
      Hindered g i.id transaction log) (invoiceOf r) log := by
  rw [invoiceOf, if_neg (hr ▸ hid)]
  refine keeps_perform_bind.2 ⟨trivial, fun a ha => ?_⟩
  cases a with
  | error e => exact .inr (.broken List.mem_cons_self)
  | ok found =>
      obtain ⟨k, rfl, hk⟩ := ha.2 hr found rfl
      refine keeps_perform_bind.2 ⟨trivial, fun a _ => ?_⟩
      cases a with
      | error e => exact .inr (.broken List.mem_cons_self)
      | ok now =>
          dsimp only
          split
          · exact .inl ⟨k, rfl, hk⟩
          · rename_i hclosed
            rw [hr]
            exact .inr (.lapsed ⟨[], log, rfl⟩ (Bool.not_eq_true _ ▸ hclosed))

variable {payload : PaymentPayload} {path' : String}

def claim (g : Ports.Gateway) (i : Invoice) (transaction : String) : PaymentPayload :=
  ⟨SCHEME, g.network, transaction, i.id⟩

theorem keeps_verify (hsdk : out.sdk = some sdk) (hasset : i.asset = g.asset) (hid : i.id ≠ "")
    (h : Meets config sdk (offerOf g path i) transaction envelope) (hr : r.invoice = i.id) :
    Keeps (fun _ _ => True) (answering config out i) (fun o log => (∃ v, o = .ok v ∧ v.valid = true) ∨
      Hindered g i.id transaction log) (X402Service.verify g (claim g i transaction) r) log := by
  have hscheme : (claim g i transaction).scheme = SCHEME := rfl
  have hnetwork : (claim g i transaction).network = g.network := rfl
  have htransaction : (claim g i transaction).transaction ≠ "" := h.present
  rw [X402Service.verify, if_neg (not_not.2 hscheme), if_neg (not_not.2 hnetwork), if_neg htransaction]
  refine keeps_bind.2 ((keeps_invoiceOf g transaction hr hid).mono fun o log ho => ?_)
  rcases ho with ⟨k, rfl, hterms⟩ | hh
  · obtain ⟨v, hv, hvalid⟩ := verify_accepts hsdk hasset hterms h
    exact keeps_ask fun a ha => .inl ⟨v, ha.2.trans hv, hvalid⟩
  · cases o with
    | error e => exact .inr hh
    | ok found => exact (keeps_hindered hh _).mono fun o log h => .inr h

variable (g transaction) in
theorem keeps_record {verified : Ports.VerifyResult} {result : Ports.SettleResult} :
    Keeps (fun _ _ => True) (answering config out i) (fun o log => o = .ok result ∨ o = .error negativeCredit ∨
      Hindered g i.id transaction log) (record r verified result) log := by
  have hboth := keeps_both (Hearings.keeps_record r verified result log) (blames_record r verified result log)
  refine Keeps.mono (hboth.restrict fun log c a (ha : answering config out i log c a) => ha.1) fun o log h => ?_
  cases o with
  | ok result' => exact .inl (congrArg Except.ok (h.1 result' rfl))
  | error e =>
      rcases h.2 e rfl with rfl | ⟨c, hc⟩
      · exact .inr (.inl rfl)
      · exact .inr (.inr (.broken hc))

def Taken (transaction source : String) (log : Requests.BillingLog) (r : Ports.SettleResult) : Prop :=
  r.success = true ∧ r.payer ≠ "" ∧ r.payer = source ∧ ⟨.settle transaction, .ok r⟩ ∈ log

theorem keeps_settle (hsdk : out.sdk = some sdk) (hasset : i.asset = g.asset) (hid : i.id ≠ "")
    (h : Meets config sdk (offerOf g path i) transaction envelope) (hr : r.invoice = i.id) :
    Keeps (fun _ _ => True) (answering config out i) (fun o log =>
      (∃ result, o = .ok result ∧ Taken transaction envelope.source log result) ∨ o = .error negativeCredit ∨ Hindered g i.id transaction log) (X402Service.settle g (claim g i transaction) r) log := by
  refine keeps_bind.2 ((keeps_verify hsdk hasset hid h hr).mono fun o log ho => ?_)
  rcases ho with ⟨verified, rfl, hvalid⟩ | hh
  · dsimp only
    rw [hvalid]
    refine keeps_perform_bind.2 ⟨trivial, fun a ha => ?_⟩
    cases a with
    | error e => exact .inr (.inr (.broken List.mem_cons_self))
    | ok result =>
        by_cases htaken : result.success = true ∧ result.payer ≠ ""
        swap
        · have hdeclined : Hindered g i.id transaction (⟨.settle transaction, .ok result⟩ :: log) := by
            refine .declined (r := result) List.mem_cons_self fun hs => ?_
            by_contra hp
            exact htaken ⟨hs, hp⟩
          exact (keeps_hindered hdeclined _).mono fun o log h => .inr (.inr h)
        · have hsource : result.payer = envelope.source := (ha.2 result rfl).payer hsdk h.read htaken.1 htaken.2
          dsimp only
          rw [htaken.1]
          refine (keeps_record g transaction).suffix.mono fun o log' ho => ?_
          rcases ho.1 with rfl | rfl | hh
          · exact .inl ⟨result, rfl, htaken.1, htaken.2, hsource, ho.2.subset List.mem_cons_self⟩
          · exact .inr (.inl rfl)
          · exact .inr (.inr hh)
  · cases o with
    | error e => exact .inr (.inr hh)
    | ok verified => exact (keeps_hindered hh _).mono fun o log h => .inr (.inr h)

theorem keeps_redeem (hsdk : out.sdk = some sdk) (hasset : i.asset = g.asset) (hid : i.id ≠ "")
    (h : Meets config sdk (offerOf g path i) transaction envelope) :
    Keeps (fun _ _ => True) (answering config out i) (fun o log =>
      (∃ result, o = .ok (result.payer, result) ∧ Taken transaction envelope.source log result) ∨ o = .error negativeCredit ∨
        Hindered g i.id transaction log) (X402Service.redeem g (.ok (claim g i transaction)) path') log := by
  have hnamed : namedInvoice (claim g i transaction) = Ports.store.invoice i.id := if_neg hid
  rw [redeem, ofExcept_ok, bind_eq, ret_bind, hnamed]
  refine keeps_perform_bind.2 ⟨trivial, fun a ha => ?_⟩
  cases a with
  | error e => exact .inr (.inr (.broken List.mem_cons_self))
  | ok found =>
      obtain ⟨k, rfl, hk⟩ := ha.2 rfl found rfl
      refine keeps_bind.2 ((keeps_settle hsdk hasset hid h (r := _) hk.id_eq).mono fun o log ho => ?_)
      match o, ho with
      | .error e, .inr (.inl he) =>
          cases he
          exact .inr (.inl rfl)
      | .error e, .inr (.inr hh) => exact .inr (.inr hh)
      | .ok result, .inr (.inr hh) => exact (keeps_hindered hh _).mono fun o log h => .inr (.inr h)
      | _, .inl ⟨result, hresult, hsuccess, hpayer, hsource, hin⟩ =>
          subst hresult
          dsimp only
          rw [hsuccess]
          refine .inl ⟨result, ?_, hsuccess, hpayer, hsource, hin⟩
          rw [orElse, if_neg hpayer]

end Redeeming

section Gate

variable {container : Container} {config : StellarConfig} {out : Outside} {sdk : Sdk} {g : Ports.Gateway}
  {real : Floats} {why : List Char → String} {loads : RunLogs.Bytes → Except String Json}
  {mac : RunLogs.Bytes → RunLogs.Bytes} {i : Invoice} {path path' transaction : String} {envelope : Envelope}
  {log : GateLog}

def told : GateLog → Requests.BillingLog := List.filterMap fun
  | ⟨.billing c, .ok a⟩ => some ⟨c, a⟩
  | _ => none

def Heeded (config : StellarConfig) (out : Outside) (i : Invoice) : (c : Call) → Except Raised c.Answer → Prop
  | .billing c, a => ∀ b, a = .ok b → Told config out i c b
  | .identity _, _ => True

def heeding (mac : RunLogs.Bytes → RunLogs.Bytes) (config : StellarConfig) (out : Outside) (i : Invoice) (log : GateLog)
    (c : Call) (a : Except Raised c.Answer) : Prop := answered mac log c a ∧ Heeded config out i c a

theorem keeps_told {α : Type} {post : Except Error α → Requests.BillingLog → Prop} {p : Ports.Billing α}
    (h : Keeps (fun _ _ => True) (answering config out i) post p []) (log : GateLog) :
    Keeps (fun _ _ => True) (heeding mac config out i) (fun o log' => ∃ o' inner, o = .ok o' ∧ post o' inner ∧
      told log' = inner ++ told log) (Compositions.through billingly p) log := by
  refine Compositions.keeps_through (J := fun inner log' => told log' = inner ++ told log) ?_ h rfl
  intro inner log' c hJ _
  refine (keeps_perform (c := Call.billing c)).2 ⟨trivial, ?_⟩
  rintro _ ⟨⟨b, rfl, hb⟩, hheeded⟩
  refine ⟨b, rfl, ⟨hb, hheeded b rfl⟩, ?_⟩
  have hnew : told (⟨.billing c, .ok b⟩ :: log') = ⟨c, b⟩ :: told log' := rfl
  rw [hnew, hJ]
  rfl

variable (config out mac) in
theorem keeps_hindered_gate {α : Type} (h : Hindered g i.id transaction (told log)) (p : Gated α) :
    Keeps (fun _ _ => True) (heeding mac config out i) (fun _ log => Hindered g i.id transaction (told log)) p log :=
  (keeps_of_guard (fun _ _ => trivial) p).suffix.mono fun _ _ hs => h.later (hs.2.filterMap _).isInfix

/-- Whoever has paid is let in under the address that signed, with the settlement
of the transaction, or something has come between. -/
def Outcome {α : Type} (g : Ports.Gateway) (f : String × Option Ports.SettleResult → α) (invoice transaction source : String)
    (log : GateLog) (o : Except Raised α) : Prop :=
  (∃ r, o = .ok (f (source, some r)) ∧ Taken transaction source (told log) r) ∨ o = .error (.billing negativeCredit) ∨
    Hindered g invoice transaction (told log)

theorem claimed_of_brings {p : PaymentHeaders.PaymentPayload} (h : Brings (offerOf g path i) transaction p) :
    p.claimed = claim g i transaction := by
  rw [PaymentHeaders.PaymentPayload.claimed, h.scheme, h.network, h.transaction, h.invoice]
  rfl

theorem keeps_paidAccount (hsdk : out.sdk = some sdk) (hasset : i.asset = g.asset) (hid : i.id ≠ "")
    (h : Meets config sdk (offerOf g path i) transaction envelope) {header : String} {p : PaymentHeaders.PaymentPayload}
    (hheader : PaymentHeaders.decode real why header = .ok p) (hbrings : Brings (offerOf g path i) transaction p) :
    Keeps (fun _ _ => True) (heeding mac config out i) (fun o log =>
      (∃ r, o = .ok (r.payer, some r) ∧ Taken transaction envelope.source (told log) r) ∨
        o = .error (.billing negativeCredit) ∨ Hindered g i.id transaction (told log))
      (paidAccount container g real why header path') log := by
  have hredeem : PaymentHeaders.redeem real why g header path' =
      X402Service.redeem g (.ok (claim g i transaction)) path' := by
    rw [PaymentHeaders.redeem, hheader, ← claimed_of_brings hbrings]
    rfl
  rw [paidAccount, hredeem]
  refine keeps_bind.2 ((keeps_told (keeps_redeem hsdk hasset hid h) log).mono ?_)
  rintro o log' ⟨o', inner, rfl, hpost, htold⟩
  have hinner : inner <:+: told log' := by
    rw [htold]
    exact (List.prefix_append _ _).isInfix
  rcases hpost with ⟨r, rfl, hsuccess, hpayer, hsource, htaken⟩ | rfl | hh
  · exact .inl ⟨r, rfl, hsuccess, hpayer, hsource, hinner.subset htaken⟩
  · exact .inr (.inl rfl)
  · exact (keeps_hindered_gate config out mac (hh.later hinner) _).mono fun o log h => .inr (.inr h)

theorem keeps_admitted {source : String} {r : Ports.SettleResult} (htaken : Taken transaction source (told log) r) :
    Keeps (fun _ _ => True) (heeding mac config out i) (fun o log => Outcome g id i.id transaction source log o)
      (do
        match ← Compositions.through billingly (BillingService.authorize g r.payer) with
        | .ok _ => return (r.payer, some r)
        | .error (.insufficientFunds needed available) =>
            refuse container g r.payer (insufficient needed available) path'
        | .error e => .raise (.billing e)) log := by
  obtain ⟨hsuccess, hpayer, hsource, hsettled⟩ := htaken
  have hauthorize : Keeps (fun _ _ => True) (answering config out i) _ (BillingService.authorize g r.payer) [] :=
    (keeps_authorize r.payer []).restrict fun _ _ _ ha => ha.1
  refine keeps_bind.2 ((keeps_told hauthorize log).mono ?_)
  rintro o log' ⟨o', inner, rfl, hpost, htold⟩
  have hkept : ⟨.settle transaction, .ok r⟩ ∈ told log' := by
    rw [htold]
    exact List.mem_append_right _ hsettled
  have hheard : ∀ x ∈ inner, x ∈ told log' := by
    intro x hx
    rw [htold]
    exact List.mem_append_left _ hx
  match o' with
  | .ok _ =>
      refine .inl ⟨r, ?_, hsuccess, hpayer, hsource, hkept⟩
      rw [← hsource]
      rfl
  | .error e =>
      rcases hpost with rfl | ⟨needed, available, entries, rfl, hentries, hless⟩ | ⟨c, hc⟩
      · exact .inr (.inl rfl)
      · have hpoor : Hindered g i.id transaction (told log') := .poor hkept (hheard _ hentries) hless
        exact (keeps_hindered_gate config out mac hpoor _).mono fun o log h => .inr (.inr h)
      · have hbroken : Hindered g i.id transaction (told log') := .broken (hheard _ hc)
        exact (keeps_hindered_gate config out mac hbroken _).mono fun o log h => .inr (.inr h)

/-- What a request brings that pays for an offer and has no session. -/
structure Paying (real : Floats) (offer : PaymentRequirements) (transaction authorization header : String) : Prop where
  bare : bearer authorization = none
  carried : ∃ p, PaymentHeaders.Carries real header p ∧ Brings offer transaction p

variable (loads mac path' log why) in
theorem keeps_payerOf (hbilling : container.billing = true) (hx402 : container.x402 = true) (hsdk : out.sdk = some sdk)
    (hasset : i.asset = g.asset) (hid : i.id ≠ "") (h : Meets config sdk (offerOf g path i) transaction envelope)
    {authorization header : String} (hpays : Paying real (offerOf g path i) transaction authorization header) :
    Keeps (fun _ _ => True) (heeding mac config out i) (fun o log => Outcome g id i.id transaction envelope.source log o)
      (payerOf container g real why loads authorization header path') log := by
  obtain ⟨p, hcarries, hbrings⟩ := hpays.carried
  have hheader : PaymentHeaders.decode real why header = .ok p := hcarries.decoded
  rw [payerOf, hbilling, sessionAccount_of_none hpays.bare, if_neg (by simp), bind_eq, ret_bind]
  rw [sessionOrPayment, if_pos ⟨rfl, hcarries.ne_empty, hx402⟩]
  refine keeps_bind.2 ((keeps_paidAccount hsdk hasset hid h hheader hbrings).mono fun o log ho => ?_)
  rcases ho with ⟨r, rfl, htaken⟩ | rfl | hh
  · dsimp only
    rw [if_neg htaken.2.1]
    exact keeps_admitted htaken
  · exact .inr (.inl rfl)
  · cases o with
    | error e => exact .inr (.inr hh)
    | ok payer => exact (keeps_hindered_gate config out mac hh _).mono fun o log h => .inr (.inr h)

variable {settings : Identity.Settings}

variable (loads mac settings why) in
theorem keeps_request (hbilling : container.billing = true) (hx402 : container.x402 = true) (hsdk : out.sdk = some sdk)
    (hasset : i.asset = g.asset) (hid : i.id ≠ "") (h : Meets config sdk (offerOf g path i) transaction envelope)
    {authorization header : String} (hpays : Paying real (offerOf g path i) transaction authorization header) (q : Request) :
    Keeps (fun _ _ => True) (answered mac) (fun o log => ∀ path', q = .payer authorization header path' →
      (∀ x ∈ log, Heeded config out i x.1 x.2) → Outcome g some i.id transaction envelope.source log o)
      (body container g settings real why loads q) [] := by
  cases q with
  | identity q => exact (keeps_of_guard (fun _ _ => trivial) _).mono fun _ _ _ _ h => nomatch h
  | billing q => exact (keeps_of_guard (fun _ _ => trivial) _).mono fun _ _ _ _ h => nomatch h
  | payer authorization' header' path'' =>
      by_cases hq : authorization' = authorization ∧ header' = header
      · obtain ⟨rfl, rfl⟩ := hq
        have hpayer := keeps_assuming (keeps_payerOf why loads mac path'' [] hbilling hx402 hsdk hasset hid h hpays)
        refine keeps_bind.2 (hpayer.mono fun o log ho => ?_)
        cases o with
        | error e =>
            intro path' _ hheeded
            rcases ho hheeded with ⟨r, hr, _⟩ | he | hh
            · cases hr
            · cases he
              exact .inr (.inl rfl)
            · exact .inr (.inr hh)
        | ok payer =>
            intro path' _ hheeded
            rcases ho hheeded with ⟨r, hr, htaken⟩ | he | hh
            · cases hr
              exact .inl ⟨r, rfl, htaken⟩
            · cases he
            · exact .inr (.inr hh)
      · refine (keeps_of_guard (fun _ _ => trivial) _).mono fun _ _ _ path' h => ?_
        cases h
        exact absurd ⟨rfl, rfl⟩ hq

/-- The network says of a transaction what its envelope says, and names its source. -/
def Truthful (config : StellarConfig) (out : Outside) : Rule := fun _ _ _ c r => match c, r with
  | .billing (.verify transaction k), r => r = .billing (replyOf .verified (verify config out transaction k))
  | .billing (.settle transaction), .billing (.settled s) => Names config out transaction s
  | _, _ => True

instance (config : StellarConfig) (out : Outside) (w : World)
    (vs : List (View Request Call Call.Answer Raised (Option (String × Option Ports.SettleResult))))
    (v : View Request Call Call.Answer Raised (Option (String × Option Ports.SettleResult))) (c : Call) (r : Reply) :
    Decidable (Truthful config out w vs v c r) := by
  dsimp only [Truthful]
  split <;> infer_instance

theorem heeded_step {w w' : World}
    {vs : List (View Request Call Call.Answer Raised (Option (String × Option Ports.SettleResult)))}
    {v : View Request Call Call.Answer Raised (Option (String × Option Ports.SettleResult))} {c : Call} {r : Reply}
    {a : Except Raised c.Answer} (hrule : Truthful config out w vs v c r) (hs : w.step mac c r = some (a, w'))
    (hstored : ∃ k, w.billing.store.invoice i.id = some k ∧ i.SameTerms k) : Heeded config out i c a := by
  cases c with
  | identity c => trivial
  | billing c =>
      obtain ⟨r', b, rfl, rfl, hstep⟩ := step_billing hs
      intro b' hb
      cases hb
      cases c with
      | invoice id =>
          rintro rfl found hfound
          obtain ⟨_, h | ⟨e, _, rfl⟩⟩ := Ports.step_invoice hstep
          · rw [h] at hfound
            obtain rfl := Except.ok.inj hfound
            exact hstored
          · cases hfound
      | verify transaction k =>
          have hr : r' = replyOf .verified (verify config out transaction k) := Reply.billing.inj hrule
          rw [hr] at hstep
          show b = verify config out transaction k
          cases hv : verify config out transaction k with
          | ok v =>
              rw [hv] at hstep
              exact (congrArg Prod.fst (Option.some.inj hstep)).symm
          | error e =>
              rw [hv] at hstep
              exact (congrArg Prod.fst (Option.some.inj hstep)).symm
      | settle transaction =>
          intro s hsettled
          cases r' with
          | settled s' =>
              have hanswer : b = .ok s' := (congrArg Prod.fst (Option.some.inj hstep)).symm
              obtain rfl : s' = s := Except.ok.inj (hanswer.symm.trans hsettled)
              exact hrule
          | raised e =>
              have hanswer : b = .error e := (congrArg Prod.fst (Option.some.inj hstep)).symm
              exact nomatch hanswer.symm.trans hsettled
          | _ => cases hstep
      | _ => trivial

end Gate

def quoted : Invoice where
  id := "cz1"
  account := ""
  sku := "x402"
  tokens := BillingService.tokensWorth shop shop.price
  price := shop.price
  asset := "XLM"
  amount := "5.0000000"
  destination := "GDEST"
  createdAt := 0
  expiresAt := X402Service.QUOTE_TTL
  kind := "x402"

def offered : PaymentRequirements := offerOf shop "/runs" quoted

def wallet : Sdk := reading (payment (some ⟨0, 300⟩))

def brought : PaymentHeaders.PaymentPayload where
  scheme := "exact"
  network := "stellar-testnet"
  payload := [("transaction", .str "AAAA"), ("invoice", .str "cz1")]

def answer : String := String.ofList (PaymentHeaders.header (Documents.dumped [','] [':'] brought.asJson))

def billOf {α : Type} : Except Raised α → Option PaymentRequired
  | .error (.paymentRequired document) => some document
  | _ => none

theorem of_billOf {α : Type} {o : Except Raised α} {document : PaymentRequired} (h : billOf o = some document) :
    o = .error (.paymentRequired document) := by
  unfold billOf at h
  split at h
  · cases h
    rfl
  · cases h

def asking : List (Event Request Reply) := [
  .start (.payer "" "" "/runs"), billed 0 (.time 0), billed 0 (.text "cz1"), billed 0 (.text "5.0000000"),
  billed 0 .done, .finish 0]

def paying : List (Event Request Reply) := [
  .start (.payer "" answer "/runs"), billed 1 .done, billed 1 .done, billed 1 (.time 1), billed 1 (.verified paidInFull),
  billed 1 (.settled { success := true, network := "stellar-testnet", transaction := "t1", payer := "GPAYER" }),
  billed 1 .done, billed 1 (.time 1), billed 1 .done, billed 1 (.text "e1"), billed 1 (.time 1), billed 1 .done,
  billed 1 (.time 2), billed 1 .done, billed 1 .done, billed 1 (.text "e2"), billed 1 (.time 2), billed 1 .done,
  billed 1 .done, .finish 1]

theorem meets_wallet : Meets testnet wallet offered "AAAA" (payment (some ⟨0, 300⟩)) := by
  have hprice : Reads "5.0000000" 50000000 := ⟨by decide, 50000000, -7, by decide +kernel, by decide, by decide⟩
  have hpaid : Reads "80" 800000000 := ⟨by decide, 80, 0, by decide +kernel, by decide, by decide⟩
  constructor
  · decide
  · rfl
  · rfl
  · decide +kernel
  · exact whole_payment _
  · refine ⟨.native, "80", 800000000, by decide +kernel, hpaid, ?_⟩
    have hvalue : Magnitudes.value (decimalOf (.str offered.maxAmountRequired)) = inStroops 50000000 := value_of_reads hprice
    rw [hvalue, inStroops, inStroops]
    gcongr
    decide

theorem carries_answer (real : Floats) : PaymentHeaders.Carries real answer brought := by
  apply PaymentHeaders.carries_written (by simp [Spellings.Blanks]) (by simp [Spellings.Blanks]) rfl
  · refine ⟨by simp [brought], ?_⟩
    exact ⟨trivial, trivial, trivial⟩
  · decide +kernel

theorem paying_answer (real : Floats) : Paying real offered "AAAA" "" answer := by
  refine ⟨by decide, brought, carries_answer real, ?_⟩
  constructor <;> decide

end CodeZard.Payments
