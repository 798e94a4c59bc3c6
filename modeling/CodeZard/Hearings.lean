import CodeZard.Endings
import CodeZard.Requests

namespace CodeZard.Hearings

open Amounts Ledgers Invoices Programs Interleaving Ports BillingService Endings
open X402Service (PaymentRequirements)

/-- What the store answers: a write with what was written, a read with a row of that key. -/
def said (_ : Requests.BillingLog) : (c : Ports.Call) → Except Error c.Answer → Prop
  | .putInvoice i, a => ∀ j, a = .ok j → j = i
  | .putSubscription s, a => ∀ t, a = .ok t → t = s
  | .invoice id, a => ∀ i, a = .ok (some i) → i.id = id
  | .subscription account, a => ∀ s, a = .ok (some s) → s.account = account
  | _, _ => True

theorem said_step {w w' : World} (log : Requests.BillingLog) {c : Ports.Call} {r : Reply} {a : Except Error c.Answer}
    (h : w.step c r = some (a, w')) : said log c a := by
  cases c with
  | putInvoice i =>
      rcases step_putInvoice h with ⟨e, _, rfl, _⟩ | ⟨_, rfl, _⟩
      · exact fun j hj => nomatch hj
      · exact fun j hj => (Except.ok.inj hj).symm
  | putSubscription s =>
      rcases step_putSubscription h with ⟨e, _, rfl, _⟩ | ⟨_, rfl, _⟩
      · exact fun t ht => nomatch ht
      · exact fun t ht => (Except.ok.inj ht).symm
  | invoice id =>
      obtain ⟨_, rfl | ⟨e, _, rfl⟩⟩ := step_invoice h
      · exact fun i hi => Storage.Store.invoice_id (Except.ok.inj hi)
      · exact fun i hi => nomatch hi
  | subscription account =>
      obtain ⟨_, rfl | ⟨e, _, rfl⟩⟩ := step_subscription h
      · exact fun s hs => Storage.Store.subscription_account (Except.ok.inj hs)
      · exact fun s hs => nomatch hs
  | _ => trivial

def negativeCredit : Error := .billing "a credit cannot be negative; use a debit"

def offerOf (g : Ports.Gateway) (path : String) (i : Invoice) : PaymentRequirements where
  scheme := X402Service.SCHEME
  network := g.network
  maxAmountRequired := i.amount
  resource := X402Service.orElse path g.resource
  description := grouped i.tokens ++ " CodeZard tokens"
  payTo := i.destination
  asset := g.asset
  maxTimeoutSeconds := X402Service.DEFAULT_TIMEOUT_S
  memo := i.memo
  invoice := i.id
  tokens := some i.tokens

variable {g : Ports.Gateway} {log : Requests.BillingLog}

theorem keeps_ask {c : Ports.Call} {post : Except Error c.Answer → Requests.BillingLog → Prop}
    (h : ∀ a, said log c a → post a (⟨c, a⟩ :: log)) : Keeps (fun _ _ => True) said post (ask c) log :=
  keeps_perform.2 ⟨trivial, h⟩

theorem blames_credit (account : String) (tokens : Int) (kind : EntryKind) (reference : Reference) (amount : Money)
    (memo : String) : Blames said (fun e => e = negativeCredit) (credit account tokens kind reference amount memo) := by
  rw [credit]
  split
  · exact blames_raise rfl
  · exact (blames_perform _).bind fun _ => (blames_perform _).bind fun _ => blames_perform _

theorem blames_mirrorChain (account : String) (now : Products.Datetime) :
    Blames said (fun e => e = negativeCredit) (mirrorChain g account now) := by
  have hread : Blames said (fun e => e = negativeCredit) (readChain g account) := by
    rw [readChain]
    split
    · refine (blames_perform _).rescue fun e => ?_
      split
      · exact .inl ⟨none, rfl⟩
      · exact .inr rfl
    · exact blames_ret none
  refine hread.bind fun onchain => ?_
  cases onchain with
  | none => exact blames_ret none
  | some onchain =>
      dsimp only
      split
      · exact blames_ret none
      split
      · exact blames_ret none
      · refine Blames.map ?_ some
        refine (blames_perform _).bind fun _ => (blames_credit _ _ _ _ _ _).bind fun _ => blames_ret _

theorem blames_settleRow (account : String) (now : Products.Datetime) :
    Blames said (fun e => e = negativeCredit) (settleRow g account now) := by
  refine (blames_perform _).bind fun row => ?_
  cases row with
  | none =>
      dsimp only
      rw [beginFree]
      split
      · exact blames_ret none
      · exact (blames_perform _).bind fun _ => (blames_credit _ _ _ _ _ _).bind fun _ => blames_ret _
  | some subscription =>
      dsimp only
      split
      · exact blames_ret _
      have hexpire : Blames said (fun e => e = negativeCredit) (expireGrant account subscription now) := by
        refine (Blames.map (blames_perform _) _).bind fun balance => ?_
        split
        · exact blames_ret ()
        · exact (blames_perform _).bind fun _ => (blames_perform _).bind fun _ => blames_ret ()
      refine hexpire.bind fun _ => ?_
      split
      · split
        · exact (blames_perform _).bind fun _ => (blames_credit _ _ _ _ _ _).bind fun _ => blames_ret _
        · exact Blames.map (blames_perform _) some
      · exact Blames.map (blames_perform _) some

theorem blames_settlePeriod (account : String) :
    Blames said (fun e => e = negativeCredit) (settlePeriod g account) := by
  refine (blames_perform _).bind fun now => (blames_mirrorChain account now).bind fun mirrored => ?_
  cases mirrored with
  | some mirrored => exact blames_ret _
  | none => exact blames_settleRow account now

def Covers (g : Ports.Gateway) (account : String) (entries : List LedgerEntry) : Prop :=
  g.reserve ≤ (balanceOf account entries).total

theorem keeps_authorize (account : String) (log : Requests.BillingLog) :
    Keeps (fun _ _ => True) said (fun o log => match o with
      | .ok _ => ∃ entries, ⟨.allEntries account, .ok entries⟩ ∈ log ∧ Covers g account entries
      | .error e => e = negativeCredit ∨ (∃ needed available entries, e = .insufficientFunds needed available ∧
          ⟨.allEntries account, .ok entries⟩ ∈ log ∧ (balanceOf account entries).total < max 0 g.reserve) ∨
            ∃ c, ⟨c, .error e⟩ ∈ log)
      (authorize g account) log := by
  refine keeps_bind.2 ((blames_settlePeriod account log).mono fun o log h => ?_)
  cases o with
  | error e => exact (h e rfl).imp_right .inr
  | ok _ =>
      refine keeps_bind.2 (keeps_perform_bind.2 ⟨trivial, fun a _ => ?_⟩)
      cases a with
      | error e => exact .inr (.inr ⟨_, List.mem_cons_self⟩)
      | ok entries =>
          dsimp only [pure_eq, Keeps]
          split
          · rename_i hafford
            refine ⟨entries, List.mem_cons_self, ?_⟩
            have hreserve : max 0 g.reserve ≤ (balanceOf account entries).total := by
              simpa [Balance.canAfford] using hafford
            exact (le_max_right _ _).trans hreserve
          · rename_i hafford
            refine .inr (.inl ⟨_, _, entries, rfl, List.mem_cons_self, ?_⟩)
            exact not_le.1 fun h => hafford (decide_eq_true h)

theorem keeps_requirements (account path : String) (log : Requests.BillingLog) :
    Keeps (fun _ _ => True) said (fun o log => ∀ r i, o = .ok (r, i) → ⟨.putInvoice i, .ok i⟩ ∈ log ∧
      i.status = .pending ∧ i.kind = "x402" ∧ i.account = account ∧ i.asset = g.asset ∧ r = offerOf g path i)
      (X402Service.requirements g account path) log := by
  refine keeps_perform_bind.2 ⟨trivial, fun a _ => ?_⟩
  cases a with
  | error e => exact fun _ _ h => nomatch h
  | ok now =>
      refine keeps_perform_bind.2 ⟨trivial, fun a _ => ?_⟩
      cases a with
      | error e => exact fun _ _ h => nomatch h
      | ok id =>
          refine keeps_perform_bind.2 ⟨trivial, fun a _ => ?_⟩
          cases a with
          | error e => exact fun _ _ h => nomatch h
          | ok quote =>
              refine keeps_perform_bind.2 ⟨trivial, fun a ha => ?_⟩
              cases a with
              | error e => exact fun _ _ h => nomatch h
              | ok i =>
                  obtain rfl := ha i rfl
                  intro r i h
                  cases h
                  exact ⟨List.mem_cons_self, rfl, rfl, rfl, rfl, rfl⟩

section Redeeming

open X402Service

variable {payload : PaymentPayload} {r : PaymentRequirements}

theorem blames_invoiceOf (P : Error → Prop) (r : PaymentRequirements) : Blames said P (invoiceOf r) := by
  rw [invoiceOf]
  split
  · exact blames_ret none
  · refine (blames_perform _).bind fun found => ?_
    cases found with
    | none => exact blames_ret none
    | some invoice =>
        refine (blames_perform _).bind fun now => ?_
        split
        · exact blames_ret _
        · exact blames_ret _

theorem blames_verify (P : Error → Prop) (payload : PaymentPayload) (r : PaymentRequirements) :
    Blames said P (X402Service.verify g payload r) := by
  rw [X402Service.verify]
  split
  · exact blames_ret _
  split
  · exact blames_ret _
  split
  · exact blames_ret _
  · refine (blames_invoiceOf P r).bind fun found => ?_
    cases found with
    | none => exact blames_ret _
    | some invoice => exact blames_perform _

theorem blames_record (r : PaymentRequirements) (verified : VerifyResult) (result : SettleResult) :
    Blames said (fun e => e = negativeCredit) (record r verified result) := by
  refine (blames_invoiceOf _ r).bind fun found => ?_
  cases found with
  | none => exact blames_ret _
  | some invoice =>
      exact (blames_perform _).bind fun _ => (blames_credit _ _ _ _ _ _).bind fun _ => blames_ret _

theorem blames_settle (payload : PaymentPayload) (r : PaymentRequirements) :
    Blames said (fun e => e = negativeCredit) (X402Service.settle g payload r) := by
  refine (blames_verify _ payload r).bind fun verified => ?_
  split
  · exact blames_ret _
  · refine (blames_perform _).bind fun result => ?_
    split
    · exact blames_ret _
    · exact blames_record r verified result

def RedeemError (e : Error) : Prop := e = negativeCredit ∨ ∃ message, e = .x402 message

theorem blames_redeem (payload : Except Error PaymentPayload) (path : String)
    (hp : ∀ e, payload = .error e → RedeemError e) : Blames said RedeemError (X402Service.redeem g payload path) := by
  refine (blames_ofExcept hp).bind fun payload => ?_
  have hnamed : Blames said RedeemError (namedInvoice payload) := by
    rw [namedInvoice]
    split
    · exact blames_ret none
    · exact blames_perform _
  refine hnamed.bind fun found => ?_
  cases found with
  | none => exact blames_raise (.inr ⟨_, rfl⟩)
  | some invoice =>
      refine ((blames_settle payload _).mono fun e he => .inl he).bind fun result => ?_
      split
      · exact blames_raise (.inr ⟨_, rfl⟩)
      · exact blames_ret _

def Found (id : String) (log : Requests.BillingLog) (i : Invoice) : Prop :=
  ⟨.invoice id, .ok (some i)⟩ ∈ log ∧ i.id = id ∧ ∃ now, ⟨.now, .ok now⟩ ∈ log ∧ i.isOpen now = true

/-- Whoever pays names an invoice that was found open, and has had the transaction
verified for it and taken by the ledger. -/
def Paid (payload : PaymentPayload) (log : Requests.BillingLog) (account : String) (r : SettleResult) : Prop :=
  ∃ i j verified, ⟨.invoice payload.invoice, .ok (some i)⟩ ∈ log ∧ Found payload.invoice log j ∧
    ⟨.verify payload.transaction j, .ok verified⟩ ∈ log ∧ verified.valid = true ∧
      ⟨.settle payload.transaction, .ok r⟩ ∈ log ∧ r.success = true ∧ account = orElse r.payer i.account

theorem Found.suffix {log log' : Requests.BillingLog} {id : String} {i : Invoice} (h : Found id log i) (hs : log <:+ log') :
    Found id log' i := by
  obtain ⟨hi, hid, now, hnow, hopen⟩ := h
  exact ⟨hs.subset hi, hid, now, hs.subset hnow, hopen⟩

theorem keeps_invoiceOf (r : PaymentRequirements) (log : Requests.BillingLog) :
    Keeps (fun _ _ => True) said (fun o log => ∀ i, o = .ok (some i) → Found r.invoice log i) (invoiceOf r) log := by
  rw [invoiceOf]
  split
  · exact fun i h => nomatch h
  · refine keeps_perform_bind.2 ⟨trivial, fun a ha => ?_⟩
    match a, ha with
    | .error e, _ => exact fun i h => nomatch h
    | .ok none, _ => exact fun i h => nomatch h
    | .ok (some invoice), ha =>
        have hid := ha invoice rfl
        refine keeps_perform_bind.2 ⟨trivial, fun a _ => ?_⟩
        cases a with
        | error e => exact fun i h => nomatch h
        | ok now =>
            dsimp only
            split
            · intro i h
              cases h
              exact ⟨by simp, hid, now, List.mem_cons_self, ‹_›⟩
            · exact fun i h => nomatch h

theorem keeps_verify (payload : PaymentPayload) (r : PaymentRequirements) (log : Requests.BillingLog) :
    Keeps (fun _ _ => True) said (fun o log => ∀ v, o = .ok v → v.valid = true →
      ∃ i, Found r.invoice log i ∧ ⟨.verify payload.transaction i, .ok v⟩ ∈ log) (X402Service.verify g payload r) log := by
  have hinvalid (reason : String) (log : Requests.BillingLog) (v : VerifyResult)
      (hv : (.ok { valid := false, reason := reason } : Except Error VerifyResult) = .ok v) (hvalid : v.valid = true) :
      ∃ i, Found r.invoice log i ∧ ⟨.verify payload.transaction i, .ok v⟩ ∈ log := by
    cases hv
    cases hvalid
  rw [X402Service.verify]
  split
  · exact hinvalid _ log
  split
  · exact hinvalid _ log
  split
  · exact hinvalid _ log
  · refine keeps_bind.2 ((keeps_invoiceOf r log).mono fun o log ho => ?_)
    match o, ho with
    | .error e, _ => exact fun v h => nomatch h
    | .ok none, _ => exact hinvalid _ log
    | .ok (some i), hfound =>
        refine keeps_ask fun a _ => ?_
        intro v hv _
        refine ⟨i, (hfound i rfl).suffix (List.suffix_cons _ _), ?_⟩
        rw [hv]
        exact List.mem_cons_self

theorem keeps_record (r : PaymentRequirements) (verified : VerifyResult) (result : SettleResult)
    (log : Requests.BillingLog) :
    Keeps (fun _ _ => True) said (fun o _ => ∀ result', o = .ok result' → result' = result) (record r verified result)
      log := by
  have herror (e : Error) (log : Requests.BillingLog) (result' : SettleResult) (h : Except.error e = .ok result') :
      result' = result := nomatch h
  refine keeps_after herror (fun found log => ?_) log
  cases found with
  | none => exact fun result' h => (Except.ok.inj h).symm
  | some i =>
      refine keeps_after herror (fun _ log => ?_) log
      refine keeps_after herror (fun _ log => ?_) log
      exact fun result' h => (Except.ok.inj h).symm

theorem keeps_settle (payload : PaymentPayload) (r : PaymentRequirements) (log : Requests.BillingLog) :
    Keeps (fun _ _ => True) said (fun o log => ∀ result, o = .ok result → result.success = true →
      ∃ i v, Found r.invoice log i ∧ ⟨.verify payload.transaction i, .ok v⟩ ∈ log ∧ v.valid = true ∧
        ⟨.settle payload.transaction, .ok result⟩ ∈ log) (X402Service.settle g payload r) log := by
  refine keeps_bind.2 ((keeps_verify payload r log).mono fun o log hv => ?_)
  cases o with
  | error e => exact fun _ h => nomatch h
  | ok verified =>
      dsimp only
      split
      · intro result h hsuccess
        cases h
        cases hsuccess
      rename_i hvalid
      obtain ⟨i, hfound, hi⟩ := hv verified rfl (by simpa using hvalid)
      refine keeps_perform_bind.2 ⟨trivial, fun a _ => ?_⟩
      cases a with
      | error e => exact fun _ h => nomatch h
      | ok taken =>
          have hdone : ∀ log' : Requests.BillingLog, ⟨.settle payload.transaction, .ok taken⟩ :: log <:+ log' →
              ∃ i v, Found r.invoice log' i ∧ ⟨.verify payload.transaction i, .ok v⟩ ∈ log' ∧ v.valid = true ∧
                ⟨.settle payload.transaction, .ok taken⟩ ∈ log' := fun log' hs =>
            ⟨i, verified, hfound.suffix ((List.suffix_cons _ _).trans hs), hs.subset (List.mem_cons_of_mem _ hi),
              by simpa using hvalid, hs.subset List.mem_cons_self⟩
          dsimp only
          split
          · intro result h _
            cases h
            exact hdone _ (List.suffix_refl _)
          · refine (keeps_record r verified taken _).suffix.mono fun o log' h => ?_
            intro result hr _
            obtain rfl := h.1 result hr
            exact hdone log' h.2

theorem keeps_redeem (payload : Except Error PaymentPayload) (path : String) (log : Requests.BillingLog) :
    Keeps (fun _ _ => True) said (fun o log => ∀ account result, o = .ok (account, result) →
      ∃ p, payload = .ok p ∧ Paid p log account result) (X402Service.redeem g payload path) log := by
  refine keeps_bind.2 (keeps_ofExcept.2 ?_)
  rcases payload with e | payload
  · exact fun _ _ h => nomatch h
  dsimp only
  have hnamed : Keeps (fun _ _ => True) said (fun o log => ∀ i, o = .ok (some i) →
      ⟨.invoice payload.invoice, .ok (some i)⟩ ∈ log ∧ i.id = payload.invoice) (namedInvoice payload) log := by
    rw [namedInvoice]
    split
    · intro i h
      cases h
    · refine keeps_ask fun a ha => ?_
      intro i hi
      have hid := ha i hi
      rw [hi]
      exact ⟨List.mem_cons_self, hid⟩
  refine keeps_bind.2 (hnamed.mono fun o log h => ?_)
  match o with
  | .error e => exact fun _ _ h => nomatch h
  | .ok none => exact fun _ _ h => nomatch h
  | .ok (some i) =>
      refine keeps_bind.2 ((keeps_settle payload _ log).suffix.mono fun o log' ho => ?_)
      cases o with
      | error e => exact fun _ _ h => nomatch h
      | ok result =>
          dsimp only
          split
          · exact fun _ _ h => nomatch h
          · rename_i hsuccess
            intro account result' heq
            cases heq
            have hs : result.success = true := by simpa using hsuccess
            obtain ⟨j, v, hfound, hv, hvalid, htaken⟩ := ho.1 result rfl hs
            obtain ⟨hi, hid⟩ := h i rfl
            have hnamed : Found payload.invoice log' j := hid ▸ hfound
            exact ⟨payload, rfl, i, j, v, ho.2.subset hi, hnamed, hv, hvalid, htaken, hs, rfl⟩

end Redeeming

end CodeZard.Hearings
