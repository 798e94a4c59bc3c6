import CodeZard.Requests

namespace CodeZard.Sales

open Amounts Products Ledgers Invoices Storage Programs Ports Interleaving Requests

inductive Role
  | issuing
  | confirming
  | redeeming
  | other
  deriving DecidableEq

def role : Request → Role
  | .checkout .. | .requirements .. => .issuing
  | .confirm _ | .reconcile _ => .confirming
  | .settle .. | .redeem .. => .redeeming
  | _ => .other

def Sells (q : Request) : Prop := role q ≠ .other

instance : DecidablePred Sells := fun q => inferInstanceAs (Decidable (role q ≠ .other))

def names : Request → String
  | .settle _ requirements => requirements.invoice
  | .redeem (.ok payload) _ => payload.invoice
  | _ => ""

def redeems : Request → Bool
  | .redeem .. => true
  | _ => false

theorem role_of_redeems {q : Request} (h : redeems q = true) : role q = .redeeming := by
  cases q <;> first | rfl | cases h

def sold (g : Gateway) (i : Invoice) : Bool := (g.catalog.product i.sku).isOk

/-- The paid invoice whose credit the call still has to write. -/
def debt : BillingLog → Option Invoice
  | ⟨.putInvoice i, .ok _⟩ :: _ => if i.status = .paid then some i else none
  | ⟨.now, _⟩ :: log => debt log
  | ⟨.entryId, _⟩ :: log => debt log
  | _ => none

/-- The invoice the call has just read, with what it did before, as long as it
only asks for the time and the payment. -/
def found : BillingLog → Option (Invoice × BillingLog)
  | ⟨.invoice _, .ok (some k)⟩ :: log => some (k, log)
  | ⟨.now, _⟩ :: log => found log
  | ⟨.paymentFor _, _⟩ :: log => found log
  | _ => none

def submissions (log : BillingLog) : List SettleResult := log.filterMap fun
  | ⟨.settle _, .ok r⟩ => if r.success then some r else none
  | _ => none

def Clear (g : Gateway) (q : Request) (log : BillingLog) : Prop :=
  ∀ i, debt log = some i → i.tokens < 0 ∨ (role q = .confirming ∧ sold g i = false)

def Writes (q : Request) (log : BillingLog) (i : Invoice) : Prop :=
  match role q with
  | .issuing => i.status = .pending
  | .confirming => ∃ k before, found log = some (k, before) ∧ k.status ≠ .paid ∧
      (i = k.expired ∨ ∃ txHash payer, i = k.paid txHash payer)
  | .redeeming => ∃ k before r payer, found log = some (k, before) ∧ k.status = .pending ∧
      k.id = names q ∧ r ∈ submissions before ∧ i = k.paid r.transaction payer
  | .other => False

def Credits (g : Gateway) (q : Request) (i : Invoice) (e : LedgerEntry) : Prop :=
  match role q with
  | .confirming => e.kind.isCredit = true ∧ e.reference = .invoice i.id ∧ sold g i = true
  | .redeeming => e.kind = .purchase ∧ e.reference = .x402 i.txHash
  | _ => False

def guard (g : Gateway) (q : Request) (log : BillingLog) : Call → Prop
  | .putInvoice i => debt log = none ∧ Writes q log i
  | .append e => ∃ i, debt log = some i ∧ e.tokens = i.tokens ∧ Credits g q i e
  | .verify .. => Clear g q log ∧ submissions log = []
  | .now | .entryId => True
  | _ => Clear g q log

def admits : BillingLog → (c : Call) → Except Error c.Answer → Prop
  | _, .now, a => ∃ t, a = .ok t
  | _, .entryId, a => ∃ s, a = .ok s
  | _, .putInvoice i, a => ∀ x, a = .ok x → x = i
  | _, .invoice id, a => ∀ k, a = .ok (some k) → k.id = id
  | _, _, _ => True

theorem admits_step {w w' : World} {log : BillingLog} {c : Call} {r : Reply} {a : Except Error c.Answer}
    (h : w.step c r = some (a, w')) : admits log c a := by
  cases c with
  | now => exact (step_now h).imp fun t ht => ht.2.2.1
  | entryId => exact (step_entryId h).2
  | putInvoice i => rcases step_putInvoice h with ⟨x, _, rfl, _⟩ | ⟨_, rfl, _⟩ <;> simp [admits]
  | invoice id =>
      obtain ⟨_, rfl | ⟨x, _, rfl⟩⟩ := step_invoice h
      · exact fun k hk => Store.invoice_id (Except.ok.inj hk)
      · simp [admits]
  | _ => trivial

def Booked (q : Request) (log : BillingLog) (r : SettleResult) : Prop :=
  ∃ k k' t u e x, ⟨.invoice (names q), .ok (some k)⟩ ∈ log ∧ ⟨.invoice (names q), .ok (some k')⟩ ∈ log ∧
    ⟨.verify t k', .ok u⟩ ∈ log ∧ r ∈ submissions log ∧ ⟨.append e, .ok x⟩ ∈ log ∧ e.kind = .purchase ∧
    e.tokens = k.tokens ∧ e.reference = .x402 r.transaction ∧
    e.account = X402Service.orElse (X402Service.orElse r.payer u.payer) k.account

/-- The last the call saw of its invoice, after the money had moved, was that
nobody can pay it, or not even that it is there. -/
def Missed : BillingLog → Prop
  | ⟨.invoice id, .ok none⟩ :: log => ∃ k, ⟨.invoice id, .ok (some k)⟩ ∈ log
  | ⟨.now, .ok t⟩ :: ⟨.invoice _, .ok (some k)⟩ :: log => submissions log ≠ [] ∧ k.isOpen t = false
  | _ => False

def Accounted (q : Request) (log : BillingLog) : Except Error Outcome → Prop
  | .ok (.settled r) => role q = .redeeming ∧ (r.success = true → Booked q log r ∨ Missed log)
  | .ok (.redeemed account r) => redeems q = true ∧ (Booked q log r ∨ Missed log) ∧
      ∃ k, ⟨.invoice (names q), .ok (some k)⟩ ∈ log ∧ account = X402Service.orElse r.payer k.account
  | _ => True

section Logs

variable {log : BillingLog} {k : Invoice} {before : BillingLog}

theorem found_mem (h : found log = some (k, before)) :
    (∃ id, ⟨.invoice id, .ok (some k)⟩ ∈ log) ∧ ∀ x ∈ before, x ∈ log := by
  induction log using found.induct with
  | case1 id k' log =>
      cases h
      exact ⟨⟨id, List.mem_cons_self⟩, fun x hx => List.mem_cons_of_mem _ hx⟩
  | case2 a log ih | case3 i a log ih =>
      obtain ⟨⟨id, hid⟩, hb⟩ := ih h
      exact ⟨⟨id, List.mem_cons_of_mem _ hid⟩, fun x hx => List.mem_cons_of_mem _ (hb x hx)⟩
  | case4 log h₁ h₂ h₃ => rw [found] at h <;> simp_all

theorem debt_of_found (h : found log = some (k, before)) : debt log = none := by
  induction log using found.induct with
  | case1 | case3 => rfl
  | case2 a log ih => exact ih h
  | case4 log h₁ h₂ h₃ => rw [found] at h <;> simp_all

theorem found_cons {x : (c : Call) × Except Error c.Answer} (h : found (x :: log) = some (k, before)) :
    found log = some (k, before) ∨ (before = log ∧ ∃ id, x = ⟨.invoice id, .ok (some k)⟩) := by
  unfold found at h
  split at h
  · rename_i hx
    obtain ⟨rfl, rfl⟩ := List.cons.inj hx
    cases h
    exact .inr ⟨rfl, _, rfl⟩
  · rename_i hx
    obtain ⟨rfl, rfl⟩ := List.cons.inj hx
    exact .inl h
  · rename_i hx
    obtain ⟨rfl, rfl⟩ := List.cons.inj hx
    exact .inl h
  · cases h

theorem mem_submissions {r : SettleResult} :
    r ∈ submissions log ↔ ∃ t, ⟨.settle t, .ok r⟩ ∈ log ∧ r.success = true := by
  unfold submissions
  rw [List.mem_filterMap]
  constructor
  · rintro ⟨x, hx, hr⟩
    split at hr
    · split at hr
      · cases hr; exact ⟨_, hx, ‹_›⟩
      · cases hr
    · cases hr
  · rintro ⟨t, hx, hr⟩
    exact ⟨_, hx, by simp [hr]⟩

theorem submissions_of_found (h : found log = some (k, before)) {r : SettleResult} (hr : r ∈ submissions before) :
    r ∈ submissions log := by
  obtain ⟨t, ht, hs⟩ := mem_submissions.1 hr
  exact mem_submissions.2 ⟨t, (found_mem h).2 _ ht, hs⟩

end Logs

section Programs

variable {g : Gateway} {q : Request} {log : BillingLog} {α : Type}

theorem clear_of_none (h : debt log = none) : Clear g q log := by
  intro i hi
  rw [h] at hi
  cases hi

abbrev Square (g : Gateway) (q : Request) (p : Billing α) : Prop :=
  Restores (guard g q) admits (Clear g q) p

theorem square_ask {c : Call} (hp : ∀ i, c ≠ .putInvoice i) (ha : ∀ e, c ≠ .append e)
    (hv : ∀ t i, c ≠ .verify t i) : Square g q (ask c) := by
  refine restores_perform (fun log h => ?_) (fun log a h _ => ?_)
  · cases c with
    | putInvoice i => exact absurd rfl (hp i)
    | append e => exact absurd rfl (ha e)
    | verify t i => exact absurd rfl (hv t i)
    | now | entryId => trivial
    | _ => exact h
  · cases c with
    | putInvoice i => exact absurd rfl (hp i)
    | now | entryId => exact h
    | _ => exact clear_of_none rfl

theorem square_nowUtc : Square g q nowUtc := square_ask (by simp) (by simp) (by simp)

theorem keeps_issue (hq : role q = .issuing) (hd : debt log = none) {i : Invoice} (hi : i.status = .pending) :
    Keeps (guard g q) admits (fun _ log => Clear g q log) (store.putInvoice i) log := by
  refine keeps_perform.2 ⟨⟨hd, by simpa only [Writes, hq] using hi⟩, fun a _ => clear_of_none ?_⟩
  cases a with
  | ok x => simp [debt, hi]
  | error e => rfl

theorem square_checkout (hq : role q = .issuing) (account sku asset : String) :
    Square g q (BillingService.checkout g account sku asset) := by
  have hi (product : Product) (kind : String) :
      Square g q (BillingService.checkout.issue g account asset product kind) := by
    unfold BillingService.checkout.issue
    split
    · exact restores_raise _
    · refine square_nowUtc.bind fun now => (square_ask (by simp) (by simp) (by simp)).bind fun id log h => ?_
      refine keeps_perform_bind.2 ⟨h, fun a _ => ?_⟩
      cases a with
      | ok amount => exact keeps_issue hq rfl rfl
      | error e => exact clear_of_none rfl
  refine (restores_ofExcept _).bind fun product => ?_
  cases product with
  | pack p => exact hi _ _
  | plan p =>
      simp only
      split
      · exact restores_raise _
      · split
        · exact restores_raise _
        · exact hi _ _

theorem square_requirements (hq : role q = .issuing) (account resource : String) (price : Option Money) :
    Square g q (X402Service.requirements g account resource price) := by
  refine square_nowUtc.bind fun now => (square_ask (by simp) (by simp) (by simp)).bind fun id log h => ?_
  refine keeps_perform_bind.2 ⟨h, fun a _ => ?_⟩
  cases a with
  | error e => exact clear_of_none rfl
  | ok quote =>
      refine keeps_bind.2 ((keeps_issue hq rfl rfl).mono fun o log h => ?_)
      cases o <;> exact h

theorem keeps_credit {i : Invoice} (hd : debt log = some i) {account memo : String} {kind : EntryKind}
    {reference : Reference} {amount : Money}
    (hc : ∀ id now, Credits g q i ⟨id, account, kind, i.tokens, now, amount, reference, memo⟩) :
    Keeps (guard g q) admits (fun o log => Clear g q log ∧ ∀ x, o = .ok x →
      ∃ id now, ⟨.append ⟨id, account, kind, i.tokens, now, amount, reference, memo⟩, .ok x⟩ ∈ log)
      (BillingService.credit account i.tokens kind reference amount memo) log := by
  unfold BillingService.credit
  split
  · exact ⟨fun j hj => .inl (by simp_all), by simp⟩
  · refine keeps_perform_bind.2 ⟨trivial, fun a ha => ?_⟩
    obtain ⟨id, rfl⟩ := ha
    refine keeps_perform_bind.2 ⟨trivial, fun a ha => ?_⟩
    obtain ⟨now, rfl⟩ := ha
    refine keeps_perform.2 ⟨⟨i, hd, rfl, hc id now⟩, fun a _ => ⟨clear_of_none rfl, fun x hx => ?_⟩⟩
    exact ⟨id, now, by simp [hx]⟩

theorem square_subscribe (account : String) (plan : Plan) :
    Square g q (BillingService.subscribe account plan) := by
  refine square_nowUtc.bind fun now => (square_ask (by simp) (by simp) (by simp)).bind fun current => ?_
  cases current with
  | none => exact square_ask (by simp) (by simp) (by simp)
  | some current =>
      simp only
      split <;> exact square_ask (by simp) (by simp) (by simp)

theorem keeps_deliver (hq : role q = .confirming) {i : Invoice} (hd : debt log = some i) :
    Keeps (guard g q) admits (fun _ log => Clear g q log) (BillingService.deliver g i) log := by
  unfold BillingService.deliver
  cases hp : g.catalog.product i.sku with
  | error e =>
      intro j hj
      obtain rfl : i = j := Option.some.inj (hd.symm.trans hj)
      exact .inr ⟨hq, by rw [sold, hp]; rfl⟩
  | ok product =>
      have hs : sold g i = true := by rw [sold, hp]; rfl
      simp only [ofExcept_ok, bind_eq, ret_bind]
      cases product with
      | plan plan =>
          refine keeps_bind.2 ((keeps_credit hd fun _ _ => ?_).mono fun o log h => ?_)
          · simp [Credits, hq, hs, EntryKind.isCredit]
          · cases o with
            | error e => exact h.1
            | ok x => exact (square_subscribe _ _).bind (fun _ => restores_ret ()) log h.1
      | pack pack =>
          refine keeps_bind.2 ((keeps_credit hd fun _ _ => ?_).mono fun o log h => ?_)
          · simp [Credits, hq, hs, EntryKind.isCredit]
          · cases o <;> exact h.1

theorem square_confirm (hq : role q = .confirming) (id : String) :
    Square g q (BillingService.confirm g id) := by
  intro log h
  refine keeps_perform_bind.2 ⟨h, fun a _ => ?_⟩
  match a with
  | .error e => exact clear_of_none rfl
  | .ok none => exact clear_of_none rfl
  | .ok (some invoice) =>
      simp only
      split
      · exact clear_of_none rfl
      · refine keeps_perform_bind.2 ⟨clear_of_none rfl, fun a _ => ?_⟩
        match a with
        | .error e => exact clear_of_none rfl
        | .ok none =>
            refine keeps_perform_bind.2 ⟨trivial, fun a ha => ?_⟩
            obtain ⟨now, rfl⟩ := ha
            simp only
            split
            · exact clear_of_none rfl
            · refine keeps_perform.2 ⟨⟨rfl, ?_⟩, fun a _ => clear_of_none ?_⟩
              · simp only [Writes, hq]
                exact ⟨invoice, log, rfl, ‹_›, .inl rfl⟩
              · cases a <;> rfl
        | .ok (some payment) =>
            simp only
            cases payment.settles invoice with
            | error e => exact clear_of_none rfl
            | ok settled =>
                cases settled with
                | false => exact clear_of_none rfl
                | true =>
                    refine keeps_perform_bind.2 ⟨⟨rfl, ?_⟩, fun a ha => ?_⟩
                    · simp only [Writes, hq]
                      exact ⟨invoice, log, rfl, ‹_›, .inr ⟨_, _, rfl⟩⟩
                    · match a with
                      | .error e => exact clear_of_none rfl
                      | .ok paid =>
                          obtain rfl := ha paid rfl
                          refine keeps_bind.2 ((keeps_deliver hq rfl).mono fun o log h => ?_)
                          cases o <;> exact h

theorem square_sweep (hq : role q = .confirming) (settled rest : List Invoice) :
    Square g q (BillingService.sweep g settled rest) := by
  induction rest generalizing settled with
  | nil => exact restores_ret _
  | cons invoice rest ih =>
      refine (((square_confirm hq invoice.id).map some).rescue fun e => ?_).bind fun confirmed => ?_
      · split
        · exact restores_ret _
        · exact restores_raise _
      · cases confirmed with
        | none => exact ih settled
        | some confirmed =>
            simp only
            split <;> exact ih _

theorem square_reconcile (hq : role q = .confirming) (limit : Int) :
    Square g q (BillingService.reconcile g limit) :=
  (square_ask (by simp) (by simp) (by simp)).bind fun _ => square_sweep hq _ _

/-- What `_invoice_of` tells, and how it shows in the log. -/
def Looked (requirements : X402Service.PaymentRequirements) (log log' : BillingLog) :
    Except Error (Option Invoice) → Prop
  | .ok (some k) => requirements.invoice ≠ "" ∧ k.id = requirements.invoice ∧ k.status = .pending ∧
      ⟨.invoice requirements.invoice, .ok (some k)⟩ ∈ log' ∧ found log' = some (k, log)
  | .ok none => requirements.invoice ≠ "" → submissions log ≠ [] →
      (∃ k, ⟨.invoice requirements.invoice, .ok (some k)⟩ ∈ log) → Missed log'
  | .error _ => True

theorem keeps_invoiceOf (requirements : X402Service.PaymentRequirements) (h : Clear g q log) :
    Keeps (guard g q) admits (fun o log' => Clear g q log' ∧ submissions log' = submissions log ∧
      Looked requirements log log' o) (X402Service.invoiceOf requirements) log := by
  unfold X402Service.invoiceOf
  split
  · exact ⟨h, rfl, fun hr => absurd ‹_› hr⟩
  · refine keeps_perform_bind.2 ⟨h, fun a ha => ?_⟩
    match a with
    | .error e => exact ⟨clear_of_none rfl, rfl, trivial⟩
    | .ok none => exact ⟨clear_of_none rfl, rfl, fun _ _ hk => hk⟩
    | .ok (some k) =>
        refine keeps_perform_bind.2 ⟨trivial, fun a hn => ?_⟩
        obtain ⟨now, rfl⟩ := hn
        simp only
        split
        · refine ⟨clear_of_none rfl, rfl, ‹_›, ha k rfl, ?_, by simp, rfl⟩
          exact (Invoice.isOpen_iff.1 ‹_›).1
        · exact ⟨clear_of_none rfl, rfl, fun _ hs _ => ⟨hs, by simpa using ‹¬k.isOpen now = true›⟩⟩

theorem keeps_verify (payload : X402Service.PaymentPayload) {requirements : X402Service.PaymentRequirements}
    (hn : requirements.invoice = names q) (h : Clear g q log) (hs : submissions log = []) :
    Keeps (guard g q) admits (fun o log' => Clear g q log' ∧ ∀ u, o = .ok u → u.valid = true →
      requirements.invoice ≠ "" ∧ ∃ t k, ⟨.invoice (names q), .ok (some k)⟩ ∈ log' ∧
        ⟨.verify t k, .ok u⟩ ∈ log') (X402Service.verify g payload requirements) log := by
  unfold X402Service.verify
  split
  · exact ⟨h, by simp⟩
  split
  · exact ⟨h, by simp⟩
  split
  · exact ⟨h, by simp⟩
  refine keeps_bind.2 ((keeps_invoiceOf requirements h).mono fun o log' ho => ?_)
  match o, ho with
  | .error e, ho => exact ⟨ho.1, by simp⟩
  | .ok none, ho => exact ⟨ho.1, by simp⟩
  | .ok (some k), ⟨hc, hs', hr, _, _, hk, _⟩ =>
      refine keeps_perform.2 ⟨⟨hc, hs'.trans hs⟩, fun a _ => ⟨clear_of_none rfl, fun u hu _ => ⟨hr, ?_⟩⟩⟩
      exact ⟨payload.transaction, k, by rw [← hn]; simp [hk], by simp [hu]⟩

theorem keeps_record (hq : role q = .redeeming) {requirements : X402Service.PaymentRequirements}
    (hn : requirements.invoice = names q) (hr : requirements.invoice ≠ "") {u : VerifyResult} {r : SettleResult}
    {t : String} {k' : Invoice} (hk' : ⟨.invoice (names q), .ok (some k')⟩ ∈ log)
    (hu : ⟨.verify t k', .ok u⟩ ∈ log) (h : Clear g q log) (hs : r ∈ submissions log) :
    Keeps (guard g q) admits (fun o log' => Clear g q log' ∧ ∀ r', o = .ok r' → Booked q log' r' ∨ Missed log')
      (X402Service.record requirements u r) log := by
  refine keeps_bind.2 ((keeps_invoiceOf requirements h).suffix.mono fun o log' ho => ?_)
  match o, ho with
  | .error e, ho => exact ⟨ho.1.1, by simp⟩
  | .ok none, ho => exact ⟨ho.1.1, fun _ _ => .inr (ho.1.2.2 hr (List.ne_nil_of_mem hs) ⟨k', hn ▸ hk'⟩)⟩
  | .ok (some k), ⟨⟨_, hs', _, hid, hp, hk, hf⟩, hl⟩ =>
      refine keeps_perform_bind.2 ⟨⟨debt_of_found hf, ?_⟩, fun a ha => ?_⟩
      · simp only [Writes, hq]
        exact ⟨k, log, r, _, hf, hp, hid.trans hn, hs, rfl⟩
      · match a with
        | .error e => exact ⟨clear_of_none rfl, by simp⟩
        | .ok paid =>
            obtain rfl := ha paid rfl
            refine keeps_bind.2 ((keeps_credit (i := k.paid _ _) rfl fun _ _ => ?_).suffix.mono fun o log₂ ho => ?_)
            · simp [Credits, hq, Invoice.paid]
            · match o, ho with
              | .error e, ho => exact ⟨ho.1.1, by simp⟩
              | .ok x, ⟨⟨hc, hx⟩, hl₂⟩ =>
                  obtain ⟨id, now, hm⟩ := hx x rfl
                  refine ⟨hc, fun r' hr' => .inl ?_⟩
                  obtain rfl : r = r' := Except.ok.inj hr'
                  have hsub : ∀ y ∈ log', y ∈ log₂ := fun y hy => hl₂.subset (List.mem_cons_of_mem _ hy)
                  obtain ⟨tx, htx, hsuc⟩ := mem_submissions.1 hs
                  exact ⟨k, k', t, u, _, x, hsub _ (hn ▸ hk), hsub _ (hl.subset hk'), hsub _ (hl.subset hu),
                    mem_submissions.2 ⟨tx, hsub _ (hl.subset htx), hsuc⟩, hm, rfl, rfl, rfl, rfl⟩

theorem keeps_settle (hq : role q = .redeeming) (payload : X402Service.PaymentPayload)
    {requirements : X402Service.PaymentRequirements} (hn : requirements.invoice = names q)
    (h : Clear g q log) (hs : submissions log = []) :
    Keeps (guard g q) admits (fun o log' => Clear g q log' ∧ ∀ r, o = .ok r → r.success = true →
      Booked q log' r ∨ Missed log') (X402Service.settle g payload requirements) log := by
  refine keeps_bind.2 ((keeps_verify payload hn h hs).mono fun o log ho => ?_)
  match o, ho with
  | .error e, ho => exact ⟨ho.1, by simp⟩
  | .ok u, ⟨hc, hu⟩ =>
      simp only
      split
      · refine ⟨hc, ?_⟩
        rintro r ⟨⟩ hr
        cases hr
      · obtain ⟨hr, t, k', hk', hv⟩ := hu u rfl (by simpa using ‹¬(!u.valid) = true›)
        refine keeps_perform_bind.2 ⟨hc, fun a _ => ?_⟩
        match a with
        | .error e => exact ⟨clear_of_none rfl, by simp⟩
        | .ok r =>
            simp only
            split
            · refine ⟨clear_of_none rfl, ?_⟩
              rintro r' ⟨⟩ hs
              simp_all
            · refine (keeps_record hq hn hr (List.mem_cons_of_mem _ hk') (List.mem_cons_of_mem _ hv)
                (clear_of_none rfl) ?_).mono fun o log' ho => ⟨ho.1, fun r' hr' _ => ho.2 r' hr'⟩
              exact mem_submissions.2 ⟨_, List.mem_cons_self, by simpa using ‹¬(!r.success) = true›⟩

theorem keeps_redeem {payload : Except Error X402Service.PaymentPayload} {resource : String}
    (hq : q = .redeem payload resource) :
    Keeps (guard g q) admits (fun o log' => Clear g q log' ∧ ∀ account r, o = .ok (account, r) →
      Accounted q log' (.ok (.redeemed account r))) (X402Service.redeem g payload resource) [] := by
  cases payload with
  | error e => exact ⟨clear_of_none rfl, by simp⟩
  | ok payload =>
      subst hq
      simp only [X402Service.redeem, ofExcept_ok, bind_eq, ret_bind, X402Service.namedInvoice]
      split
      · exact ⟨clear_of_none rfl, by simp⟩
      · refine keeps_perform_bind.2 ⟨clear_of_none rfl, fun a ha => ?_⟩
        match a with
        | .error e => exact ⟨clear_of_none rfl, by simp⟩
        | .ok none => exact ⟨clear_of_none rfl, by simp⟩
        | .ok (some k) =>
            refine keeps_bind.2 ((keeps_settle rfl payload (ha k rfl) (clear_of_none rfl) rfl).suffix.mono
              fun o log' ho => ?_)
            match o, ho with
            | .error e, ho => exact ⟨ho.1.1, by simp⟩
            | .ok r, ⟨⟨hc, hr⟩, hl⟩ =>
                simp only
                split
                · exact ⟨hc, by simp⟩
                · refine ⟨hc, fun account r' ho => ?_⟩
                  cases ho
                  have hs : r.success = true := by simpa using ‹¬(!r.success) = true›
                  exact ⟨rfl, hr r rfl hs, k, hl.subset List.mem_cons_self, rfl⟩

def post (g : Gateway) (q : Request) (o : Except Error Outcome) (log : BillingLog) : Prop :=
  Clear g q log ∧ Accounted q log o

theorem follows (hq : Sells q) : Keeps (guard g q) admits (post g q) (body g q) [] := by
  have hsq {α : Type} {p : Billing α} (f : α → Outcome) (hf : ∀ a log, Accounted q log (.ok (f a)))
      (hp : Square g q p) : Keeps (guard g q) admits (post g q) (f <$> p) [] := by
    refine keeps_bind.2 ((hp [] (clear_of_none rfl)).mono fun o log h => ?_)
    cases o with
    | ok a => exact ⟨h, hf a log⟩
    | error e => exact ⟨h, trivial⟩
  cases q with
  | checkout account sku asset => exact hsq _ (fun _ _ => trivial) (square_checkout rfl account sku asset)
  | confirm id => exact hsq _ (fun _ _ => trivial) (square_confirm rfl id)
  | reconcile limit => exact hsq _ (fun _ _ => trivial) (square_reconcile rfl limit)
  | requirements account resource price =>
      exact hsq _ (fun _ _ => trivial) (square_requirements rfl account resource price)
  | settle payload requirements =>
      refine keeps_bind.2 ((keeps_settle rfl payload rfl (clear_of_none rfl) rfl).mono fun o log h => ?_)
      cases o with
      | ok r => exact ⟨h.1, rfl, h.2 r rfl⟩
      | error e => exact ⟨h.1, trivial⟩
  | redeem payload resource =>
      refine keeps_bind.2 ((keeps_redeem rfl).mono fun o log h => ?_)
      cases o with
      | ok p => exact ⟨h.1, h.2 p.1 p.2 rfl⟩
      | error e => exact ⟨h.1, trivial⟩
  | credit | charge | settlePeriod | authorize => exact absurd rfl hq

end Programs

section Terms

variable {w w' : World} {vs : List InProgress}

theorem read_of_writes {q : Request} {log : BillingLog} {i : Invoice} (hw : Writes q log i)
    (hp : role q = .issuing → i.status ≠ .pending) :
    ∃ id k, ⟨.invoice id, .ok (some k)⟩ ∈ log ∧ k.SameTerms i := by
  unfold Writes at hw
  split at hw
  · exact absurd hw (hp ‹_›)
  · obtain ⟨k, before, hf, _, hi⟩ := hw
    obtain ⟨id, hid⟩ := (found_mem hf).1
    rcases hi with rfl | ⟨txHash, payer, rfl⟩ <;> exact ⟨id, k, hid, rfl⟩
  · obtain ⟨k, before, r, payer, hf, _, _, _, rfl⟩ := hw
    obtain ⟨id, hid⟩ := (found_mem hf).1
    exact ⟨id, k, hid, rfl⟩
  · exact absurd hw id

/-- What was read of an invoice, and what is owed for one, is what it still says. -/
structure Consistent (w : World) (vs : List InProgress) : Prop where
  reads : ∀ v ∈ vs, ∀ id k, ⟨.invoice id, .ok (some k)⟩ ∈ v.log →
    ∃ j, w.store.invoice id = some j ∧ k.SameTerms j
  owed : ∀ v ∈ vs, ∀ i, debt v.log = some i → (∃ a, ⟨.invoice i.id, a⟩ ∈ v.log) ∧
    ∃ j, w.store.invoice i.id = some j ∧ i.SameTerms j

theorem consistent_init (w : World) : Consistent w [] := by
  constructor <;> simp

theorem Consistent.arrive (h : Consistent w vs) (q : Request) : Consistent w (vs ++ [⟨q, [], none⟩]) := by
  constructor
  · intro v hv id k hk
    rcases List.mem_append.1 hv with hv | hv
    · exact h.reads v hv id k hk
    · obtain rfl := List.mem_singleton.1 hv
      cases hk
  · intro v hv i hi
    rcases List.mem_append.1 hv with hv | hv
    · exact h.owed v hv i hi
    · obtain rfl := List.mem_singleton.1 hv
      cases hi

variable {n : Nat} {q : Request} {log : BillingLog}

theorem Consistent.leave (h : Consistent w vs) (hn : vs[n]? = some ⟨q, log, none⟩)
    (o : Except Error Outcome) : Consistent w (vs.set n ⟨q, log, some o⟩) := by
  constructor
  · intro v hv id k hk
    rcases List.mem_or_eq_of_mem_set hv with hv | rfl
    · exact h.reads v hv id k hk
    · exact h.reads _ (List.mem_of_getElem? hn) id k hk
  · intro v hv i hi
    rcases List.mem_or_eq_of_mem_set hv with hv | rfl
    · exact h.owed v hv i hi
    · exact h.owed _ (List.mem_of_getElem? hn) i hi

theorem debt_cons {x : (c : Call) × Except Error c.Answer} {i : Invoice} (h : debt (x :: log) = some i) :
    debt log = some i ∨ (i.status = .paid ∧ ∃ a, x = ⟨.putInvoice i, .ok a⟩) := by
  unfold debt at h
  split at h
  · rename_i hx
    obtain ⟨rfl, rfl⟩ := List.cons.inj hx
    split at h
    · cases h
      exact .inr ⟨‹_›, _, rfl⟩
    · cases h
  · rename_i hx
    obtain ⟨rfl, rfl⟩ := List.cons.inj hx
    exact .inl h
  · rename_i hx
    obtain ⟨rfl, rfl⟩ := List.cons.inj hx
    exact .inl h
  · cases h

theorem Consistent.step (h : Consistent w vs) {g : Gateway} (hn : vs[n]? = some ⟨q, log, none⟩) {c : Call}
    (hg : guard g q log c) {r : Reply} {a : Except Error c.Answer} (hs : w.step c r = some (a, w')) :
    Consistent w' (vs.set n ⟨q, ⟨c, a⟩ :: log, none⟩) := by
  have hstored {id : String} {k : Invoice} (hk : ∃ j, w.store.invoice id = some j ∧ k.SameTerms j) :
      ∃ j, w'.store.invoice id = some j ∧ k.SameTerms j := by
    obtain ⟨j, hj, hkj⟩ := hk
    obtain ⟨j', hj', hjj⟩ := stored_step hs hj
    exact ⟨j', hj', hkj.trans hjj⟩
  constructor
  · intro v hv id k hk
    refine hstored ?_
    rcases List.mem_or_eq_of_mem_set hv with hv | rfl
    · exact h.reads v hv id k hk
    rcases List.mem_cons.1 hk with hk | hk
    · cases hk
      obtain ⟨_, ha | ⟨x, _, ha⟩⟩ := step_invoice hs
      · exact ⟨k, (Except.ok.inj ha).symm, rfl⟩
      · cases ha
    · exact h.reads _ (List.mem_of_getElem? hn) id k hk
  · intro v hv i hi
    rcases List.mem_or_eq_of_mem_set hv with hv | rfl
    · exact (h.owed v hv i hi).imp_right hstored
    rcases debt_cons hi with hd | ⟨hp, x, hx⟩
    · obtain ⟨⟨b, hb⟩, hj⟩ := h.owed _ (List.mem_of_getElem? hn) i hd
      exact ⟨⟨b, List.mem_cons_of_mem _ hb⟩, hstored hj⟩
    · cases hx
      obtain ⟨id, k, hm, hki⟩ := read_of_writes hg.2 fun _ => by simp [hp]
      obtain ⟨j, hj, hkj⟩ := h.reads _ (List.mem_of_getElem? hn) id k hm
      obtain rfl : id = i.id := by rw [← Store.invoice_id hj, hkj.id_eq, hki.id_eq]
      refine ⟨⟨_, List.mem_cons_of_mem _ hm⟩, hstored ⟨j, hj, ?_⟩⟩
      exact hki.symm_trans hkj

end Terms

end CodeZard.Sales
