import CodeZard.Sales

namespace CodeZard.Confirmations

open Amounts Products Ledgers Periods Invoices Storage Programs Ports Interleaving Requests Sales

def Confirms (q : Request) : Prop := role q = .confirming

instance : DecidablePred Confirms := fun q => inferInstanceAs (Decidable (role q = .confirming))

def isPaid (s : Store) (id : String) : Bool := (s.invoice id).any fun i => i.status = .paid

/-- Nobody has marked the invoice as paid when a call writes it. -/
def Unpaid (id : String) : Rule := fun w _ _ c r =>
  match c, r with
  | .putInvoice i, .done => i.id = id → isPaid w.store id = false
  | _, _ => True

instance (id : String) (w : World) (vs : List InProgress) (v : InProgress) (c : Call) (r : Reply) :
    Decidable (Unpaid id w vs v c r) := by
  rcases c <;> rcases r <;> dsimp only [Unpaid] <;> infer_instance

/-- The invoice buys a plan, and a number of tokens that can be credited. -/
def buysPlan (g : Gateway) (i : Invoice) : Bool :=
  0 ≤ i.tokens && match g.catalog.product i.sku with
    | .ok (.plan _) => true
    | _ => false

def isMark (p : Invoice → Bool) (id : String) : (x : (c : Call) × Except Error c.Answer) → Bool
  | ⟨.putInvoice i, .ok _⟩ => i.id = id && i.status = .paid && p i
  | _ => false

/-- How often a call has marked the invoice as paid. -/
def marks (p : Invoice → Bool) (id : String) (log : BillingLog) : Nat := log.countP (isMark p id)

def anyInvoice (_ : Invoice) : Bool := true

def credited : BillingLog → Option Reference
  | ⟨.append e, _⟩ :: _ => some e.reference
  | _ :: log => credited log
  | [] => none

def begins (id : String) : BillingLog → Nat
  | ⟨.putSubscription _, .ok _⟩ :: log => begins id log + if credited log = some (.invoice id) then 1 else 0
  | _ :: log => begins id log
  | [] => 0

def begunBy (id : String) (vs : List InProgress) : Nat := (vs.map fun v => begins id v.log).sum

def Clean (log : BillingLog) : Prop := ∀ x ∈ log, ∃ v, x.2 = .ok v

def guard (id : String) (log : BillingLog) : Call → Prop
  | .putSubscription _ => credited log = some (.invoice id) → begins id log < marks anyInvoice id log
  | _ => True

def admits : BillingLog → (c : Call) → Except Error c.Answer → Prop
  | _, .putInvoice i, a => ∀ x, a = .ok x → x = i
  | _, _, _ => True

/-- Every subscription that was begun goes with a mark, and the other way round
if nothing was raised on the way. -/
structure Balanced (g : Gateway) (id : String) (log : BillingLog) : Prop where
  within : begins id log ≤ marks anyInvoice id log
  clean : Clean log → marks (buysPlan g) id log ≤ begins id log

/-- The invoice is marked and what it buys is still to be delivered. -/
structure Due (g : Gateway) (id : String) (k : Invoice) (log : BillingLog) : Prop where
  marked : k.id = id → begins id log < marks anyInvoice id log
  within : begins id log ≤ marks anyInvoice id log
  clean : Clean log → marks (buysPlan g) id log ≤ begins id log + if k.id = id ∧ buysPlan g k = true then 1 else 0

section Logs

variable {g : Gateway} {id : String} {k : Invoice} {log : BillingLog} {c : Call} {a : Except Error c.Answer}

theorem Clean.tail {x : (c : Call) × Except Error c.Answer} (h : Clean (x :: log)) : Clean log :=
  fun y hy => h y (List.mem_cons_of_mem _ hy)

theorem not_clean_error {e : Error} : ¬ Clean (⟨c, .error e⟩ :: log) := by
  intro h
  obtain ⟨v, hv⟩ := h _ List.mem_cons_self
  cases hv

theorem marks_cons {p : Invoice → Bool} {x : (c : Call) × Except Error c.Answer} (h : isMark p id x = false) :
    marks p id (x :: log) = marks p id log :=
  List.countP_cons_of_neg (by simp [h])

theorem isMark_of_ne {p : Invoice → Bool} (hc : ∀ i, c ≠ .putInvoice i) : isMark p id ⟨c, a⟩ = false := by
  cases c with
  | putInvoice i => exact absurd rfl (hc i)
  | _ => rfl

theorem isMark_error {p : Invoice → Bool} {e : Error} : isMark p id ⟨c, .error e⟩ = false := by
  cases c <;> rfl

theorem begins_cons (hc : ∀ s, c ≠ .putSubscription s) : begins id (⟨c, a⟩ :: log) = begins id log := by
  cases c with
  | putSubscription s => exact absurd rfl (hc s)
  | _ => rfl

theorem begins_error {e : Error} : begins id (⟨c, .error e⟩ :: log) = begins id log := by
  cases c <;> rfl

theorem not_putInvoice (hc : c.reads = true) (i : Invoice) : c ≠ .putInvoice i := by
  rintro rfl
  cases hc

theorem not_putSubscription (hc : c.reads = true) (s : Subscription) : c ≠ .putSubscription s := by
  rintro rfl
  cases hc

theorem Balanced.add (h : Balanced g id log) (hm : ∀ p, isMark p id ⟨c, a⟩ = false) (hc : ∀ s, c ≠ .putSubscription s) :
    Balanced g id (⟨c, a⟩ :: log) := by
  constructor
  · rw [marks_cons (hm _), begins_cons hc]
    exact h.within
  · rw [marks_cons (hm _), begins_cons hc]
    exact fun hl => h.clean hl.tail

theorem Balanced.quiet (h : Balanced g id log) (hc : c.reads = true) : Balanced g id (⟨c, a⟩ :: log) :=
  h.add (fun _ => isMark_of_ne (not_putInvoice hc)) (not_putSubscription hc)

theorem balanced_error {e : Error} (h : begins id log ≤ marks anyInvoice id log) :
    Balanced g id (⟨c, .error e⟩ :: log) := by
  constructor
  · rw [marks_cons isMark_error, begins_error]
    exact h
  · exact fun hl => absurd hl not_clean_error

theorem Due.add (h : Due g id k log) (hm : ∀ p, isMark p id ⟨c, a⟩ = false) (hc : ∀ s, c ≠ .putSubscription s) :
    Due g id k (⟨c, a⟩ :: log) := by
  constructor
  · rw [marks_cons (hm _), begins_cons hc]
    exact h.marked
  · rw [marks_cons (hm _), begins_cons hc]
    exact h.within
  · rw [marks_cons (hm _), begins_cons hc]
    exact fun hl => h.clean hl.tail

theorem Due.quiet (h : Due g id k log) (hc : c.reads = true) : Due g id k (⟨c, a⟩ :: log) :=
  h.add (fun _ => isMark_of_ne (not_putInvoice hc)) (not_putSubscription hc)

theorem Due.balanced (h : Due g id k log) (hk : buysPlan g k = false) : Balanced g id log := by
  refine ⟨h.within, fun hl => ?_⟩
  have := h.clean hl
  simpa [hk] using this

theorem Balanced.mark (h : Balanced g id log) {i : Invoice} (hp : i.status = .paid) :
    Due g id i (⟨.putInvoice i, .ok i⟩ :: log) := by
  have hb : begins id (⟨.putInvoice i, .ok i⟩ :: log) = begins id log := rfl
  have hm (p : Invoice → Bool) : marks p id (⟨.putInvoice i, .ok i⟩ :: log) =
      marks p id log + if i.id = id ∧ p i = true then 1 else 0 := by
    rw [marks, marks, List.countP_cons]
    simp [isMark, hp]
  have hall : (i.id = id ∧ anyInvoice i = true) ↔ i.id = id := by simp [anyInvoice]
  have hw := h.within
  constructor
  · intro hid
    rw [hm, hb, if_pos (hall.2 hid)]
    omega
  · rw [hm, hb]
    omega
  · intro hl
    have := h.clean hl.tail
    rw [hm, hb]
    omega

theorem Due.begun (h : Due g id k log) (hr : credited log = some (.invoice k.id)) (s x : Subscription) :
    Balanced g id (⟨.putSubscription s, .ok x⟩ :: log) := by
  have hm (p : Invoice → Bool) : marks p id (⟨.putSubscription s, .ok x⟩ :: log) = marks p id log := marks_cons rfl
  have hb : begins id (⟨.putSubscription s, .ok x⟩ :: log) = begins id log + if k.id = id then 1 else 0 := by
    rw [begins, hr]
    simp
  have hw := h.within
  constructor
  · rw [hm, hb]
    split
    · have := h.marked ‹_›
      omega
    · exact hw
  · intro hl
    have := h.clean hl.tail
    rw [hm, hb]
    by_cases hid : k.id = id
    · simp only [hid, if_true, true_and] at this ⊢
      split at this <;> omega
    · simpa [hid] using this

end Logs

section Programs

variable {g : Gateway} {id : String} {k : Invoice} {log : BillingLog}

abbrev Balances (g : Gateway) (id : String) {α : Type} (p : Billing α) : Prop :=
  Restores (guard id) admits (Balanced g id) p

theorem guard_reads {c : Call} (hc : c.reads = true) : guard id log c := by
  cases c with
  | putSubscription s => cases hc
  | _ => trivial

theorem balances_ask {c : Call} (hc : c.reads = true) : Balances g id (ask c) :=
  restores_perform (fun _ _ => guard_reads hc) fun _ _ h _ => h.quiet hc

theorem keeps_subscribe (h : Due g id k log) (hr : credited log = some (.invoice k.id)) (plan : Plan) :
    Keeps (guard id) admits (fun _ log => Balanced g id log) (BillingService.subscribe k.account plan) log := by
  refine keeps_perform_bind.2 ⟨trivial, fun a _ => ?_⟩
  cases a with
  | error e => exact balanced_error h.within
  | ok now =>
      refine keeps_perform_bind.2 ⟨trivial, fun a _ => ?_⟩
      cases a with
      | error e => exact balanced_error (h.quiet (c := .now) rfl).within
      | ok current =>
          have hdue : Due g id k (⟨.subscription k.account, .ok current⟩ :: ⟨.now, .ok now⟩ :: log) :=
            (h.quiet (c := .now) rfl).quiet (c := .subscription k.account) rfl
          have hput (s : Subscription) : Keeps (guard id) admits (fun _ log => Balanced g id log)
              (store.putSubscription s) (⟨.subscription k.account, .ok current⟩ :: ⟨.now, .ok now⟩ :: log) := by
            refine keeps_perform.2 ⟨fun hid => hdue.marked ?_, fun a ha => ?_⟩
            · have hk : some (Reference.invoice k.id) = some (.invoice id) := hr.symm.trans hid
              simpa using hk
            · cases a with
              | error e => exact balanced_error hdue.within
              | ok x => exact hdue.begun hr s x
          cases current with
          | none => exact hput _
          | some current =>
              simp only
              split <;> exact hput _

theorem keeps_credit (h : Due g id k log) {kind : EntryKind} {amount : Money} {memo : String} :
    Keeps (guard id) admits (fun o log => match o with
        | .ok _ => Due g id k log ∧ credited log = some (.invoice k.id)
        | .error _ => Balanced g id log)
      (BillingService.credit k.account k.tokens kind (.invoice k.id) amount memo) log := by
  unfold BillingService.credit
  split
  · refine h.balanced ?_
    simp only [buysPlan, Bool.and_eq_false_iff, decide_eq_false_iff_not]
    exact .inl (Int.not_le.2 ‹_›)
  · refine keeps_perform_bind.2 ⟨trivial, fun a _ => ?_⟩
    cases a with
    | error e => exact balanced_error h.within
    | ok entryId =>
        refine keeps_perform_bind.2 ⟨trivial, fun a _ => ?_⟩
        cases a with
        | error e => exact balanced_error (h.quiet (c := .entryId) rfl).within
        | ok now =>
            have hdue : Due g id k (⟨.now, .ok now⟩ :: ⟨.entryId, .ok entryId⟩ :: log) :=
              (h.quiet (c := .entryId) rfl).quiet (c := .now) rfl
            refine keeps_perform.2 ⟨trivial, fun a _ => ?_⟩
            cases a with
            | error e => exact balanced_error hdue.within
            | ok x => exact ⟨hdue.add (fun _ => rfl) (by simp), rfl⟩

theorem keeps_deliver (h : Due g id k log) :
    Keeps (guard id) admits (fun _ log => Balanced g id log) (BillingService.deliver g k) log := by
  unfold BillingService.deliver
  cases hp : g.catalog.product k.sku with
  | error e => exact h.balanced (by simp [buysPlan, hp])
  | ok product =>
      simp only [ofExcept_ok, bind_eq, ret_bind]
      cases product with
      | plan plan =>
          refine keeps_bind.2 ((keeps_credit h).mono fun o log ho => ?_)
          cases o with
          | error e => exact ho
          | ok x =>
              refine keeps_bind.2 ((keeps_subscribe ho.1 ho.2 plan).mono fun o log ho => ?_)
              cases o <;> exact ho
      | pack pack =>
          refine keeps_bind.2 ((keeps_credit h).mono fun o log ho => ?_)
          cases o with
          | error e => exact ho
          | ok x => exact ho.1.balanced (by simp [buysPlan, hp])

theorem balances_expired (i : Invoice) : Balances g id (store.putInvoice i.expired) := by
  refine restores_perform (fun _ _ => trivial) fun log a h _ => h.add (fun p => ?_) (by simp)
  cases a with
  | error e => rfl
  | ok x => simp [isMark, Invoice.expired]

theorem balances_settle (i : Invoice) (txHash payer : String) :
    Balances g id ((store.putInvoice (i.paid txHash payer)).bind fun paid =>
      (BillingService.deliver g paid).bind fun _ => .ret paid) := by
  intro log h
  refine keeps_perform_bind.2 ⟨trivial, fun a ha => ?_⟩
  cases a with
  | error e => exact balanced_error h.within
  | ok paid =>
      obtain rfl := ha paid rfl
      refine keeps_bind.2 ((keeps_deliver (h.mark rfl)).mono fun o log ho => ?_)
      cases o <;> exact ho

theorem balances_confirm (invoiceId : String) : Balances g id (BillingService.confirm g invoiceId) := by
  refine Restores.bind (balances_ask rfl) fun invoice => ?_
  cases invoice with
  | none => exact restores_raise _
  | some invoice =>
      simp only
      split
      · exact restores_ret _
      · refine Restores.bind (balances_ask rfl) fun payment => ?_
        cases payment with
        | none =>
            refine Restores.bind (balances_ask rfl) fun now => ?_
            split
            · exact restores_ret _
            · exact balances_expired invoice
        | some payment =>
            refine (restores_ofExcept _).bind fun settled => ?_
            split
            · exact balances_settle invoice _ _
            · exact restores_ret _

theorem balances_sweep (settled rest : List Invoice) : Balances g id (BillingService.sweep g settled rest) := by
  induction rest generalizing settled with
  | nil => exact restores_ret _
  | cons invoice rest ih =>
      refine (((balances_confirm invoice.id).map some).rescue fun e => ?_).bind fun confirmed => ?_
      · split
        · exact restores_ret _
        · exact restores_raise _
      · cases confirmed with
        | none => exact ih settled
        | some confirmed =>
            simp only
            split <;> exact ih _

theorem balances_body {q : Request} (hq : Confirms q) : Balances g id (body g q) := by
  cases q with
  | confirm invoiceId => exact (balances_confirm invoiceId).map _
  | reconcile limit => exact Restores.map (Restores.bind (balances_ask rfl) fun _ => balances_sweep _ _) _
  | _ => cases hq

end Programs

/-- The invoice was marked at most once, and is paid if it was. -/
structure Inv (g : Gateway) (id : String) (w : World) (vs : List InProgress) : Prop where
  once : (vs.map fun v => marks anyInvoice id v.log).sum ≤ 1
  paid : 0 < (vs.map fun v => marks anyInvoice id v.log).sum → isPaid w.store id = true
  within : ∀ v ∈ vs, begins id v.log ≤ marks anyInvoice id v.log
  settled : ∀ v ∈ vs, v.result.isSome = true → Balanced g id v.log

section Steps

variable {g : Gateway} {id : String} {w w' : World} {vs : List InProgress} {n : Nat} {q : Request} {log : BillingLog}
  {c : Call} {r : Reply} {a : Except Error c.Answer} {v : InProgress}

theorem invoice_step (hc : Unpaid id w vs v c r) (hs : w.step c r = some (a, w')) (hp : isPaid w.store id = true) :
    w'.store.invoice id = w.store.invoice id := by
  cases c with
  | putInvoice i =>
      rcases step_putInvoice hs with ⟨x, _, _, rfl⟩ | ⟨rfl, _, rfl⟩
      · rfl
      · refine Store.invoice_putInvoice_of_ne fun hid => ?_
        rw [hc hid] at hp
        cases hp
  | append e =>
      rcases step_append hs with ⟨x, _, _, rfl⟩ | ⟨_, _, rfl⟩
      · rfl
      · exact Store.invoice_append _ _ _
  | putSubscription s => rcases step_putSubscription hs with ⟨x, _, _, rfl⟩ | ⟨_, _, rfl⟩ <;> rfl
  | _ => rw [step_reads hs rfl]

theorem mark_step (hm : isMark anyInvoice id ⟨c, a⟩ = true) (hc : Unpaid id w vs v c r)
    (hs : w.step c r = some (a, w')) : isPaid w.store id = false ∧ isPaid w'.store id = true := by
  cases c with
  | putInvoice i =>
      rcases step_putInvoice hs with ⟨x, _, rfl, _⟩ | ⟨rfl, rfl, rfl⟩
      · cases hm
      · simp only [isMark, anyInvoice, Bool.and_true, Bool.and_eq_true, decide_eq_true_eq] at hm
        obtain ⟨rfl, hp⟩ := hm
        refine ⟨hc rfl, ?_⟩
        rw [isPaid, Store.invoice_putInvoice_self]
        cases w.store.invoice i.id <;> simp [hp, Invoice.settledAs]
  | _ => cases hm

theorem within_step (hw : begins id log ≤ marks anyInvoice id log) (hg : guard id log c) :
    begins id (⟨c, a⟩ :: log) ≤ marks anyInvoice id (⟨c, a⟩ :: log) := by
  have hm : marks anyInvoice id log ≤ marks anyInvoice id (⟨c, a⟩ :: log) := by
    rw [marks, marks, List.countP_cons]
    omega
  by_cases hc : ∃ s, c = .putSubscription s
  · obtain ⟨s, rfl⟩ := hc
    cases a with
    | error e => exact hw.trans hm
    | ok x =>
        rw [begins]
        split
        · exact (hg ‹_›).trans_le hm
        · exact hw.trans hm
  · push Not at hc
    rw [begins_cons hc]
    exact hw.trans hm

theorem Inv.step (h : Inv g id w vs) (hn : vs[n]? = some ⟨q, log, none⟩) (hg : guard id log c)
    (hc : Unpaid id w vs ⟨q, log, none⟩ c r) (hs : w.step c r = some (a, w')) :
    Inv g id w' (vs.set n ⟨q, ⟨c, a⟩ :: log, none⟩) := by
  have hsum := sum_set (f := fun v : InProgress => marks anyInvoice id v.log) hn ⟨q, ⟨c, a⟩ :: log, none⟩
  have hcount : marks anyInvoice id (⟨c, a⟩ :: log) =
      marks anyInvoice id log + if isMark anyInvoice id ⟨c, a⟩ = true then 1 else 0 := List.countP_cons
  simp only [hcount] at hsum
  have honce := h.once
  have hwithin : ∀ u ∈ vs.set n ⟨q, ⟨c, a⟩ :: log, none⟩, begins id u.log ≤ marks anyInvoice id u.log := by
    intro u hu
    rcases List.mem_or_eq_of_mem_set hu with hu | rfl
    · exact h.within u hu
    · exact within_step (h.within _ (List.mem_of_getElem? hn)) hg
  have hsettled : ∀ u ∈ vs.set n ⟨q, ⟨c, a⟩ :: log, none⟩, u.result.isSome = true → Balanced g id u.log := by
    intro u hu hr
    rcases List.mem_or_eq_of_mem_set hu with hu | rfl
    · exact h.settled u hu hr
    · cases hr
  cases hm : isMark anyInvoice id ⟨c, a⟩ with
  | true =>
      obtain ⟨hbefore, hafter⟩ := mark_step hm hc hs
      have hzero : ¬ 0 < (vs.map fun v => marks anyInvoice id v.log).sum := by
        intro hpos
        rw [h.paid hpos] at hbefore
        cases hbefore
      simp only [hm, if_true] at hsum
      exact ⟨by omega, fun _ => hafter, hwithin, hsettled⟩
  | false =>
      simp only [hm, Bool.false_eq_true, if_false] at hsum
      refine ⟨by omega, fun hpos => ?_, hwithin, hsettled⟩
      have hp := h.paid (by omega)
      rw [isPaid, invoice_step hc hs hp]
      exact hp

end Steps

def protocol (g : Gateway) (id : String) : Protocol (body g) World.step Confirms (Unpaid id) where
  inv := Inv g id
  guard _ := guard id
  admits _ := admits
  post _ _ := Balanced g id
  arrive {q w vs} _ h := by
    have hsum : ((vs ++ [(⟨q, [], none⟩ : InProgress)]).map fun v => marks anyInvoice id v.log).sum =
        (vs.map fun v => marks anyInvoice id v.log).sum := by simp [marks]
    refine ⟨by rw [hsum]; exact h.once, by rw [hsum]; exact h.paid, fun v hv => ?_, fun v hv hr => ?_⟩
    · rcases List.mem_append.1 hv with hv | hv
      · exact h.within v hv
      · obtain rfl := List.mem_singleton.1 hv
        exact le_rfl
    · rcases List.mem_append.1 hv with hv | hv
      · exact h.settled v hv hr
      · obtain rfl := List.mem_singleton.1 hv
        cases hr
  follows hq := balances_body hq [] ⟨le_rfl, fun _ => le_rfl⟩
  sound {w vs i q log c r a w'} h hn hg hc hs := by
    refine ⟨h.step hn hg hc hs, ?_⟩
    cases c with
    | putInvoice i =>
        rcases step_putInvoice hs with ⟨x, _, rfl, _⟩ | ⟨_, rfl, _⟩ <;> simp [admits]
    | _ => trivial
  leave {w vs i q log o} h hn hp := by
    have hsum := sum_set (f := fun v : InProgress => marks anyInvoice id v.log) hn ⟨q, log, some o⟩
    have hsum : ((vs.set i ⟨q, log, some o⟩).map fun v : InProgress => marks anyInvoice id v.log).sum =
        (vs.map fun v => marks anyInvoice id v.log).sum := Nat.add_right_cancel hsum
    refine ⟨by rw [hsum]; exact h.once, by rw [hsum]; exact h.paid, fun v hv => ?_, fun v hv hr => ?_⟩
    · rcases List.mem_or_eq_of_mem_set hv with hv | rfl
      · exact h.within v hv
      · exact h.within ⟨q, log, none⟩ (List.mem_of_getElem? hn)
    · rcases List.mem_or_eq_of_mem_set hv with hv | rfl
      · exact h.settled v hv hr
      · exact hp

/-- As long as no call writes the invoice after another one has marked it as
paid, it stays paid, with its transaction and payer, and the subscription that
it buys is begun or renewed at most once: once, by a call that marked it and in
which nothing was raised. -/
theorem invoice_takes_effect_once (g : Gateway) (id : String) {w : World} {c : Pool}
    (h : Reachable g Confirms (Unpaid id) w c) :
    (∀ d, Leads (body g) World.step Confirms (Unpaid id) c d → ∀ i, c.world.store.invoice id = some i →
      i.status = .paid → d.world.store.invoice id = some i) ∧
    begunBy id c.views ≤ 1 ∧
    ∀ v ∈ c.views, v.result.isSome = true → Clean v.log → ∀ i x, ⟨.putInvoice i, .ok x⟩ ∈ v.log → i.id = id →
      i.status = .paid → buysPlan g i = true → begunBy id c.views = 1 := by
  have hinv : Inv g id c.world c.views := by
    refine (protocol g id).invariant (w := w) ⟨Nat.zero_le 1, fun hp => ?_, fun _ hv => ?_, fun _ hv => ?_⟩ h
    · exact absurd hp (lt_irrefl 0)
    · cases hv
    · cases hv
  have hle : begunBy id c.views ≤ 1 := (List.sum_le_sum hinv.within).trans hinv.once
  refine ⟨fun d hd i hi hp => ?_, hle, fun v hv hr hl i x hm hid hp hb => ?_⟩
  · have hstep {w₁ vs v k r a w₂} (hc : Unpaid id w₁ vs v k r) (hs : World.step w₁ k r = some (a, w₂))
        (hw : w₁.store.invoice id = some i) : w₂.store.invoice id = some i := by
      rw [← hw]
      exact invoice_step hc hs (by simp [isPaid, hw, hp])
    exact hd.world hstep hi
  · have hmark : 0 < marks (buysPlan g) id v.log :=
      List.countP_pos_iff.2 ⟨_, hm, by simp [isMark, hid, hp, hb]⟩
    have hbegun : begins id v.log ≤ begunBy id c.views :=
      List.single_le_sum (fun _ _ => Nat.zero_le _) _ (List.mem_map.2 ⟨v, hv, rfl⟩)
    have := (hinv.settled v hv hr).clean hl
    omega

def shop : Gateway := { catalog := defaultCatalog, destination := "GDEST" }

def order : Invoice where
  id := "cz1"
  account := "A"
  sku := "starter"
  tokens := 4000000
  price := .usd 19
  asset := "XLM"
  amount := "190.0000000"
  destination := "GDEST"
  createdAt := 0
  expiresAt := 10
  kind := "plan"

def ordered : World := { store := { invoices := [order] } }

def paidBy (txHash : String) : Reply := .payment (some ⟨txHash, "GPAYER", "GDEST", "XLM", "190.0000000", "cz1", 1⟩)

def delivers (i : Nat) (entryId : String) (now : Datetime) : List (Event Request Reply) :=
  [.step i (.text entryId), .step i (.time now), .step i .done, .step i (.time now), .step i .done, .step i .done,
    .finish i]

def confirmedAgain : List (Event Request Reply) :=
  ([.start (.confirm "cz1"), .step 0 .done, .step 0 (paidBy "t"), .step 0 .done] : List (Event Request Reply)) ++
    delivers 0 "e" 2 ++ ([.start (.confirm "cz1"), .step 1 .done, .finish 1] : List (Event Request Reply))

theorem invoice_takes_effect_once_again : ∃ c, Reachable shop Confirms (Unpaid "cz1") ordered c ∧
    isPaid c.world.store "cz1" = true ∧ begunBy "cz1" c.views = 1 ∧ begunBy "cz1" c.views ≤ 1 := by
  have hrun : (run (body shop) World.step Confirms (Unpaid "cz1") ⟨ordered, []⟩ confirmedAgain).any (fun c =>
      isPaid c.world.store "cz1" && begunBy "cz1" c.views == 1) = true := by decide +kernel
  obtain ⟨c, hc, hp⟩ := reaches_of_run hrun
  rw [Bool.and_eq_true, beq_iff_eq] at hp
  exact ⟨c, hc, hp.1, hp.2, (invoice_takes_effect_once shop "cz1" hc).2.1⟩

def confirmedTwice : List (Event Request Reply) :=
  ([.start (.confirm "cz1"), .start (.confirm "cz1"), .step 0 .done, .step 1 .done, .step 0 (paidBy "t"),
    .step 1 (paidBy "t"), .step 0 .done, .step 1 .done] : List (Event Request Reply)) ++ delivers 0 "e" 2 ++
    delivers 1 "f" 5

def expiredLate : List (Event Request Reply) :=
  [.start (.confirm "cz1"), .start (.confirm "cz1"), .step 0 .done, .step 0 (.payment none), .step 1 .done,
    .step 1 (paidBy "t"), .step 1 .done]

theorem invoice_takes_effect_twice :
    (∃ c, Reachable shop Confirms anyStep ordered c ∧ begunBy "cz1" c.views = 2 ∧
      (c.world.store.subscription "A").map Subscription.renewsAt = some (5 + MONTH)) ∧
    ∃ c d i, Reachable shop Confirms anyStep ordered c ∧ Leads (body shop) World.step Confirms anyStep c d ∧
      c.world.store.invoice "cz1" = some i ∧ i.status = .paid ∧ d.world.store.invoice "cz1" ≠ some i := by
  constructor
  · have hrun : (run (body shop) World.step Confirms anyStep ⟨ordered, []⟩ confirmedTwice).any (fun c =>
        begunBy "cz1" c.views == 2 &&
          decide ((c.world.store.subscription "A").map Subscription.renewsAt = some (5 + MONTH))) = true := by
      decide +kernel
    obtain ⟨c, hc, hp⟩ := reaches_of_run hrun
    rw [Bool.and_eq_true, beq_iff_eq, decide_eq_true_eq] at hp
    exact ⟨c, hc, hp⟩
  · have hrun : (run (body shop) World.step Confirms anyStep ⟨ordered, []⟩ expiredLate).any (fun c =>
        isPaid c.world.store "cz1" && (run (body shop) World.step Confirms anyStep c
          [.step 0 (.time 20), .step 0 .done]).any fun d => !isPaid d.world.store "cz1") = true := by
      decide +kernel
    obtain ⟨c, hc, hp⟩ := reaches_of_run hrun
    rw [Bool.and_eq_true] at hp
    obtain ⟨i, hi, hpaid⟩ := (Option.any_eq_true _ _).1 hp.1
    obtain ⟨d, hd, hunpaid⟩ := (Option.any_eq_true _ _).1 hp.2
    refine ⟨c, d, i, hc, Leads.refl.run hd, hi, of_decide_eq_true hpaid, fun hsame => ?_⟩
    rw [isPaid, hsame, Option.any_some, hpaid] at hunpaid
    cases hunpaid

end CodeZard.Confirmations
