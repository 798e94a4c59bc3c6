import CodeZard.Sales

namespace CodeZard.Deliveries

open Amounts Products Ledgers Invoices Storage Ports Interleaving Requests Sales

def Delivered (s : Store) (i : Invoice) : Prop :=
  ∃ e ∈ s.ledger, e.kind.isCredit = true ∧ e.tokens = i.tokens ∧
    (e.reference = .invoice i.id ∨ e.reference = .x402 i.txHash)

def Busy (v : InProgress) (id : String) : Prop := v.result = none ∧ ∃ a, ⟨.invoice id, a⟩ ∈ v.log

def PaidDelivered (c : Pool) : Prop :=
  ∀ id i, c.world.store.invoice id = some i → i.status = .paid → (∀ v ∈ c.views, ¬ Busy v id) →
    Delivered c.world.store i

/-- When writing `PAID` and crediting are sure to go together: `confirm` marks
only what the catalog sells, nothing on sale has a negative number of tokens,
and the store takes the credit, whose transaction has not bought another amount. -/
def Honours (g : Gateway) : Rule := fun w _ v c r =>
  match c with
  | .putInvoice i => i.status = .paid → 0 ≤ i.tokens ∧ (role v.request = .confirming → sold g i = true)
  | .append e => r = .done ∧ ∀ x ∈ w.store.ledger,
      x.id ≠ e.id ∧ (x.reference = e.reference → x.tokens = e.tokens)
  | _ => True

instance (g : Gateway) (w : World) (vs : List InProgress) (v : InProgress) (c : Call) (r : Reply) :
    Decidable (Honours g w vs v c r) := by rcases c <;> dsimp only [Honours] <;> infer_instance

/-- Whoever marked an invoice as paid and has not credited it yet will do so. -/
structure Inv (g : Gateway) (w : World) (vs : List InProgress) : Prop extends Consistent w vs where
  debts : ∀ v ∈ vs, ∀ i, debt v.log = some i → v.result = none ∧ 0 ≤ i.tokens ∧
    (role v.request = .confirming → sold g i = true)
  credits : ∀ e ∈ w.store.ledger, e.kind.isCredit = true
  paid : ∀ id j, w.store.invoice id = some j → j.status = .paid → Delivered w.store j ∨
    ∃ v ∈ vs, ∃ i, debt v.log = some i ∧ i.id = id ∧ (role v.request = .confirming ∨ i.txHash = j.txHash)

section Steps

variable {g : Gateway} {w w' : World} {vs : List InProgress} {n : Nat} {q : Request} {log : BillingLog}

theorem inv_init (t : Datetime) : Inv g ⟨{}, t⟩ [] := by
  refine ⟨consistent_init _, ?_, ?_, ?_⟩ <;> simp [Store.invoice]

theorem Inv.arrive (h : Inv g w vs) (q : Request) : Inv g w (vs ++ [⟨q, [], none⟩]) where
  toConsistent := h.toConsistent.arrive q
  debts v hv i hi := by
    rcases List.mem_append.1 hv with hv | hv
    · exact h.debts v hv i hi
    · obtain rfl := List.mem_singleton.1 hv
      cases hi
  credits := h.credits
  paid id j hj hp := (h.paid id j hj hp).imp_right fun ⟨v, hv, hd⟩ => ⟨v, List.mem_append_left _ hv, hd⟩

theorem Inv.clear (h : Inv g w vs) (hn : vs[n]? = some ⟨q, log, none⟩) (hc : Clear g q log) :
    debt log = none := by
  cases hd : debt log with
  | none => rfl
  | some i =>
      obtain ⟨_, ht, hs⟩ := h.debts _ (List.mem_of_getElem? hn) i hd
      rcases hc i hd with hi | ⟨hr, hi⟩
      · omega
      · simp [hs hr] at hi

theorem Inv.leave (h : Inv g w vs) (hn : vs[n]? = some ⟨q, log, none⟩) (hc : Clear g q log)
    (o : Except Error Outcome) : Inv g w (vs.set n ⟨q, log, some o⟩) where
  toConsistent := h.toConsistent.leave hn o
  debts v hv i hi := by
    rcases List.mem_or_eq_of_mem_set hv with hv | rfl
    · exact h.debts v hv i hi
    · simp [h.clear hn hc] at hi
  credits := h.credits
  paid id j hj hp := (h.paid id j hj hp).imp_right fun ⟨v, hv, i, hi, hd⟩ => by
    rcases mem_set_or_eq hn hv ⟨q, log, some o⟩ with hv | rfl
    · exact ⟨v, hv, i, hi, hd⟩
    · simp [h.clear hn hc] at hi

theorem Inv.observe (h : Inv g w vs) (hn : vs[n]? = some ⟨q, log, none⟩)
    (hi : w'.store.invoices = w.store.invoices) (hl : w'.store.ledger = w.store.ledger) {c : Call}
    {a : Except Error c.Answer} (ht : Consistent w' (vs.set n ⟨q, ⟨c, a⟩ :: log, none⟩))
    (hd : debt (⟨c, a⟩ :: log) = debt log) : Inv g w' (vs.set n ⟨q, ⟨c, a⟩ :: log, none⟩) := by
  have hw (id : String) : w'.store.invoice id = w.store.invoice id := congrArg (Tables.row Invoice.id id) hi
  have hdel (i : Invoice) : Delivered w'.store i ↔ Delivered w.store i := by rw [Delivered, hl]; rfl
  refine ⟨ht, fun v hv i hi => ?_, hl ▸ h.credits, fun id j hj hp => ?_⟩
  · rcases List.mem_or_eq_of_mem_set hv with hv | rfl
    · exact h.debts v hv i hi
    · exact h.debts _ (List.mem_of_getElem? hn) i (hd ▸ hi)
  · rw [hdel]
    refine (h.paid id j (hw id ▸ hj) hp).imp_right fun ⟨v, hv, i, hi, ht⟩ => ?_
    rcases mem_set_or_eq hn hv ⟨q, ⟨c, a⟩ :: log, none⟩ with hv | rfl
    · exact ⟨v, hv, i, hi, ht⟩
    · exact ⟨_, mem_set_self hn _, i, hd ▸ hi, ht⟩

theorem Inv.put (h : Inv g w vs) (hn : vs[n]? = some ⟨q, log, none⟩) {i : Invoice} {r : Reply}
    (hg : guard g q log (.putInvoice i)) (hc : Honours g w vs ⟨q, log, none⟩ (.putInvoice i) r)
    (ht : Consistent { w with store := w.store.putInvoice i } (vs.set n ⟨q, ⟨.putInvoice i, .ok i⟩ :: log, none⟩)) :
    Inv g { w with store := w.store.putInvoice i } (vs.set n ⟨q, ⟨.putInvoice i, .ok i⟩ :: log, none⟩) where
  toConsistent := ht
  debts v hv k hk := by
    rcases List.mem_or_eq_of_mem_set hv with hv | rfl
    · exact h.debts v hv k hk
    · by_cases hp : i.status = .paid
      · obtain rfl : i = k := by simpa [debt, hp] using hk
        exact ⟨rfl, hc hp⟩
      · simp [debt, hp] at hk
  credits := h.credits
  paid id j hj hp := by
    by_cases hid : i.id = id
    · subst hid
      obtain ⟨hst, ht⟩ := Store.putInvoice_settled hj
      refine .inr ⟨_, mem_set_self hn _, i, ?_, rfl, .inr ht.symm⟩
      simp [debt, ← hst, hp]
    · rw [Store.invoice_putInvoice_of_ne hid] at hj
      apply (h.paid id j hj hp).imp_right
      rintro ⟨v, hv, k, hk, ht⟩
      rcases mem_set_or_eq hn hv ⟨q, ⟨.putInvoice i, .ok i⟩ :: log, none⟩ with hv | rfl
      · exact ⟨v, hv, k, hk, ht⟩
      · rw [hg.1] at hk
        cases hk

theorem Delivered.append {s : Store} {i : Invoice} (h : Delivered s i) (e : LedgerEntry) :
    Delivered (s.append e).2 i := by
  obtain ⟨x, hx, hd⟩ := h
  exact ⟨x, (s.ledger_prefix_append e).subset hx, hd⟩

theorem isCredit_of_credits {i : Invoice} {e : LedgerEntry} (h : Credits g q i e) : e.kind.isCredit = true := by
  unfold Credits at h
  split at h
  · exact h.1
  · rw [h.1]; rfl
  · exact absurd h id

/-- The reference of a credit names the invoice or, unless `confirm` wrote it,
the transaction that the invoice was marked with. -/
theorem reference_of_credits {i j : Invoice} {e : LedgerEntry} (h : Credits g q i e) (hid : j.id = i.id)
    (ht : role q = .confirming ∨ i.txHash = j.txHash) :
    e.reference = .invoice j.id ∨ e.reference = .x402 j.txHash := by
  unfold Credits at h
  split at h
  · exact .inl (by rw [h.2.1, hid])
  · exact .inr (by rw [h.2, ht.resolve_left (by simp_all)])
  · exact absurd h id

theorem Inv.credit (h : Inv g w vs) (hn : vs[n]? = some ⟨q, log, none⟩) {e : LedgerEntry}
    (hg : guard g q log (.append e)) (hid : ∀ x ∈ w.store.ledger, x.id ≠ e.id)
    (hsame : ∀ x ∈ w.store.ledger, x.reference = e.reference → x.tokens = e.tokens) {a : Except Error LedgerEntry}
    (ht : Consistent { w with store := (w.store.append e).2 } (vs.set n ⟨q, ⟨.append e, a⟩ :: log, none⟩)) :
    Inv g { w with store := (w.store.append e).2 } (vs.set n ⟨q, ⟨.append e, a⟩ :: log, none⟩) := by
  obtain ⟨i, hi, het, hcr⟩ := hg
  obtain ⟨_, j, hj, hij⟩ := h.owed _ (List.mem_of_getElem? hn) i hi
  refine ⟨ht, fun v hv k hd => ?_, fun x hx => ?_, fun id k hk hp => ?_⟩
  · rcases List.mem_or_eq_of_mem_set hv with hv | rfl
    · exact h.debts v hv k hd
    · cases hd
  · rcases Store.mem_append_ledger hx with hx | rfl
    · exact h.credits x hx
    · exact isCredit_of_credits hcr
  · simp only [Store.invoice_append] at hk
    rcases h.paid id k hk hp with hdel | ⟨v, hv, i', hi', hid', hv'⟩
    · exact .inl (hdel.append e)
    rcases mem_set_or_eq hn hv ⟨q, ⟨.append e, a⟩ :: log, none⟩ with hv | rfl
    · exact .inr ⟨v, hv, i', hi', hid', hv'⟩
    obtain rfl : i = i' := Option.some.inj (hi.symm.trans hi')
    obtain rfl : j = k := by
      rw [hid', hk] at hj
      exact (Option.some.inj hj).symm
    have hje : e.tokens = j.tokens := het.trans hij.tokens_eq.symm
    obtain ⟨x, hx, _, hxr, hold⟩ := Store.append_fresh hid
    refine .inl ⟨x, hx, ?_, ?_, ?_⟩
    · rcases hold with hold | rfl
      · exact h.credits x hold
      · exact isCredit_of_credits hcr
    · rcases hold with hold | rfl
      · exact (hsame x hold hxr).trans hje
      · exact hje
    · rw [hxr]
      exact reference_of_credits hcr hij.id_eq hv'

theorem Inv.step (h : Inv g w vs) (hn : vs[n]? = some ⟨q, log, none⟩) {c : Call} (hg : guard g q log c) {r : Reply}
    (hc : Honours g w vs ⟨q, log, none⟩ c r) {a : Except Error c.Answer} (hs : w.step c r = some (a, w')) :
    Inv g w' (vs.set n ⟨q, ⟨c, a⟩ :: log, none⟩) := by
  have ht := h.toConsistent.step hn hg hs
  have hread (hc : c.reads = true) (hd : debt (⟨c, a⟩ :: log) = debt log) :
      Inv g w' (vs.set n ⟨q, ⟨c, a⟩ :: log, none⟩) :=
    h.observe hn (by rw [step_reads hs hc]) (by rw [step_reads hs hc]) ht hd
  cases c with
  | now | entryId => exact hread rfl rfl
  | putInvoice i =>
      rcases step_putInvoice hs with ⟨x, _, rfl, rfl⟩ | ⟨_, rfl, rfl⟩
      · exact h.observe hn rfl rfl ht hg.1.symm
      · exact h.put hn hg hc ht
  | append e =>
      obtain ⟨rfl, hc⟩ := hc
      rcases step_append hs with ⟨x, hx, _⟩ | ⟨_, rfl, rfl⟩
      · cases hx
      · exact h.credit hn hg (fun x hx => (hc x hx).1) (fun x hx => (hc x hx).2) ht
  | putSubscription s =>
      refine h.observe hn ?_ ?_ ht (h.clear hn hg).symm <;>
        rcases step_putSubscription hs with ⟨x, _, _, rfl⟩ | ⟨_, _, rfl⟩ <;> rfl
  | verify => exact hread rfl (h.clear hn hg.1).symm
  | newInvoiceId | allEntries | invoice | openInvoices | subscription | paymentFor | quote | settle | onChain =>
      exact hread rfl (h.clear hn hg).symm

end Steps

def protocol (g : Gateway) : Protocol (body g) World.step Sells (Honours g) where
  inv := Inv g
  guard := guard g
  admits _ := admits
  post := post g
  arrive _ h := h.arrive _
  follows hq := follows hq
  sound h hn hg hc hs := ⟨h.step hn hg hc hs, admits_step hs⟩
  leave h hn hp := h.leave hn hp.1 _

/-- In every run that honours payments, a paid invoice that no call is working
on has been credited. -/
theorem paid_delivered {g : Gateway} {t : Datetime} {c : Pool}
    (h : Reachable g Sells (Honours g) ⟨{}, t⟩ c) : PaidDelivered c := by
  intro id i hi hp hb
  have hinv : Inv g c.world c.views := (protocol g).invariant (inv_init t) h
  rcases hinv.paid id i hi hp with hd | ⟨v, hv, k, hk, hid, _⟩
  · exact hd
  · exact absurd ⟨(hinv.debts v hv k hk).1, hid ▸ (hinv.owed v hv k hk).1⟩ (hb v hv)

def shop : Gateway := { catalog := defaultCatalog, destination := "GDEST", price := ⟨500000⟩ }

def packSold : List (Event Request Reply) := [
  .start (.checkout "A" "tokens-1m" ""), .step 0 (.time 0), .step 0 (.text "cz1"), .step 0 (.text "80.0000000"),
  .step 0 .done, .finish 0,
  .start (.confirm "cz1"), .step 1 .done,
  .step 1 (.payment (some ⟨"t1", "GPAYER", "GDEST", "XLM", "80.0000000", "cz1", 1⟩)), .step 1 .done,
  .step 1 (.text "e1"), .step 1 (.time 2), .step 1 .done, .finish 1]

theorem paid_delivered_pack : ∃ c, Reachable shop Sells (Honours shop) ⟨{}, 0⟩ c ∧
    (c.world.store.invoice "cz1").any (fun i => i.status = .paid) = true ∧ PaidDelivered c := by
  have hr : (run (body shop) World.step Sells (Honours shop) ⟨⟨{}, 0⟩, []⟩ packSold).any (fun c =>
      (c.world.store.invoice "cz1").any fun i => i.status = .paid) = true := by decide +kernel
  obtain ⟨c, h, hp⟩ := reaches_of_run hr
  exact ⟨c, h, hp, paid_delivered h⟩

/-- A quote is answered by a plain payment with its memo, which `confirm` takes
for it. The invoice is marked before the catalog is asked for a sku it does not
sell, so the call raises and nothing is credited. -/
def quotePaidPlainly : List (Event Request Reply) := [
  .start (.requirements "GPAYER" "" none), .step 0 (.time 0), .step 0 (.text "cz1"),
  .step 0 (.text "5.0000000"), .step 0 .done, .finish 0,
  .start (.confirm "cz1"), .step 1 .done,
  .step 1 (.payment (some ⟨"t1", "GPAYER", "GDEST", "XLM", "5.0000000", "cz1", 1⟩)), .step 1 .done,
  .finish 1]

theorem quote_paid_undelivered : ∃ c, Reachable shop Sells anyStep ⟨{}, 0⟩ c ∧
    run (body shop) World.step Sells anyStep ⟨⟨{}, 0⟩, []⟩ quotePaidPlainly = some c ∧ ¬ PaidDelivered c := by
  have h : (run (body shop) World.step Sells anyStep ⟨⟨{}, 0⟩, []⟩ quotePaidPlainly).any (fun c =>
      (c.world.store.invoice "cz1").any (fun i => i.status = .paid) && c.world.store.ledger = [] &&
        c.views.all (fun v => v.result.isSome)) = true := by decide +kernel
  obtain ⟨c, hr, hc⟩ := (Option.any_eq_true _ _).1 h
  simp only [Bool.and_eq_true, decide_eq_true_eq, List.all_eq_true] at hc
  obtain ⟨⟨hi, hl⟩, hv⟩ := hc
  obtain ⟨i, hi, hp⟩ := (Option.any_eq_true _ _).1 hi
  refine ⟨c, Reaches.init.run hr, hr, fun hd => ?_⟩
  obtain ⟨e, he, _⟩ := hd "cz1" i hi (by simpa using hp) fun v hm hb => by
    have := hv v hm
    simp [hb.1] at this
  simp [hl] at he

end CodeZard.Deliveries
