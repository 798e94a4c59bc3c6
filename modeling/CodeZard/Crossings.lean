import CodeZard.Sales

namespace CodeZard.Crossings

open Amounts Products Ledgers Invoices Storage Ports Interleaving Requests Sales

def Settles (q : Request) : Prop := role q = .confirming ∨ role q = .redeeming

instance : DecidablePred Settles := fun _ => inferInstanceAs (Decidable (_ ∨ _))

theorem sells_of_settles {q : Request} (h : Settles q) : Sells q := by
  unfold Sells
  rcases h with h | h <;> simp [h]

/-- The credits written on account of one payment of one invoice. -/
def bought (id tx : String) (s : Store) : List LedgerEntry :=
  s.ledger.filter fun e => e.reference = .invoice id || e.reference = .x402 tx

/-- A `confirm` that saw the invoice unpaid and has not written it yet. -/
def looks (id : String) (v : InProgress) : Bool :=
  v.result.isNone && role v.request = .confirming &&
    (found v.log).any fun p => p.1.id = id && p.1.status ≠ .paid

/-- A `settle` that saw the invoice pending after its transaction went through
and has not written it yet. -/
def settling (id : String) (v : InProgress) : Bool :=
  v.result.isNone && role v.request = .redeeming &&
    (found v.log).any fun p => p.1.id = id && p.1.status = .pending && !(submissions p.2).isEmpty

/-- One transaction carries the memo of the invoice: it is what the ledger
reports for the invoice and for no other, and the only payment to be found. -/
def OneTransaction (id tx : String) : Rule := fun _ _ v c r =>
  match c, r with
  | .settle _, .settled s => s.success = true → (s.transaction = tx ↔ names v.request = id)
  | .paymentFor i, .payment (some p) => i.id = id → p.txHash = tx
  | _, _ => True

/-- As far as the catalog sells what the invoice is for, the two ways to settle
it do not cross: neither looks at it between the other's look and its write. -/
def Apart (g : Gateway) (id : String) : Rule := fun w vs v c r =>
  match c, r with
  | .invoice id', .done => id' = id → ∀ i ∈ w.store.invoice id, sold g i = true →
      (role v.request = .confirming → i.status ≠ .paid → ∀ u ∈ vs, settling id u = false) ∧
      (role v.request = .redeeming → i.status = .pending → submissions v.log ≠ [] →
        ∀ u ∈ vs, looks id u = false)
  | _, _ => True

section Decisions

variable (g : Gateway) (id tx : String) (w : World) (vs : List InProgress) (v : InProgress) (c : Call) (r : Reply)

instance : Decidable (OneTransaction id tx w vs v c r) := by
  rcases c <;> rcases r with _ | _ | _ | _ | (_ | _) <;> dsimp only [OneTransaction] <;> infer_instance

instance : Decidable (Apart g id w vs v c r) := by
  rcases c <;> rcases r <;> dsimp only [Apart] <;> first | exact instDecidableForall | infer_instance

end Decisions

section Windows

variable {id : String} {q : Request} {log : BillingLog} {x : (c : Call) × Except Error c.Answer}

theorem looks_iff : looks id ⟨q, log, none⟩ = true ↔ role q = .confirming ∧
    ∃ k before, found log = some (k, before) ∧ k.id = id ∧ k.status ≠ .paid := by
  simp [looks, Option.any_eq_true]

theorem settling_iff : settling id ⟨q, log, none⟩ = true ↔ role q = .redeeming ∧
    ∃ k before, found log = some (k, before) ∧ k.id = id ∧ k.status = .pending ∧ submissions before ≠ [] := by
  simp [settling, Option.any_eq_true, and_assoc]

theorem looks_cons (h : looks id ⟨q, x :: log, none⟩ = true) : looks id ⟨q, log, none⟩ = true ∨
    (role q = .confirming ∧ ∃ id' k, x = ⟨.invoice id', .ok (some k)⟩ ∧ k.id = id ∧ k.status ≠ .paid) := by
  obtain ⟨hq, k, before, hf, hid, hp⟩ := looks_iff.1 h
  rcases found_cons hf with hf | ⟨_, id', hx⟩
  · exact .inl (looks_iff.2 ⟨hq, k, before, hf, hid, hp⟩)
  · exact .inr ⟨hq, id', k, hx, hid, hp⟩

theorem settling_cons (h : settling id ⟨q, x :: log, none⟩ = true) : settling id ⟨q, log, none⟩ = true ∨
    (role q = .redeeming ∧ submissions log ≠ [] ∧
      ∃ id' k, x = ⟨.invoice id', .ok (some k)⟩ ∧ k.id = id ∧ k.status = .pending) := by
  obtain ⟨hq, k, before, hf, hid, hp, hs⟩ := settling_iff.1 h
  rcases found_cons hf with hf | ⟨rfl, id', hx⟩
  · exact .inl (settling_iff.2 ⟨hq, k, before, hf, hid, hp, hs⟩)
  · exact .inr ⟨hq, hs, id', k, hx, hid, hp⟩

end Windows

/-- The credit of the transaction is there, or on its way. -/
def Settled (tx : String) (w : World) (vs : List InProgress) : Prop :=
  (∃ e ∈ w.store.ledger, e.reference = .x402 tx) ∨ ∃ v ∈ vs, v.result = none ∧
    role v.request = .redeeming ∧ ∃ i, debt v.log = some i ∧ i.txHash = tx

def Confirmed (id : String) (w : World) (vs : List InProgress) : Prop :=
  (∃ e ∈ w.store.ledger, e.reference = .invoice id) ∨ ∃ v ∈ vs, v.result = none ∧
    role v.request = .confirming ∧ ∃ i, debt v.log = some i ∧ i.id = id

structure Excludes (id tx : String) (w : World) (vs : List InProgress) : Prop where
  apart : ¬ ((∃ v ∈ vs, looks id v = true) ∧ ∃ v ∈ vs, settling id v = true)
  settled : Settled tx w vs → (∀ i, w.store.invoice id = some i → i.status = .paid) ∧
    ¬ ∃ v ∈ vs, looks id v = true
  confirmed : Confirmed id w vs → (∀ i, w.store.invoice id = some i → i.status ≠ .pending) ∧
    ¬ ∃ v ∈ vs, settling id v = true
  once : ¬ (Settled tx w vs ∧ Confirmed id w vs)

def Sold (g : Gateway) (id : String) (w : World) : Prop := ∃ i, w.store.invoice id = some i ∧ sold g i = true

/-- As long as the two ways do not cross, only one of them gets to credit. -/
structure Inv (g : Gateway) (id tx : String) (w : World) (vs : List InProgress) : Prop
    extends Consistent w vs where
  requests : ∀ v ∈ vs, Settles v.request
  honest : ∀ v ∈ vs, ∀ r ∈ submissions v.log, r.transaction = tx → names v.request = id
  excludes : Sold g id w → Excludes id tx w vs
  unsold : ¬ Sold g id w → ∀ e ∈ w.store.ledger, e.reference ≠ .invoice id
  single : (bought id tx w.store).length ≤ 1

section Steps

variable {g : Gateway} {id tx : String} {w w' : World} {vs vs' : List InProgress} {n : Nat} {q : Request}
  {log : BillingLog} {x : (c : Call) × Except Error c.Answer}

theorem Excludes.mono (h : Excludes id tx w vs)
    (hl : (∃ v ∈ vs', looks id v = true) → ∃ v ∈ vs, looks id v = true)
    (hs : (∃ v ∈ vs', settling id v = true) → ∃ v ∈ vs, settling id v = true)
    (hS : Settled tx w' vs' → Settled tx w vs) (hC : Confirmed id w' vs' → Confirmed id w vs)
    (hi : w'.store.invoice id = w.store.invoice id) : Excludes id tx w' vs' where
  apart hb := h.apart ⟨hl hb.1, hs hb.2⟩
  settled hb := ⟨hi ▸ (h.settled (hS hb)).1, fun hb' => (h.settled (hS hb)).2 (hl hb')⟩
  confirmed hb := ⟨hi ▸ (h.confirmed (hC hb)).1, fun hb' => (h.confirmed (hC hb)).2 (hs hb')⟩
  once hb := h.once ⟨hS hb.1, hC hb.2⟩

theorem looks_set (hn : vs[n]? = some ⟨q, log, none⟩) (h : ∃ v ∈ vs.set n ⟨q, x :: log, none⟩, looks id v = true) :
    (∃ v ∈ vs, looks id v = true) ∨
      (role q = .confirming ∧ ∃ id' k, x = ⟨.invoice id', .ok (some k)⟩ ∧ k.id = id ∧ k.status ≠ .paid) := by
  rcases exists_of_set h with h | h
  · exact (looks_cons h).imp_left fun h => ⟨_, List.mem_of_getElem? hn, h⟩
  · exact .inl h

theorem settling_set (hn : vs[n]? = some ⟨q, log, none⟩)
    (h : ∃ v ∈ vs.set n ⟨q, x :: log, none⟩, settling id v = true) : (∃ v ∈ vs, settling id v = true) ∨
      (role q = .redeeming ∧ submissions log ≠ [] ∧
        ∃ id' k, x = ⟨.invoice id', .ok (some k)⟩ ∧ k.id = id ∧ k.status = .pending) := by
  rcases exists_of_set h with h | h
  · exact (settling_cons h).imp_left fun h => ⟨_, List.mem_of_getElem? hn, h⟩
  · exact .inl h

theorem settled_set (hn : vs[n]? = some ⟨q, log, none⟩) (h : Settled tx w' (vs.set n ⟨q, x :: log, none⟩))
    (hl : ∀ e ∈ w'.store.ledger, e.reference = .x402 tx → Settled tx w vs) :
    Settled tx w vs ∨ (role q = .redeeming ∧ ∃ i a, x = ⟨.putInvoice i, .ok a⟩ ∧ i.txHash = tx) := by
  rcases h with ⟨e, he, hr⟩ | h
  · exact .inl (hl e he hr)
  rcases exists_of_set h with ⟨_, hq, i, hi, ht⟩ | h
  · rcases debt_cons hi with hi | ⟨_, a, hx⟩
    · exact .inl (.inr ⟨_, List.mem_of_getElem? hn, rfl, hq, i, hi, ht⟩)
    · exact .inr ⟨hq, i, a, hx, ht⟩
  · exact .inl (.inr h)

theorem confirmed_set (hn : vs[n]? = some ⟨q, log, none⟩) (h : Confirmed id w' (vs.set n ⟨q, x :: log, none⟩))
    (hl : ∀ e ∈ w'.store.ledger, e.reference = .invoice id → Confirmed id w vs) :
    Confirmed id w vs ∨ (role q = .confirming ∧ ∃ i a, x = ⟨.putInvoice i, .ok a⟩ ∧ i.id = id) := by
  rcases h with ⟨e, he, hr⟩ | h
  · exact .inl (hl e he hr)
  rcases exists_of_set h with ⟨_, hq, i, hi, ht⟩ | h
  · rcases debt_cons hi with hi | ⟨_, a, hx⟩
    · exact .inl (.inr ⟨_, List.mem_of_getElem? hn, rfl, hq, i, hi, ht⟩)
    · exact .inr ⟨hq, i, a, hx, ht⟩
  · exact .inl (.inr h)

theorem Excludes.quiet (h : Excludes id tx w vs) (hn : vs[n]? = some ⟨q, log, none⟩)
    (hi : w'.store.invoice id = w.store.invoice id) (hl : w'.store.ledger = w.store.ledger)
    (hr : ∀ id' k, x = ⟨.invoice id', .ok (some k)⟩ → k.id ≠ id) (hp : ∀ i a, x ≠ ⟨.putInvoice i, .ok a⟩) :
    Excludes id tx w' (vs.set n ⟨q, x :: log, none⟩) := by
  refine h.mono (fun hw => ?_) (fun hw => ?_) (fun hS => ?_) (fun hC => ?_) hi
  · apply (looks_set hn hw).resolve_right
    rintro ⟨_, id', k, hx, hid, _⟩
    exact hr id' k hx hid
  · apply (settling_set hn hw).resolve_right
    rintro ⟨_, _, id', k, hx, hid, _⟩
    exact hr id' k hx hid
  · refine (settled_set hn hS fun e he hr => .inl ⟨e, hl ▸ he, hr⟩).resolve_right ?_
    rintro ⟨_, i, a, hx, _⟩
    exact hp i a hx
  · refine (confirmed_set hn hC fun e he hr => .inl ⟨e, hl ▸ he, hr⟩).resolve_right ?_
    rintro ⟨_, i, a, hx, _⟩
    exact hp i a hx

theorem Excludes.look (h : Excludes id tx w vs) (hn : vs[n]? = some ⟨q, log, none⟩) {k : Invoice}
    (hk : w.store.invoice id = some k)
    (hc : role q = .confirming → k.status ≠ .paid → ∀ u ∈ vs, settling id u = false)
    (hr : role q = .redeeming → k.status = .pending → submissions log ≠ [] → ∀ u ∈ vs, looks id u = false) :
    Excludes id tx w (vs.set n ⟨q, ⟨.invoice id, .ok (some k)⟩ :: log, none⟩) := by
  have hl (hw : ∃ v ∈ vs.set n ⟨q, ⟨.invoice id, .ok (some k)⟩ :: log, none⟩, looks id v = true) := looks_set hn hw
  have hs (hw : ∃ v ∈ vs.set n ⟨q, ⟨.invoice id, .ok (some k)⟩ :: log, none⟩, settling id v = true) :=
    settling_set hn hw
  have hS : Settled tx w (vs.set n ⟨q, ⟨.invoice id, .ok (some k)⟩ :: log, none⟩) → Settled tx w vs := fun hS => by
    simpa using settled_set hn hS fun e he hr => .inl ⟨e, he, hr⟩
  have hC : Confirmed id w (vs.set n ⟨q, ⟨.invoice id, .ok (some k)⟩ :: log, none⟩) → Confirmed id w vs := fun hC => by
    simpa using confirmed_set hn hC fun e he hr => .inl ⟨e, he, hr⟩
  constructor
  · rintro ⟨hw, hw'⟩
    rcases hl hw with hw | ⟨hq, _, _, hx, _, hp⟩
    · rcases hs hw' with hw' | ⟨hq, hsub, _, _, hx, _, hp⟩
      · exact h.apart ⟨hw, hw'⟩
      · cases hx
        obtain ⟨u, hu, hlu⟩ := hw
        simp [hr hq hp hsub u hu] at hlu
    · cases hx
      rcases hs hw' with ⟨u, hu, hsu⟩ | ⟨hq', _⟩
      · simp [hc hq hp u hu] at hsu
      · rw [hq] at hq'
        cases hq'
  · intro hb
    obtain ⟨hst, hno⟩ := h.settled (hS hb)
    refine ⟨hst, fun hw => (hl hw).elim hno ?_⟩
    rintro ⟨_, _, _, hx, _, hp⟩
    cases hx
    exact hp (hst k hk)
  · intro hb
    obtain ⟨hst, hno⟩ := h.confirmed (hC hb)
    refine ⟨hst, fun hw => (hs hw).elim hno ?_⟩
    rintro ⟨_, _, _, _, hx, _, hp⟩
    cases hx
    exact hst k hk hp
  · exact fun hb => h.once ⟨hS hb.1, hC hb.2⟩

theorem Excludes.write (h : Excludes id tx w vs) (hn : vs[n]? = some ⟨q, log, none⟩) (hq : Settles q) {i : Invoice}
    (hi : Writes q log i) (hid : i.id = id) :
    Excludes id tx { w with store := w.store.putInvoice i } (vs.set n ⟨q, ⟨.putInvoice i, .ok i⟩ :: log, none⟩) := by
  subst hid
  have hl (hw : ∃ v ∈ vs.set n ⟨q, ⟨.putInvoice i, .ok i⟩ :: log, none⟩, looks i.id v = true) := looks_set hn hw
  have hs (hw : ∃ v ∈ vs.set n ⟨q, ⟨.putInvoice i, .ok i⟩ :: log, none⟩, settling i.id v = true) :=
    settling_set hn hw
  have hS (hS : Settled tx { w with store := w.store.putInvoice i }
      (vs.set n ⟨q, ⟨.putInvoice i, .ok i⟩ :: log, none⟩)) :=
    settled_set (w := w) hn hS fun e he hr => .inl ⟨e, he, hr⟩
  have hC (hC : Confirmed i.id { w with store := w.store.putInvoice i }
      (vs.set n ⟨q, ⟨.putInvoice i, .ok i⟩ :: log, none⟩)) :=
    confirmed_set (w := w) hn hC fun e he hr => .inl ⟨e, he, hr⟩
  simp only [Sigma.mk.injEq, reduceCtorEq, false_and, exists_false, and_false, or_false] at hl hs
  rcases hq with hq | hq
  · simp only [Writes, hq] at hi
    obtain ⟨k, before, hf, hk, hik⟩ := hi
    have hst : i.status ≠ .pending := by
      rcases hik with rfl | ⟨_, _, rfl⟩ <;> simp [Invoice.expired, Invoice.paid]
    have hki : k.id = i.id := by rcases hik with rfl | ⟨_, _, rfl⟩ <;> rfl
    have hw : ∃ v ∈ vs, looks i.id v = true :=
      ⟨_, List.mem_of_getElem? hn, looks_iff.2 ⟨hq, k, before, hf, hki, hk⟩⟩
    have hnS : ¬ Settled tx _ (vs.set n ⟨q, ⟨.putInvoice i, .ok i⟩ :: log, none⟩) := fun hb =>
      (hS hb).elim (fun hb => (h.settled hb).2 hw) fun hb => by simp [hq] at hb
    refine ⟨fun hb => h.apart ⟨hw, hs hb.2⟩, fun hb => absurd hb hnS, fun _ => ⟨fun j hj => ?_, ?_⟩,
      fun hb => hnS hb.1⟩
    · rw [(Store.putInvoice_settled hj).1]
      exact hst
    · exact fun hb => h.apart ⟨hw, hs hb⟩
  · simp only [Writes, hq] at hi
    obtain ⟨k, before, r, payer, hf, hk, _, hr, rfl⟩ := hi
    have hw : ∃ v ∈ vs, settling k.id v = true :=
      ⟨_, List.mem_of_getElem? hn, settling_iff.2 ⟨hq, k, before, hf, rfl, hk, List.ne_nil_of_mem hr⟩⟩
    have hnC : ¬ Confirmed k.id _ (vs.set n ⟨q, ⟨.putInvoice (k.paid r.transaction payer), .ok _⟩ :: log, none⟩) :=
      fun hb => (hC hb).elim (fun hb => (h.confirmed hb).2 hw) fun hb => by simp [hq] at hb
    refine ⟨fun hb => h.apart ⟨hl hb.1, hw⟩, fun _ => ⟨fun j hj => ?_, ?_⟩, fun hb => absurd hb hnC,
      fun hb => hnC hb.2⟩
    · exact (Store.putInvoice_settled hj).1
    · exact fun hb => h.apart ⟨hl hb, hw⟩

theorem Excludes.write_other (h : Excludes id tx w vs) (hn : vs[n]? = some ⟨q, log, none⟩) {i : Invoice}
    (hi : Writes q log i) (hh : ∀ r ∈ submissions log, r.transaction = tx → names q = id) (hid : i.id ≠ id) :
    Excludes id tx { w with store := w.store.putInvoice i } (vs.set n ⟨q, ⟨.putInvoice i, .ok i⟩ :: log, none⟩) := by
  refine h.mono (fun hw => ?_) (fun hw => ?_) (fun hS => ?_) (fun hC => ?_) (Store.invoice_putInvoice_of_ne hid)
  · simpa using looks_set hn hw
  · simpa using settling_set hn hw
  · refine (settled_set hn hS fun e he hr => .inl ⟨e, he, hr⟩).resolve_right ?_
    rintro ⟨hq, _, _, hx, ht⟩
    cases hx
    simp only [Writes, hq] at hi
    obtain ⟨k, before, r, payer, hf, _, hk, hr, rfl⟩ := hi
    exact hid (hk.trans (hh r (submissions_of_found hf hr) ht))
  · refine (confirmed_set hn hC fun e he hr => .inl ⟨e, he, hr⟩).resolve_right ?_
    rintro ⟨_, _, _, hx, hid'⟩
    cases hx
    exact hid hid'

theorem settled_of_credits {i : Invoice} (hn : vs[n]? = some ⟨q, log, none⟩) (hd : debt log = some i)
    {e : LedgerEntry} (hc : Credits g q i e) (hr : e.reference = .x402 tx) : Settled tx w vs := by
  unfold Credits at hc
  split at hc
  · simp [hc.2.1] at hr
  · exact .inr ⟨_, List.mem_of_getElem? hn, rfl, ‹_›, i, hd, by simpa [hc.2] using hr⟩
  · exact absurd hc (fun h => h)

theorem confirmed_of_credits {i : Invoice} (hn : vs[n]? = some ⟨q, log, none⟩) (hd : debt log = some i)
    {e : LedgerEntry} (hc : Credits g q i e) (hr : e.reference = .invoice id) :
    Confirmed id w vs ∧ i.id = id ∧ sold g i = true := by
  unfold Credits at hc
  split at hc
  · have hid : i.id = id := by simpa [hc.2.1] using hr
    exact ⟨.inr ⟨_, List.mem_of_getElem? hn, rfl, ‹_›, i, hd, hid⟩, hid, hc.2.2⟩
  · simp [hc.2] at hr
  · exact absurd hc (fun h => h)

theorem Excludes.credit (h : Excludes id tx w vs) (hn : vs[n]? = some ⟨q, log, none⟩) {i : Invoice}
    (hd : debt log = some i) {e : LedgerEntry} (hc : Credits g q i e) (a : Except Error LedgerEntry) :
    Excludes id tx { w with store := (w.store.append e).2 } (vs.set n ⟨q, ⟨.append e, a⟩ :: log, none⟩) := by
  refine h.mono (fun hw => ?_) (fun hw => ?_) (fun hS => ?_) (fun hC => ?_) (w.store.invoice_append e id)
  · simpa using looks_set hn hw
  · simpa using settling_set hn hw
  · refine (settled_set (w := w) hn hS fun x hx hr => ?_).resolve_right (by simp)
    rcases Store.mem_append_ledger hx with hx | rfl
    · exact .inl ⟨x, hx, hr⟩
    · exact settled_of_credits hn hd hc hr
  · refine (confirmed_set (w := w) hn hC fun x hx hr => ?_).resolve_right (by simp)
    rcases Store.mem_append_ledger hx with hx | rfl
    · exact .inl ⟨x, hx, hr⟩
    · exact (confirmed_of_credits hn hd hc hr).1

theorem sold_step (id : String) {c : Call} {r : Reply} {a : Except Error c.Answer} (h : Consistent w vs)
    (hn : vs[n]? = some ⟨q, log, none⟩) (hq : Settles q) (hg : guard g q log c)
    (hs : w.step c r = some (a, w')) : Sold g id w' ↔ Sold g id w := by
  constructor
  · rintro ⟨j, hj, hsj⟩
    suffices hold : ∃ k, w.store.invoice id = some k by
      obtain ⟨k, hk⟩ := hold
      obtain ⟨j', hj', hkj⟩ := stored_step hs hk
      obtain rfl : j' = j := Option.some.inj (hj'.symm.trans hj)
      exact ⟨k, hk, by rwa [sold, ← hkj.sku_eq]⟩
    cases c with
    | putInvoice i =>
        rcases step_putInvoice hs with ⟨x, _, _, rfl⟩ | ⟨_, _, rfl⟩
        · exact ⟨j, hj⟩
        by_cases hid : i.id = id
        · obtain ⟨id', k, hm, hki⟩ := read_of_writes hg.2 fun hi => by
            rcases hq with hq | hq <;> simp [hq] at hi
          obtain ⟨j', hj', hkj⟩ := h.reads _ (List.mem_of_getElem? hn) id' k hm
          obtain rfl : id' = id := by rw [← Store.invoice_id hj', hkj.id_eq, ← hki.id_eq, hid]
          exact ⟨j', hj'⟩
        · exact ⟨j, by rwa [Store.invoice_putInvoice_of_ne hid] at hj⟩
    | append e =>
        rcases step_append hs with ⟨x, _, _, rfl⟩ | ⟨_, _, rfl⟩
        · exact ⟨j, hj⟩
        · exact ⟨j, by rwa [Store.invoice_append] at hj⟩
    | putSubscription s =>
        rcases step_putSubscription hs with ⟨x, _, _, rfl⟩ | ⟨_, _, rfl⟩ <;> exact ⟨j, hj⟩
    | _ => exact ⟨j, by rwa [step_reads hs rfl] at hj⟩
  · rintro ⟨j, hj, hsj⟩
    obtain ⟨j', hj', hjj⟩ := stored_step hs hj
    exact ⟨j', hj', by rwa [sold, hjj.sku_eq]⟩

theorem bought_append (id tx : String) (e : LedgerEntry) (s : Store) : (bought id tx (s.append e).2 = bought id tx s) ∨
    (s.recorded e.reference = none ∧ (s.append e).2.ledger = s.ledger ++ [e] ∧
      bought id tx (s.append e).2 = bought id tx s ++ [e] ∧
      (e.reference = .invoice id ∨ e.reference = .x402 tx)) := by
  rcases s.append_cases e with ⟨_, _, _, ha⟩ | ⟨_, _, _, ha⟩ | ⟨_, hr, ha⟩
  · exact .inl (by rw [ha])
  · exact .inl (by rw [ha])
  · by_cases he : e.reference = .invoice id ∨ e.reference = .x402 tx
    · exact .inr ⟨hr, by rw [ha], by simp [ha, bought, he], he⟩
    · push Not at he
      exact .inl (by simp [ha, bought, he])

theorem Inv.single_append (h : Inv g id tx w vs) (hn : vs[n]? = some ⟨q, log, none⟩) {i : Invoice}
    (hd : debt log = some i) {e : LedgerEntry} (hc : Credits g q i e) :
    (bought id tx (w.store.append e).2).length ≤ 1 := by
  rcases bought_append id tx e w.store with hb | ⟨hr, _, hb, he⟩
  · rw [hb]
    exact h.single
  suffices hnone : bought id tx w.store = [] by simp [hb, hnone]
  refine List.filter_eq_nil_iff.2 fun x hx => ?_
  have hfresh := Store.recorded_none hr (by rcases he with he | he <;> simp [he]) x hx
  simp only [Bool.or_eq_true, decide_eq_true_eq, not_or]
  rcases he with he | he <;> rw [he] at hfresh
  · obtain ⟨hC, hid, hs⟩ := confirmed_of_credits (w := w) hn hd hc he
    obtain ⟨_, j, hj, hij⟩ := h.owed _ (List.mem_of_getElem? hn) i hd
    have hsold : Sold g id w := ⟨j, hid ▸ hj, by rwa [sold, hij.sku_eq]⟩
    exact ⟨hfresh, fun hx' => (h.excludes hsold).once ⟨.inl ⟨x, hx, hx'⟩, hC⟩⟩
  · refine ⟨fun hx' => ?_, hfresh⟩
    by_cases hsold : Sold g id w
    · exact (h.excludes hsold).once ⟨settled_of_credits hn hd hc he, .inl ⟨x, hx, hx'⟩⟩
    · exact h.unsold hsold x hx hx'

theorem honest_step {c : Call} {r : Reply} {a : Except Error c.Answer} (h : Inv g id tx w vs)
    (hn : vs[n]? = some ⟨q, log, none⟩) (hc : OneTransaction id tx w vs ⟨q, log, none⟩ c r)
    (hs : w.step c r = some (a, w')) :
    ∀ v ∈ vs.set n ⟨q, ⟨c, a⟩ :: log, none⟩, ∀ r ∈ submissions v.log, r.transaction = tx → names v.request = id := by
  intro v hv s hsub ht
  rcases List.mem_or_eq_of_mem_set hv with hv | rfl
  · exact h.honest v hv s hsub ht
  obtain ⟨t, hm, hsuc⟩ := mem_submissions.1 hsub
  rcases List.mem_cons.1 hm with hm | hm
  · cases hm
    cases r with
    | settled s' =>
        cases hs
        exact (hc hsuc).1 ht
    | _ => cases hs
  · exact h.honest ⟨q, log, none⟩ (List.mem_of_getElem? hn) s (mem_submissions.2 ⟨t, hm, hsuc⟩) ht

theorem requests_step (h : Inv g id tx w vs) (hn : vs[n]? = some ⟨q, log, none⟩) {v' : InProgress}
    (hv' : v'.request = q) : ∀ v ∈ vs.set n v', Settles v.request := by
  intro v hv
  rcases List.mem_or_eq_of_mem_set hv with hv | rfl
  · exact h.requests v hv
  · exact hv' ▸ h.requests _ (List.mem_of_getElem? hn)

theorem Excludes.step {c : Call} {r : Reply} {a : Except Error c.Answer} (h : Inv g id tx w vs)
    (hn : vs[n]? = some ⟨q, log, none⟩) (hg : guard g q log c) (hc : Apart g id w vs ⟨q, log, none⟩ c r)
    (hs : w.step c r = some (a, w')) (hsold : Sold g id w) :
    Excludes id tx w' (vs.set n ⟨q, ⟨c, a⟩ :: log, none⟩) := by
  have he := h.excludes hsold
  have hread (hc : c.reads = true)
      (hx : ∀ id' k, (⟨c, a⟩ : (c : Call) × Except Error c.Answer) = ⟨.invoice id', .ok (some k)⟩ → k.id ≠ id)
      (hp : ∀ i b, (⟨c, a⟩ : (c : Call) × Except Error c.Answer) ≠ ⟨.putInvoice i, .ok b⟩) :
      Excludes id tx w' (vs.set n ⟨q, ⟨c, a⟩ :: log, none⟩) :=
    he.quiet hn (by rw [step_reads hs hc]) (by rw [step_reads hs hc]) hx hp
  cases c with
  | invoice id' =>
      obtain ⟨_, ha | ⟨x, _, ha⟩⟩ := step_invoice hs <;> subst ha
      · cases hk : w.store.invoice id' with
        | none => exact he.quiet hn (by rw [step_reads hs rfl]) (by rw [step_reads hs rfl]) (by simp) (by simp)
        | some k =>
            by_cases hid : id' = id
            · subst hid
              obtain ⟨rfl, rfl⟩ : r = .done ∧ w' = w := by
                cases r <;> cases hs
                exact ⟨rfl, rfl⟩
              obtain ⟨hc, hr⟩ := hc rfl k hk (by
                obtain ⟨j, hj, hsj⟩ := hsold
                obtain rfl : k = j := Option.some.inj (hk.symm.trans hj)
                exact hsj)
              exact he.look hn hk hc hr
            · refine he.quiet hn (by rw [step_reads hs rfl]) (by rw [step_reads hs rfl]) ?_ (by simp)
              intro id'' k' hx
              obtain rfl : k = k' := by simpa using (Sigma.mk.inj hx).2
              rw [Store.invoice_id hk]
              exact hid
      · exact hread rfl (by simp) (by simp)
  | putInvoice i =>
      rcases step_putInvoice hs with ⟨x, _, rfl, rfl⟩ | ⟨_, rfl, rfl⟩
      · exact he.quiet hn rfl rfl (by simp) (by simp)
      · by_cases hid : i.id = id
        · exact he.write hn (h.requests _ (List.mem_of_getElem? hn)) hg.2 hid
        · exact he.write_other hn hg.2 (h.honest _ (List.mem_of_getElem? hn)) hid
  | append e =>
      obtain ⟨i, hd, _, hcr⟩ := hg
      rcases step_append hs with ⟨x, _, rfl, rfl⟩ | ⟨_, rfl, rfl⟩
      · exact he.quiet hn rfl rfl (by simp) (by simp)
      · exact he.credit hn hd hcr _
  | putSubscription s =>
      refine he.quiet hn ?_ ?_ (by simp) (by simp) <;>
        rcases step_putSubscription hs with ⟨x, _, _, rfl⟩ | ⟨_, _, rfl⟩ <;> rfl
  | now | entryId | newInvoiceId | allEntries | openInvoices | subscription | paymentFor | quote | verify |
      settle | onChain => exact hread rfl (by simp) (by simp)

theorem Inv.step {c : Call} {r : Reply} {a : Except Error c.Answer} (h : Inv g id tx w vs)
    (hn : vs[n]? = some ⟨q, log, none⟩) (hg : guard g q log c)
    (hc : both (OneTransaction id tx) (Apart g id) w vs ⟨q, log, none⟩ c r)
    (hs : w.step c r = some (a, w')) : Inv g id tx w' (vs.set n ⟨q, ⟨c, a⟩ :: log, none⟩) := by
  have hsold := sold_step id h.toConsistent hn (h.requests _ (List.mem_of_getElem? hn)) hg hs
  refine ⟨h.toConsistent.step hn hg hs, requests_step h hn rfl, honest_step h hn hc.1 hs,
    fun hS => Excludes.step h hn hg hc.2 hs (hsold.1 hS), fun hS e he => ?_, ?_⟩
  · have hS' : ¬ Sold g id w := fun hS' => hS (hsold.2 hS')
    by_cases hap : ∃ x, c = .append x
    · obtain ⟨x, rfl⟩ := hap
      rcases step_append hs with ⟨_, _, _, rfl⟩ | ⟨_, _, rfl⟩
      · exact h.unsold hS' e he
      rcases Store.mem_append_ledger he with he | rfl
      · exact h.unsold hS' e he
      · intro hr
        obtain ⟨i, hd, _, hcr⟩ := hg
        obtain ⟨_, hid, hsi⟩ := confirmed_of_credits (w := w) hn hd hcr hr
        obtain ⟨_, j, hj, hij⟩ := h.owed _ (List.mem_of_getElem? hn) i hd
        exact hS' ⟨j, hid ▸ hj, by rwa [sold, hij.sku_eq]⟩
    · push Not at hap
      exact h.unsold hS' e (ledger_step hap hs ▸ he)
  · by_cases hap : ∃ x, c = .append x
    · obtain ⟨x, rfl⟩ := hap
      obtain ⟨i, hd, _, hcr⟩ := hg
      rcases step_append hs with ⟨_, _, _, rfl⟩ | ⟨_, _, rfl⟩
      · exact h.single
      · exact h.single_append hn hd hcr
    · push Not at hap
      rw [bought, ledger_step hap hs]
      exact h.single

theorem inv_init (h : bought id tx w.store = []) : Inv g id tx w [] := by
  have hno := List.filter_eq_nil_iff.1 h
  simp only [Bool.or_eq_true, decide_eq_true_eq, not_or] at hno
  have hS : ¬ Settled tx w [] := by
    rintro (⟨e, he, hr⟩ | ⟨v, hv, _⟩)
    · exact (hno e he).2 hr
    · cases hv
  have hC : ¬ Confirmed id w [] := by
    rintro (⟨e, he, hr⟩ | ⟨v, hv, _⟩)
    · exact (hno e he).1 hr
    · cases hv
  refine ⟨consistent_init w, by simp, by simp, fun _ => ?_, fun _ e he => (hno e he).1, by simp [h]⟩
  exact ⟨by simp, fun hb => absurd hb hS, fun hb => absurd hb hC, fun hb => hS hb.1⟩

theorem Inv.arrive (h : Inv g id tx w vs) (hq : Settles q) : Inv g id tx w (vs ++ [⟨q, [], none⟩]) where
  toConsistent := h.toConsistent.arrive q
  requests v hv := by
    rcases List.mem_append.1 hv with hv | hv
    · exact h.requests v hv
    · obtain rfl := List.mem_singleton.1 hv
      exact hq
  honest v hv r hr := by
    rcases List.mem_append.1 hv with hv | hv
    · exact h.honest v hv r hr
    · obtain rfl := List.mem_singleton.1 hv
      cases hr
  excludes hS := by
    refine (h.excludes hS).mono (by simp [looks, found]) (by simp [settling, found]) ?_ ?_ rfl
    · simp [Settled, debt]
    · simp [Confirmed, debt]
  unsold := h.unsold
  single := h.single

theorem Inv.leave (h : Inv g id tx w vs) (hn : vs[n]? = some ⟨q, log, none⟩) (o : Except Error Outcome) :
    Inv g id tx w (vs.set n ⟨q, log, some o⟩) where
  toConsistent := h.toConsistent.leave hn o
  requests := requests_step h hn rfl
  honest v hv r hr := by
    rcases List.mem_or_eq_of_mem_set hv with hv | rfl
    · exact h.honest v hv r hr
    · exact h.honest _ (List.mem_of_getElem? hn) r hr
  excludes hS := by
    refine (h.excludes hS).mono (fun hw => ?_) (fun hw => ?_) (fun hS => ?_) (fun hC => ?_) rfl
    · exact (exists_of_set hw).resolve_left (by simp [looks])
    · exact (exists_of_set hw).resolve_left (by simp [settling])
    · exact hS.imp_right fun hS => (exists_of_set hS).resolve_left (by simp)
    · exact hC.imp_right fun hC => (exists_of_set hC).resolve_left (by simp)
  unsold := h.unsold
  single := h.single

end Steps

def protocol (g : Gateway) (id tx : String) :
    Protocol (body g) World.step Settles (both (OneTransaction id tx) (Apart g id)) where
  inv := Inv g id tx
  guard := guard g
  admits _ := admits
  post := post g
  arrive hq h := h.arrive hq
  follows hq := follows (sells_of_settles hq)
  sound h hn hg hc hs := ⟨h.step hn hg hc hs, admits_step hs⟩
  leave h hn _ := h.leave hn _

/-- From a store where the payment has bought nothing yet, it buys once. -/
theorem bought_once {g : Gateway} {id tx : String} {w : World} {c : Pool} (h₀ : bought id tx w.store = [])
    (h : Reachable g Settles (both (OneTransaction id tx) (Apart g id)) w c) :
    (bought id tx c.world.store).length ≤ 1 :=
  ((protocol g id tx).invariant (inv_init h₀) h).single

def shop : Gateway := { catalog := defaultCatalog, destination := "GDEST" }

/-- A pack of tokens has been ordered and not been paid. -/
def ordered : World where
  store := { invoices := [{
    id := "cz1", account := "A", sku := "tokens-1m", tokens := 1000000, price := .usd 8, asset := "XLM",
    amount := "80.0000000", destination := "GDEST", createdAt := 0, expiresAt := INVOICE_TTL }] }

def header : X402Service.PaymentPayload := ⟨"exact", "stellar-testnet", "AAAA", "cz1"⟩

def payment : ObservedPayment := ⟨"t1", "GPAYER", "GDEST", "XLM", "80.0000000", "cz1", 1⟩

/-- The payment is redeemed, and a later `confirm` finds the invoice paid. -/
def oneAfterTheOther : List (Event Request Reply) := [
  .start (.redeem (.ok header) ""), .step 0 .done, .step 0 .done, .step 0 (.time 1),
  .step 0 (.verified { valid := true, payer := "GPAYER" }),
  .step 0 (.settled { success := true, network := "stellar-testnet", transaction := "t1", payer := "GPAYER" }),
  .step 0 .done, .step 0 (.time 2), .step 0 .done, .step 0 (.text "e1"), .step 0 (.time 3), .step 0 .done, .finish 0,
  .start (.confirm "cz1"), .step 1 .done, .finish 1]

theorem bought_once_redeemed : ∃ c, bought "cz1" "t1" ordered.store = [] ∧
    Reachable shop Settles (both (OneTransaction "cz1" "t1") (Apart shop "cz1")) ordered c ∧
    (bought "cz1" "t1" c.world.store).map LedgerEntry.tokens = [1000000] ∧
    (bought "cz1" "t1" c.world.store).length ≤ 1 := by
  have hr : (run (body shop) World.step Settles (both (OneTransaction "cz1" "t1") (Apart shop "cz1"))
      ⟨ordered, []⟩ oneAfterTheOther).any (fun c =>
        (bought "cz1" "t1" c.world.store).map LedgerEntry.tokens = [1000000]) = true := by decide +kernel
  obtain ⟨c, h, hp⟩ := reaches_of_run hr
  exact ⟨c, rfl, h, of_decide_eq_true hp, bought_once rfl h⟩

/-- `confirm` looks before the redeemed payment is written and finds it on the
ledger: both find the invoice pending, and both credit it. -/
def crossed : List (Event Request Reply) := [
  .start (.redeem (.ok header) ""), .step 0 .done, .step 0 .done, .step 0 (.time 1),
  .step 0 (.verified { valid := true, payer := "GPAYER" }),
  .step 0 (.settled { success := true, network := "stellar-testnet", transaction := "t1", payer := "GPAYER" }),
  .start (.confirm "cz1"), .step 1 .done, .step 1 (.payment (some payment)),
  .step 0 .done, .step 0 (.time 2), .step 0 .done, .step 0 (.text "e1"), .step 0 (.time 3), .step 0 .done, .finish 0,
  .step 1 .done, .step 1 (.text "e2"), .step 1 (.time 4), .step 1 .done, .finish 1]

theorem bought_twice : bought "cz1" "t1" ordered.store = [] ∧
    ∃ c, Reachable shop Settles (OneTransaction "cz1" "t1") ordered c ∧
      (bought "cz1" "t1" c.world.store).map (fun e => (e.account, e.reference, e.tokens)) =
        [("GPAYER", .x402 "t1", 1000000), ("A", .invoice "cz1", 1000000)] ∧
      ¬ (bought "cz1" "t1" c.world.store).length ≤ 1 := by
  have hr : (run (body shop) World.step Settles (OneTransaction "cz1" "t1") ⟨ordered, []⟩ crossed).any (fun c =>
      (bought "cz1" "t1" c.world.store).map (fun e => (e.account, e.reference, e.tokens)) =
        [("GPAYER", .x402 "t1", 1000000), ("A", .invoice "cz1", 1000000)]) = true := by decide +kernel
  obtain ⟨c, h, hp⟩ := reaches_of_run hr
  have hp := of_decide_eq_true hp
  refine ⟨rfl, c, h, hp, fun hl => ?_⟩
  have := congrArg List.length hp
  simp at this
  omega

end CodeZard.Crossings
