import CodeZard.Sales

namespace CodeZard.Redemptions

open Amounts Products Ledgers Invoices Storage Ports Interleaving Requests Sales

/-- The call has its tokens: a purchase of what the invoice is for, under the
transaction, and for `redeem` on the account that it returns. -/
def Fulfilled (s : Store) (v : InProgress) : Prop :=
  match v.result with
  | some (.ok (.redeemed account r)) => ∃ i, s.invoice (names v.request) = some i ∧
      ∃ e ∈ s.ledger, e.kind = .purchase ∧ e.tokens = i.tokens ∧ e.reference = .x402 r.transaction ∧
        e.account = account
  | some (.ok (.settled r)) => r.success = true → ∃ i, s.invoice (names v.request) = some i ∧
      ∃ e ∈ s.ledger, e.kind = .purchase ∧ e.tokens = i.tokens ∧ e.reference = .x402 r.transaction
  | _ => True

def verdicts (log : BillingLog) : List (Invoice × VerifyResult) := log.filterMap fun
  | ⟨.verify _ k, .ok u⟩ => some (k, u)
  | _ => none

/-- The quote is still open when it is read again after the submission, the
transaction has not been credited otherwise, and where it names no payer
`redeem` has none to fall back on but the account of the invoice. -/
def Prompt : Rule := fun w _ v c r =>
  role v.request = .redeeming → match c, r with
  | .now, .time t => ∀ p ∈ found v.log, submissions p.2 ≠ [] → p.1.isOpen t = true
  | .append e, .done => ∀ x ∈ w.store.ledger, x.reference = e.reference →
      x.kind = e.kind ∧ x.tokens = e.tokens ∧ x.account = e.account
  | .settle _, .settled s => redeems v.request = true → s.payer = "" →
      ∀ p ∈ verdicts v.log, p.2.payer = "" ∨ p.2.payer = p.1.account
  | _, _ => True

instance (w : World) (vs : List InProgress) (v : InProgress) (c : Call) (r : Reply) :
    Decidable (Prompt w vs v c r) := by
  rcases c <;> rcases r <;> dsimp only [Prompt] <;> infer_instance

def Recorded (s : Store) (e : LedgerEntry) : Prop :=
  ∃ y ∈ s.ledger, y.reference = e.reference ∧ y.kind = e.kind ∧ y.tokens = e.tokens ∧ y.account = e.account

structure Inv (w : World) (vs : List InProgress) : Prop extends Consistent w vs where
  kept : ∀ v ∈ vs, role v.request = .redeeming → ∀ e x, ⟨.append e, .ok x⟩ ∈ v.log →
    Recorded w.store e
  found : ∀ v ∈ vs, role v.request = .redeeming → ¬ Missed v.log
  agreed : ∀ v ∈ vs, redeems v.request = true → ∀ s ∈ submissions v.log, s.payer = "" →
    ∀ p ∈ verdicts v.log, p.2.payer = "" ∨ p.2.payer = p.1.account
  fulfilled : ∀ v ∈ vs, Fulfilled w.store v

section Steps

variable {g : Gateway} {w w' : World} {vs : List InProgress} {n : Nat} {q : Request} {log : BillingLog}
  {c : Call} {r : Reply} {a : Except Error c.Answer}

theorem mem_verdicts {k : Invoice} {u : VerifyResult} :
    (k, u) ∈ verdicts log ↔ ∃ t, ⟨.verify t k, .ok u⟩ ∈ log := by
  unfold verdicts
  rw [List.mem_filterMap]
  constructor
  · rintro ⟨x, hx, hr⟩
    split at hr
    · cases hr; exact ⟨_, hx⟩
    · cases hr
  · rintro ⟨t, hx⟩
    exact ⟨_, hx, rfl⟩

theorem Fulfilled.step {v : InProgress} (h : Fulfilled w.store v) (hs : w.step c r = some (a, w')) :
    Fulfilled w'.store v := by
  unfold Fulfilled at h ⊢
  split at h
  · obtain ⟨i, hi, e, he, hk, ht, hr⟩ := h
    obtain ⟨j, hj, hij⟩ := stored_step hs hi
    exact ⟨j, hj, e, ledger_subset hs e he, hk, ht.trans hij.tokens_eq.symm, hr⟩
  · intro hsuc
    obtain ⟨i, hi, e, he, hk, ht, hr⟩ := h hsuc
    obtain ⟨j, hj, hij⟩ := stored_step hs hi
    exact ⟨j, hj, e, ledger_subset hs e he, hk, ht.trans hij.tokens_eq.symm, hr⟩
  · trivial

theorem inv_init (w : World) : Inv w [] := by
  refine ⟨consistent_init w, ?_, ?_, ?_, ?_⟩ <;> simp

theorem Inv.arrive (h : Inv w vs) (q : Request) : Inv w (vs ++ [⟨q, [], none⟩]) := by
  refine ⟨h.toConsistent.arrive q, fun v hv => ?_, fun v hv => ?_, fun v hv => ?_, fun v hv => ?_⟩ <;>
    rcases List.mem_append.1 hv with hv | hv
  · exact h.kept v hv
  · obtain rfl := List.mem_singleton.1 hv
    simp
  · exact h.found v hv
  · obtain rfl := List.mem_singleton.1 hv
    exact fun _ hm => hm
  · exact h.agreed v hv
  · obtain rfl := List.mem_singleton.1 hv
    exact fun _ s hs => nomatch hs
  · exact h.fulfilled v hv
  · obtain rfl := List.mem_singleton.1 hv
    trivial

theorem Recorded.step {e : LedgerEntry} (h : Recorded w.store e) (hs : w.step c r = some (a, w')) :
    Recorded w'.store e := by
  obtain ⟨y, hy, hye⟩ := h
  exact ⟨y, ledger_subset hs y hy, hye⟩

theorem Inv.kept_step (h : Inv w vs) (hn : vs[n]? = some ⟨q, log, none⟩)
    (hc : Prompt w vs ⟨q, log, none⟩ c r) (hs : w.step c r = some (a, w')) :
    ∀ v ∈ vs.set n ⟨q, ⟨c, a⟩ :: log, none⟩, role v.request = .redeeming → ∀ e x, ⟨.append e, .ok x⟩ ∈ v.log →
      Recorded w'.store e := by
  intro v hv hq e x hx
  rcases List.mem_or_eq_of_mem_set hv with hv | rfl
  · exact (h.kept v hv hq e x hx).step hs
  rcases List.mem_cons.1 hx with hx | hx
  · cases hx
    rcases step_append hs with ⟨_, _, hx, _⟩ | ⟨rfl, hx, rfl⟩
    · cases hx
    · rcases w.store.append_cases e with ⟨y, hy, hr, ha⟩ | ⟨_, _, _, ha⟩ | ⟨_, _, ha⟩
      · exact ⟨y, by rw [ha]; exact hy, hr, hc hq y hy hr⟩
      · rw [ha] at hx
        cases hx
      · exact ⟨e, by rw [ha]; simp, rfl, rfl, rfl, rfl⟩
  · exact (h.kept _ (List.mem_of_getElem? hn) hq e x hx).step hs

theorem Inv.found_step (h : Inv w vs) (hn : vs[n]? = some ⟨q, log, none⟩)
    (hc : Prompt w vs ⟨q, log, none⟩ c r) (hs : w.step c r = some (a, w')) :
    ∀ v ∈ vs.set n ⟨q, ⟨c, a⟩ :: log, none⟩, role v.request = .redeeming → ¬ Missed v.log := by
  intro v hv hq
  rcases List.mem_or_eq_of_mem_set hv with hv | rfl
  · exact h.found v hv hq
  intro hm
  unfold Missed at hm
  split at hm
  · rename_i hx
    obtain ⟨hx, rfl⟩ := List.cons.inj hx
    cases hx
    obtain ⟨k, hk⟩ := hm
    obtain ⟨j, hj, _⟩ := h.reads _ (List.mem_of_getElem? hn) _ k hk
    obtain ⟨_, ha | ⟨x, _, ha⟩⟩ := step_invoice hs
    · rw [hj] at ha
      cases ha
    · cases ha
  · rename_i hx
    obtain ⟨hx, rfl⟩ := List.cons.inj hx
    cases hx
    obtain ⟨t, rfl, _, ha, _⟩ := step_now hs
    cases ha
    have hopen := hc hq _ rfl hm.1
    rw [hm.2] at hopen
    cases hopen
  · exact hm

theorem Inv.agreed_step (h : Inv w vs) (hn : vs[n]? = some ⟨q, log, none⟩) (hg : guard g q log c)
    (hc : Prompt w vs ⟨q, log, none⟩ c r) (hs : w.step c r = some (a, w')) :
    ∀ v ∈ vs.set n ⟨q, ⟨c, a⟩ :: log, none⟩, redeems v.request = true → ∀ s ∈ submissions v.log, s.payer = "" →
      ∀ p ∈ verdicts v.log, p.2.payer = "" ∨ p.2.payer = p.1.account := by
  rintro v hv hq s hsub hp ⟨k, u⟩ hu
  rcases List.mem_or_eq_of_mem_set hv with hv | rfl
  · exact h.agreed v hv hq s hsub hp _ hu
  obtain ⟨t, ht, hsuc⟩ := mem_submissions.1 hsub
  obtain ⟨t', hu⟩ := mem_verdicts.1 hu
  rcases List.mem_cons.1 ht with ht | ht
  · cases ht
    have hu : ⟨.verify t' k, .ok u⟩ ∈ log := by simpa using hu
    cases r with
    | settled s' =>
        cases hs
        exact hc (role_of_redeems hq) hq hp (k, u) (mem_verdicts.2 ⟨t', hu⟩)
    | _ => cases hs
  · have hlog : s ∈ submissions log := mem_submissions.2 ⟨t, ht, hsuc⟩
    rcases List.mem_cons.1 hu with hu | hu
    · cases hu
      rw [hg.2] at hlog
      cases hlog
    · exact h.agreed ⟨q, log, none⟩ (List.mem_of_getElem? hn) hq s hlog hp _ (mem_verdicts.2 ⟨t', hu⟩)

theorem Inv.step (h : Inv w vs) (hn : vs[n]? = some ⟨q, log, none⟩) (hg : guard g q log c)
    (hc : Prompt w vs ⟨q, log, none⟩ c r) (hs : w.step c r = some (a, w')) :
    Inv w' (vs.set n ⟨q, ⟨c, a⟩ :: log, none⟩) := by
  refine ⟨h.toConsistent.step hn hg hs, h.kept_step hn hc hs, h.found_step hn hc hs,
    h.agreed_step hn hg hc hs, fun v hv => ?_⟩
  rcases List.mem_or_eq_of_mem_set hv with hv | rfl
  · exact (h.fulfilled v hv).step hs
  · trivial

theorem account_eq {payer payer' account : String} (h : payer = "" → payer' = "" ∨ payer' = account) :
    X402Service.orElse (X402Service.orElse payer payer') account = X402Service.orElse payer account := by
  unfold X402Service.orElse
  by_cases hp : payer = ""
  · rcases h hp with h | h
    · simp [hp, h]
    · by_cases ha : account = "" <;> simp [hp, h, ha]
  · simp [hp]

theorem Inv.booked (h : Inv w vs) (hn : vs[n]? = some ⟨q, log, none⟩) (hq : role q = .redeeming) {s : SettleResult}
    (hb : Booked q log s) : ∃ i, w.store.invoice (names q) = some i ∧ ∃ e ∈ w.store.ledger, e.kind = .purchase ∧
      e.tokens = i.tokens ∧ e.reference = .x402 s.transaction ∧ (redeems q = true → ∀ k,
        ⟨.invoice (names q), .ok (some k)⟩ ∈ log → e.account = X402Service.orElse s.payer k.account) := by
  obtain ⟨k, k', t, u, e, x, hk, hk', hu, hs, hx, hkind, htok, href, hacc⟩ := hb
  have hv := List.mem_of_getElem? hn
  obtain ⟨i, hi, hki⟩ := h.reads _ hv _ k hk
  have hsame {k : Invoice} (hk : ⟨.invoice (names q), .ok (some k)⟩ ∈ log) : k.account = i.account := by
    obtain ⟨j, hj, hkj⟩ := h.reads _ hv _ k hk
    obtain rfl : i = j := Option.some.inj (hi.symm.trans hj)
    exact hkj.account_eq.symm
  obtain ⟨y, hy, hyr, hyk, hyt, hya⟩ := h.kept _ hv hq e x hx
  refine ⟨i, hi, y, hy, hyk.trans hkind, (hyt.trans htok).trans hki.tokens_eq.symm, hyr.trans href,
    fun hr k₀ hk₀ => ?_⟩
  rw [hya, hacc, hsame hk, hsame hk₀]
  refine account_eq fun hp => ?_
  rw [← hsame hk']
  exact h.agreed _ hv hr s hs hp (k', u) (mem_verdicts.2 ⟨t, hu⟩)

theorem Inv.fulfils (h : Inv w vs) (hn : vs[n]? = some ⟨q, log, none⟩) {o : Except Error Outcome}
    (ho : Accounted q log o) : Fulfilled w.store ⟨q, log, some o⟩ := by
  have hmissed (hq : role q = .redeeming) : ¬ Missed log := h.found _ (List.mem_of_getElem? hn) hq
  unfold Fulfilled
  split
  · rename_i account s hs
    cases hs
    obtain ⟨hq, hb, k, hk, rfl⟩ := ho
    have hrole := role_of_redeems hq
    obtain ⟨i, hi, e, he, hkind, ht, hr, hacc⟩ := h.booked hn hrole (hb.resolve_right (hmissed hrole))
    exact ⟨i, hi, e, he, hkind, ht, hr, hacc hq k hk⟩
  · rename_i s hs
    cases hs
    intro hsuc
    obtain ⟨hq, hb⟩ := ho
    obtain ⟨i, hi, e, he, hkind, ht, hr, _⟩ := h.booked hn hq ((hb hsuc).resolve_right (hmissed hq))
    exact ⟨i, hi, e, he, hkind, ht, hr⟩
  · trivial

theorem Inv.leave (h : Inv w vs) (hn : vs[n]? = some ⟨q, log, none⟩) {o : Except Error Outcome}
    (ho : Accounted q log o) : Inv w (vs.set n ⟨q, log, some o⟩) := by
  have hv := List.mem_of_getElem? hn
  refine ⟨h.toConsistent.leave hn o, fun v hm => ?_, fun v hm => ?_, fun v hm => ?_, fun v hm => ?_⟩ <;>
    rcases List.mem_or_eq_of_mem_set hm with hm | rfl
  · exact h.kept v hm
  · exact h.kept ⟨q, log, none⟩ hv
  · exact h.found v hm
  · exact h.found ⟨q, log, none⟩ hv
  · exact h.agreed v hm
  · exact h.agreed ⟨q, log, none⟩ hv
  · exact h.fulfilled v hm
  · exact h.fulfils hn ho

end Steps

def protocol (g : Gateway) : Protocol (body g) World.step Sells Prompt where
  inv := Inv
  guard := guard g
  admits _ := admits
  post := post g
  arrive _ h := h.arrive _
  follows hq := follows hq
  sound h hn hg hc hs := ⟨h.step hn hg hc hs, admits_step hs⟩
  leave h hn ho := h.leave hn ho.2

/-- Whatever the store was at first, every payment that was settled in a run of
prompt steps has its tokens. -/
theorem redeemed_fulfilled {g : Gateway} {w : World} {c : Pool} (h : Reachable g Sells Prompt w c) :
    ∀ v ∈ c.views, Fulfilled c.world.store v :=
  ((protocol g).invariant (inv_init w) h).fulfilled

def shop : Gateway := { catalog := defaultCatalog, destination := "GDEST" }

/-- A quote for half a dollar, open until its ten minutes are over. -/
def quoted : World where
  store := { invoices := [{
    id := "cz1", account := "GASKED", sku := "x402", tokens := 62500, price := ⟨500000⟩, asset := "XLM",
    amount := "5.0000000", destination := "GDEST", createdAt := 0, expiresAt := X402Service.QUOTE_TTL,
    kind := "x402" }] }

def header : X402Service.PaymentPayload := ⟨"exact", "stellar-testnet", "AAAA", "cz1"⟩

def redeemedAt (t : Datetime) : List (Event Request Reply) := [
  .start (.redeem (.ok header) ""), .step 0 .done, .step 0 .done, .step 0 (.time 1),
  .step 0 (.verified { valid := true, payer := "GPAYER" }),
  .step 0 (.settled { success := true, network := "stellar-testnet", transaction := "t1", payer := "GPAYER" }),
  .step 0 .done, .step 0 (.time t)]

def credited : List (Event Request Reply) := [
  .step 0 .done, .step 0 (.text "e1"), .step 0 (.time 3), .step 0 .done]

def redeemedFor (p : String → String → Bool) (v : InProgress) : Bool := match v.result with
  | some (.ok (.redeemed account r)) => p account r.transaction
  | _ => false

theorem redeemed_of_redeemedFor {p : String → String → Bool} {v : InProgress} (h : redeemedFor p v = true) :
    ∃ account r, v.result = some (.ok (.redeemed account r)) ∧ p account r.transaction = true := by
  unfold redeemedFor at h
  split at h
  · exact ⟨_, _, ‹_›, h⟩
  · cases h

theorem redeemed_fulfilled_promptly : ∃ c, Reachable shop Sells Prompt quoted c ∧
    (∃ v ∈ c.views, ∃ account r, v.result = some (.ok (.redeemed account r))) ∧
    ∀ v ∈ c.views, Fulfilled c.world.store v := by
  have hr : (run (body shop) World.step Sells Prompt ⟨quoted, []⟩
      (redeemedAt 2 ++ credited ++ [.finish 0])).any (fun c => c.views.any (redeemedFor fun _ _ => true)) = true := by
    decide +kernel
  obtain ⟨c, h, hp⟩ := reaches_of_run hr
  obtain ⟨v, hv, hr⟩ := List.any_eq_true.1 hp
  obtain ⟨account, r, hres, _⟩ := redeemed_of_redeemedFor hr
  exact ⟨c, h, ⟨v, hv, account, r, hres⟩, redeemed_fulfilled h⟩

/-- The ledger takes its time: the quote has expired when it is read again, and
the payment is kept for nothing. -/
theorem settled_too_late : ∃ c, Reachable shop Sells anyStep quoted c ∧ c.world.store.ledger = [] ∧
    (∃ v ∈ c.views, ∃ r, v.result = some (.ok (.redeemed "GPAYER" r)) ∧ r.transaction = "t1") ∧
    ¬ ∀ v ∈ c.views, Fulfilled c.world.store v := by
  have hr : (run (body shop) World.step Sells anyStep ⟨quoted, []⟩
      (redeemedAt X402Service.QUOTE_TTL ++ [.finish 0])).any (fun c =>
        c.world.store.ledger = [] && c.views.any (redeemedFor fun account tx => account = "GPAYER" && tx = "t1")) =
          true := by decide +kernel
  obtain ⟨c, h, hp⟩ := reaches_of_run hr
  simp only [Bool.and_eq_true, decide_eq_true_eq] at hp
  obtain ⟨v, hv, hr⟩ := List.any_eq_true.1 hp.2
  obtain ⟨account, r, hres, hr⟩ := redeemed_of_redeemedFor hr
  simp only [Bool.and_eq_true, decide_eq_true_eq] at hr
  obtain ⟨rfl, ht⟩ := hr
  refine ⟨c, h, hp.1, ⟨v, hv, r, hres, ht⟩, fun hall => ?_⟩
  have hf := hall v hv
  simp only [Fulfilled, hres, hp.1] at hf
  obtain ⟨_, _, _, he, _⟩ := hf
  cases he

end CodeZard.Redemptions
