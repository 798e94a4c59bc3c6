import CodeZard.Magnitudes
import CodeZard.Numerals
import CodeZard.References
import CodeZard.Stellar
import CodeZard.StreamScans

namespace CodeZard.Quotes

open Amounts BillingService Decimals Interleaving Invoices Magnitudes Ports Products Programs References Requests
  Stellar Storage Stroops Values

def inRange : Decimal → Bool
  | .finite _ coeff exp => exp + digitCount coeff - 1 ≤ emax
  | _ => false

section Prices

variable {price : Money} {q : Decimal} {s : String} {c : Nat} {e : Int}

theorem signals_ok {α : Type} {x : Except Signal α} {a : α} (h : signals x = .ok a) : x = .ok a := by
  cases x with
  | ok b =>
      cases h
      rfl
  | error signal => cases h

theorem bind_eq_ok {ε α β : Type} {x : Except ε α} {f : α → Except ε β} {b : β} :
    x.bind f = .ok b ↔ ∃ a, x = .ok a ∧ f a = .ok b := by
  cases x <;> simp [Except.bind]

theorem decimal_pos (hp : 0 < price.micros) (h : decimal price = .ok q) :
    ∃ n k, q = .finite false n k ∧ 0 < n ∧ -6 ≤ k + digitCount n := by
  have hsign : decide (price.micros < 0) = false := decide_eq_false (not_lt.2 hp.le)
  have hmicros : 0 < price.micros.natAbs := by omega
  have hdigits : 0 < digitCount price.micros.natAbs := Nat.length_toDigits_pos
  have hmillion : digitCount MICROS.toNat = 7 := by decide +kernel
  have hetiny : etiny = -1000026 := rfl
  rw [decimal, hsign] at h
  obtain ⟨n, k, rfl, hn, hk⟩ := div_pos hmicros (by decide) (by omega) h
  exact ⟨n, k, rfl, hn, by omega⟩

theorem amount_pos (hc : 0 < c) (h : amount (.finite false c e) = .ok s) :
    ∃ n, 0 < n ∧ parse s = some (.finite false n STROOPS) := by
  unfold amount at h
  cases hq : quantizeStroops (.finite false c e) with
  | error signal =>
      rw [hq] at h
      cases h
  | ok q =>
      obtain ⟨n, rfl, hn, hdigits⟩ := quantizeStroops_pos hc hq
      rw [hq] at h
      cases h
      have hprecision : precision = 28 := rfl
      have hmax : maxExponent = 999999999999999999 := rfl
      have hstroops : STROOPS = -7 := rfl
      exact ⟨n, hn, Numerals.parse_text false (by decide) (by omega)⟩

theorem divided_pos {rate : Decimal} (hp : 0 < price.micros) (hrange : inRange rate = true)
    (hpos : isPositive rate = true) (h : (do amount (← div (← decimal price) rate)) = .ok s) :
    ∃ n, 0 < n ∧ parse s = some (.finite false n STROOPS) := by
  have hemax : emax = 999999 := rfl
  have hetiny : etiny = -1000026 := rfl
  obtain ⟨q, hq, h⟩ := bind_eq_ok.1 h
  obtain ⟨r, hdiv, h⟩ := bind_eq_ok.1 h
  obtain ⟨n, k, rfl, hn, hk⟩ := decimal_pos hp hq
  cases rate with
  | infinity b => cases hrange
  | nan b => cases hrange
  | finite b d f =>
      have hrate : b = false ∧ 0 < d := by
        cases b <;> simp_all [isPositive, Nat.pos_iff_ne_zero]
      have hbelow : f + (digitCount d : Int) - 1 ≤ emax := of_decide_eq_true hrange
      obtain ⟨m, l, rfl, hm, _⟩ := div_pos hn hrate.2 (by omega) hdiv
      rw [hrate.1] at h
      exact amount_pos hm h

theorem quote_pos {config : StellarConfig} {asset : String} {answer : Answer} (hp : 0 < price.micros)
    (hr : ∀ rate, xlmUsd config answer = .ok rate → inRange rate = true) (h : quote config price asset answer = .ok s) :
    ∃ n, 0 < n ∧ parse s = some (.finite false n STROOPS) := by
  unfold quote at h
  dsimp only at h
  generalize upper (if asset = "" then config.asset else asset) = code at h
  split at h
  · obtain ⟨q, hq, h⟩ := bind_eq_ok.1 (signals_ok h)
    obtain ⟨n, k, rfl, hn, _⟩ := decimal_pos hp hq
    exact amount_pos hn h
  · obtain ⟨rate, hx, h⟩ := bind_eq_ok.1 h
    split at h
    · cases h
    · rename_i hpos
      exact divided_pos hp (hr rate hx) (by simpa using hpos) (signals_ok h)

end Prices

def MEMO_BYTES : Nat := 28

def isHexDigit (c : Char) : Bool := c.isDigit || ('a' ≤ c && c ≤ 'f')

/-- `"cz" + secrets.token_hex(11)`, whatever the token. -/
def isInvoiceId (s : String) : Bool :=
  match s.toList with
  | 'c' :: 'z' :: token => token.length = 22 && token.all isHexDigit
  | _ => false

/-- An invoice that can be paid, and that buys something. -/
structure Payable (i : Invoice) : Prop where
  destination : i.destination ≠ ""
  memo : i.memo.utf8ByteSize ≤ MEMO_BYTES
  amount : ∃ n e, 0 < n ∧ parse i.amount = some (.finite false n e)
  tokens : 0 < i.tokens

/-- What is on sale for money has a price and buys tokens. -/
def Priced (c : Catalog) : Prop :=
  (∀ p ∈ c.plans, p.isFree = false → 0 < p.price.micros ∧ 0 < p.tokens) ∧
    ∀ p ∈ c.packs, 0 < p.price.micros ∧ 0 < p.tokens

instance (c : Catalog) : Decidable (Priced c) := inferInstanceAs (Decidable (_ ∧ _))

/-- A quote is asked for only where it can be paid, and at a price that buys a
token. -/
def Issues (g : Gateway) : Request → Prop
  | .requirements _ _ price => g.destination ≠ "" ∧ 0 < tokensWorth g (price.getD g.price)
  | _ => True

instance (g : Gateway) : DecidablePred (Issues g) := fun q => by
  cases q <;> dsimp only [Issues] <;> infer_instance

def ratesInRange (config : StellarConfig) (answer : Answer) : Bool :=
  match xlmUsd config answer with
  | .ok rate => inRange rate
  | .error _ => true

/-- Invoice ids are made as they are, and no rate is out of range. -/
def Sound (config : StellarConfig) :
    Condition World Request Ports.Call Call.Answer Error Outcome Heard := fun _ _ _ c heard => match c, heard with
  | .newInvoiceId, .plain (.text s) => isInvoiceId s = true
  | .quote _ _, .http answer => ratesInRange config answer = true
  | _, _ => True

instance (config : StellarConfig) (w : World) (vs : List InProgress) (v : InProgress) (c : Ports.Call) (heard : Heard) :
    Decidable (Sound config w vs v c heard) := by
  unfold Sound
  split <;> infer_instance

section Ids

theorem utf8ByteSize_ofList {cs : List Char} (h : ∀ c ∈ cs, c.utf8Size = 1) :
    (String.ofList cs).utf8ByteSize = cs.length := by
  induction cs with
  | nil => rfl
  | cons c cs ih =>
      have hc := h c List.mem_cons_self
      rw [← List.singleton_append, String.ofList_append, String.utf8ByteSize_append,
        ih fun d hd => h d (List.mem_cons_of_mem c hd), List.singleton_append, List.length_cons, Nat.add_comm]
      congr 1
      rw [← hc]
      exact String.utf8ByteSize_singleton

theorem utf8Size_hexDigit {c : Char} (h : isHexDigit c = true) : c.utf8Size = 1 := by
  have hascii : c.val ≤ 0x7f := by
    rw [UInt32.le_iff_toNat_le]
    simp only [isHexDigit, Char.isDigit, Bool.or_eq_true, Bool.and_eq_true, decide_eq_true_eq] at h
    rcases h with ⟨_, h⟩ | ⟨_, h⟩
    · exact le_trans (UInt32.le_iff_toNat_le.1 h) (by decide)
    · exact le_trans (UInt32.le_iff_toNat_le.1 h) (by decide)
  exact if_pos hascii

theorem memo_of_isInvoiceId {s : String} (h : isInvoiceId s = true) : s.utf8ByteSize ≤ MEMO_BYTES := by
  unfold isInvoiceId at h
  split at h
  · rename_i token hs
    simp only [Bool.and_eq_true, decide_eq_true_eq, List.all_eq_true] at h
    have hsize : ∀ c ∈ s.toList, c.utf8Size = 1 := by
      rw [hs]
      intro c hc
      rcases List.mem_cons.1 hc with rfl | hc
      · decide
      · rcases List.mem_cons.1 hc with rfl | hc
        · decide
        · exact utf8Size_hexDigit (h.2 c hc)
    have hlength := utf8ByteSize_ofList hsize
    rw [String.ofList_toList, hs, List.length_cons, List.length_cons, h.1] at hlength
    rw [hlength]
    decide
  · cases h

end Ids

def told (_ : BillingLog) : (c : Ports.Call) → Except Error c.Answer → Prop
  | .invoice _, a => ∀ i, a = .ok (some i) → Payable i
  | .newInvoiceId, a => ∀ id, a = .ok id → isInvoiceId id = true
  | .quote price _, a => ∀ s, a = .ok s → 0 < price.micros → ∃ n, 0 < n ∧ parse s = some (.finite false n STROOPS)
  | _, _ => True

def payable : Scope := { invoice := Payable }

theorem rows_payable : Rows Payable told where
  found _ _ i h := h i rfl
  expired _ h := ⟨h.destination, h.memo, h.amount, h.tokens⟩
  paid _ _ _ h := ⟨h.destination, h.memo, h.amount, h.tokens⟩

section Issuing

variable {g : Gateway}

theorem writes_quoted {α : Type} {price : Money} {asset : String} {f : Datetime → String → String → Billing α}
    (hp : 0 < price.micros) (hf : ∀ now id quote, isInvoiceId id = true →
      (∃ n, 0 < n ∧ parse quote = some (.finite false n STROOPS)) → Writes payable told (f now id quote)) :
    Writes payable told
      (nowUtc.bind fun now => newInvoiceId.bind fun id => (network.quote price asset).bind (f now id)) := by
  refine writes_ask_bind trivial fun now log _ => ?_
  refine keeps_perform_bind.2 ⟨trivial, fun a ha => ?_⟩
  cases a with
  | error e => trivial
  | ok id =>
      refine keeps_perform_bind.2 ⟨trivial, fun a hq => ?_⟩
      cases a with
      | error e => trivial
      | ok quote => exact hf now id quote (ha id rfl) (hq quote rfl hp) _ trivial

theorem payable_of_parts {i : Invoice} (hd : i.destination ≠ "") (hid : isInvoiceId i.id = true)
    (hq : ∃ n, 0 < n ∧ parse i.amount = some (.finite false n STROOPS)) (ht : 0 < i.tokens) : Payable i where
  destination := hd
  memo := memo_of_isInvoiceId hid
  amount := by
    obtain ⟨n, hn, hparse⟩ := hq
    exact ⟨n, STROOPS, hn, hparse⟩
  tokens := ht

theorem product_of_ok {sku : String} {product : Product} (h : g.catalog.product sku = .ok product) :
    product ∈ g.catalog.everything := by
  unfold Catalog.product at h
  split at h
  · cases h
    exact List.mem_of_find?_eq_some ‹_›
  · cases h

theorem writes_checkout (hcatalog : Priced g.catalog) (account sku asset : String) :
    Writes payable told (checkout g account sku asset) := by
  have hissue (product : Product) (kind : String) (h : 0 < product.price.micros ∧ 0 < product.tokens) :
      Writes payable told (checkout.issue g account asset product kind) := by
    unfold checkout.issue
    split
    · exact restores_raise _
    · rename_i hd
      apply writes_quoted h.1
      intro now id quote hid hq
      apply writes_ask
      exact payable_of_parts hd hid hq h.2
  unfold checkout
  cases hproduct : g.catalog.product sku with
  | error e => exact restores_raise _
  | ok product =>
      have hmem := product_of_ok hproduct
      cases product with
      | pack pack => exact hissue _ _ (hcatalog.2 pack (by simpa [Catalog.everything] using hmem))
      | plan plan =>
          have hplan : plan ∈ g.catalog.plans := by simpa [Catalog.everything] using hmem
          simp only [ofExcept_ok, bind_eq, ret_bind]
          by_cases hchain : (!plan.isFree && g.chainAvailable) = true
          · rw [if_pos hchain]
            exact restores_raise _
          · rw [if_neg hchain]
            cases hfree : plan.isFree with
            | true => exact restores_raise _
            | false => exact hissue _ _ (hcatalog.1 plan hplan hfree)

theorem micros_pos {price : Money} (h : 0 < tokensWorth g price) : 0 < price.micros := by
  unfold tokensWorth Pricing.tokensFor at h
  split at h
  · exact absurd h (lt_irrefl 0)
  · rename_i hlist
    rw [Int.fdiv_eq_ediv_of_nonneg _ (not_le.1 hlist).le] at h
    by_contra hprice
    have hnone : price.micros * PER_MILLION / g.catalog.pricing.perMillion.micros ≤ 0 := by
      apply Int.ediv_le_of_le_mul (not_le.1 hlist)
      simp only [PER_MILLION]
      omega
    omega

theorem writes_requirements {account resource : String} {price : Option Money} (hd : g.destination ≠ "")
    (ht : 0 < tokensWorth g (price.getD g.price)) :
    Writes payable told (X402Service.requirements g account resource price) := by
  apply writes_quoted (micros_pos ht)
  intro now id quote hid hq
  refine writes_ask_bind ?_ fun i => restores_ret _
  exact payable_of_parts hd hid hq ht

end Issuing

theorem permits {g : Gateway} (hcatalog : Priced g.catalog) {q : Request} (hq : Issues g q) :
    Permits payable told g q := by
  have hperiodic : Periodic payable.entry := by constructor <;> intros <;> trivial
  have hstanding : Standing g payable.subscription := standing_any
  cases q with
  | checkout account sku asset => exact writes_checkout hcatalog account sku asset
  | requirements account resource price => exact writes_requirements hq.1 hq.2
  | confirm | reconcile => exact ⟨rows_payable, hstanding, fun _ => trivial⟩
  | settle | redeem => exact ⟨rows_payable, fun _ => trivial⟩
  | settlePeriod | authorize => exact ⟨hperiodic, hstanding⟩
  | credit | charge => trivial

def Inv (w : World) : Prop := ∀ i ∈ w.store.invoices, Payable i

section Steps

variable {config : StellarConfig} {out : Outside} {w w' : World} {log : BillingLog} {c : Ports.Call} {heard : Heard}
  {a : Except Error c.Answer}

theorem Inv.step {r : Reply} (h : Inv w) (hg : allows payable log c) (hs : w.step c r = some (a, w')) :
    Inv w' := by
  cases c with
  | putInvoice i =>
      rcases step_putInvoice hs with ⟨x, _, _, rfl⟩ | ⟨_, _, rfl⟩
      · exact h
      · intro j hj
        rcases Tables.mem_upsert hj with hj | rfl | ⟨k, hk, rfl⟩
        · exact h j hj
        · exact hg
        · exact ⟨(h k hk).destination, (h k hk).memo, (h k hk).amount, (h k hk).tokens⟩
  | append e =>
      rcases step_append hs with ⟨x, _, _, rfl⟩ | ⟨_, _, rfl⟩
      · exact h
      · intro j hj
        rw [Store.append_invoices] at hj
        exact h j hj
  | putSubscription s => rcases step_putSubscription hs with ⟨x, _, _, rfl⟩ | ⟨_, _, rfl⟩ <;> exact h
  | _ =>
      intro j hj
      rw [step_reads hs rfl] at hj
      exact h j hj

theorem told_step {vs : List InProgress} {v : InProgress} (h : Inv w) (hr : Sound config w vs v c heard)
    (hs : Stellar.step config out w c heard = some (a, w')) : told log c a := by
  obtain ⟨r, hreply, hs⟩ := step_world hs
  cases c with
  | invoice id =>
      rintro i rfl
      obtain ⟨_, ha | ⟨x, _, ha⟩⟩ := step_invoice hs
      · exact h i (Tables.row_mem (Except.ok.inj ha).symm)
      · cases ha
  | newInvoiceId =>
      rintro id rfl
      cases heard with
      | http answer => cases hreply
      | plain r =>
          cases r with
          | text s =>
              cases hreply
              cases hs
              exact hr
          | _ =>
              cases hreply
              cases hs
  | quote price asset =>
      rintro s rfl hp
      cases heard with
      | plain r => cases hreply
      | http answer =>
          have hrates : ∀ rate, xlmUsd config answer = .ok rate → inRange rate = true := by
            intro rate hrate
            have hr' : ratesInRange config answer = true := hr
            simpa only [ratesInRange, hrate] using hr'
          cases hq : quote config price asset answer with
          | error e =>
              simp only [reply, hq, replyOf, Option.some.injEq] at hreply
              subst hreply
              cases hs
          | ok text =>
              simp only [reply, hq, replyOf, Option.some.injEq] at hreply
              subst hreply
              cases hs
              exact quote_pos hp hrates hq
  | _ => trivial

end Steps

def protocol (g : Gateway) (config : StellarConfig) (out : Outside) (hcatalog : Priced g.catalog) :
    Protocol (body g) (Stellar.step config out) (Issues g) (Sound config) where
  inv w _ := Inv w
  guard _ := allows payable
  admits _ := told
  post _ _ _ := True
  arrive _ h := h
  follows hq := writes_body (permits hcatalog hq) [] trivial
  sound h _ hg hr hs := by
    obtain ⟨r, _, hstep⟩ := step_world hs
    exact ⟨h.step hg hstep, told_step h hr hs⟩
  leave h _ _ := h

/-- In every run that asks for quotes where they can be paid, and at prices that
buy something, every invoice can be paid and is worth it. -/
theorem issued_payable {g : Gateway} {config : StellarConfig} {out : Outside} {t : Datetime} {c : Pool}
    (hcatalog : Priced g.catalog)
    (h : Reaches (body g) (Stellar.step config out) (Issues g) (Sound config) ⟨{}, t⟩ c) {i : Invoice}
    (hi : i ∈ c.world.store.invoices) : Payable i := by
  have hempty : Inv ⟨{}, t⟩ := by
    intro j hj
    cases hj
  exact (protocol g config out hcatalog).invariant hempty h i hi

def shop : Gateway := { catalog := defaultCatalog, destination := "GDEST", price := ⟨500000⟩ }

def testnet : StellarConfig := { destination := "GDEST", xlmUsd := "0.1" }

def issues (n : Nat) (id : String) : List (Event Request Heard) :=
  [.step n (.plain (.time 0)), .step n (.plain (.text id)), .step n (.http (.unreachable "")), .step n (.plain .done),
    .finish n]

def quotedFor (price : Money) : List (Event Request Heard) :=
  .start (.requirements "GPAYER" "" (some price)) :: issues 0 "cz0123456789abcdef012345"

theorem issued_payable_quote : ∃ c i, Reaches (body shop) (Stellar.step testnet {}) (Issues shop) (Sound testnet) ⟨{}, 0⟩ c ∧
    c.world.store.invoices = [i] ∧ i.amount = "20.0000000" ∧ Payable i := by
  have hrun : (run (body shop) (Stellar.step testnet {}) (Issues shop) (Sound testnet) ⟨⟨{}, 0⟩, []⟩
      (quotedFor ⟨2000000⟩)).any (fun c => c.world.store.invoices.length = 1 &&
        c.world.store.invoices.all fun i => i.amount = "20.0000000") = true := by decide +kernel
  obtain ⟨c, hr, hc⟩ := reaches_of_run hrun
  simp only [Bool.and_eq_true, decide_eq_true_eq, List.all_eq_true] at hc
  obtain ⟨i, hi⟩ := List.length_eq_one_iff.1 hc.1
  have hmem : i ∈ c.world.store.invoices := by rw [hi]; exact List.mem_singleton_self i
  exact ⟨c, i, hr, hi, hc.2 i hmem, issued_payable (by decide +kernel) hr hmem⟩

def everyone (_ : Request) : Prop := True

instance : DecidablePred everyone := fun _ => inferInstanceAs (Decidable True)

/-- Whoever asks for a quote of minus five dollars is given one. -/
theorem negative_quote : StreamScans.Money.parse (.str "-5") = .ok ⟨-5000000⟩ ∧ Priced shop.catalog ∧
    ∃ c i, Reaches (body shop) (Stellar.step testnet {}) everyone (Sound testnet) ⟨{}, 0⟩ c ∧
      c.world.store.invoices = [i] ∧ i.amount = "-50.0000000" ∧ i.tokens = 0 ∧ ¬ Payable i := by
  have hrun : (run (body shop) (Stellar.step testnet {}) everyone (Sound testnet) ⟨⟨{}, 0⟩, []⟩
      (quotedFor ⟨-5000000⟩)).any (fun c => c.world.store.invoices.length = 1 &&
        c.world.store.invoices.all fun i => i.amount = "-50.0000000" && i.tokens = 0) = true := by decide +kernel
  obtain ⟨c, hr, hc⟩ := reaches_of_run hrun
  simp only [Bool.and_eq_true, decide_eq_true_eq, List.all_eq_true] at hc
  obtain ⟨i, hi⟩ := List.length_eq_one_iff.1 hc.1
  have hmem : i ∈ c.world.store.invoices := by rw [hi]; exact List.mem_singleton_self i
  obtain ⟨hamount, htokens⟩ := hc.2 i hmem
  refine ⟨by decide +kernel, by decide +kernel, c, i, hr, hi, hamount, htokens, fun h => ?_⟩
  have hpositive := h.tokens
  omega

end CodeZard.Quotes
