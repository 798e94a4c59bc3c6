import CodeZard.BillingService
import CodeZard.Stellar

namespace CodeZard.Counterfeits

open Amounts BillingService Decimals Invoices Ports Programs Products Stellar Stroops Values

/-- The asset that a Horizon record moves. The record of an account that is
created names none, which is the native one. -/
def moved (record : Fields) : Option Asset :=
  match record.lookup "asset_type" with
  | none => some .native
  | some (.str kind) =>
      if kind = "native" then some .native
      else match record.lookup "asset_code", record.lookup "asset_issuer" with
        | some (.str code), some (.str issuer) => if h : code ≠ "" then some (.credit ⟨code, issuer, h⟩) else none
        | _, _ => none
  | _ => none

/-- What was moved is what the invoice was priced in. -/
def Genuine (config : StellarConfig) (asset : String) : Asset → Prop
  | .native => asset = "XLM"
  | .credit a => a.code = "USDC" ∧ a.issuer = config.usdcIssuer ∧ asset = "USDC"

/-- An asset under the code of the invoice, whoever issued it, which is not the
one that the gateway is configured with. -/
def Counterfeit (config : StellarConfig) (asset : String) : Asset → Prop
  | .native => False
  | .credit a => upper a.code = asset ∧ ¬ (a.code = "USDC" ∧ a.issuer = config.usdcIssuer)

section Codes

theorem toUpper_toUpper (c : Char) : c.toUpper.toUpper = c.toUpper := by
  by_cases h : 'a'.val ≤ c.val ∧ c.val ≤ 'z'.val
  · have hv : c.toUpper.val = c.val + ('A'.val - 'a'.val) := by
      delta Char.toUpper
      rw [dif_pos h]
    have hn : ¬ ('a'.val ≤ c.toUpper.val ∧ c.toUpper.val ≤ 'z'.val) := by
      obtain ⟨hl, hr⟩ := h
      have ha : ('a'.val).toNat = 97 := rfl
      have hz : ('z'.val).toNat = 122 := rfl
      have hd : ('A'.val - 'a'.val).toNat = 2 ^ 32 - 32 := rfl
      rw [hv]
      simp only [UInt32.le_iff_toNat_le] at *
      rw [UInt32.toNat_add]
      omega
    exact dif_neg hn
  · have hc : c.toUpper = c := dif_neg h
    rw [hc, hc]

theorem upper_upper (s : String) : upper (upper s) = upper s := by
  rw [upper, upper, String.map_map]
  congr 1
  funext c
  exact toUpper_toUpper c

theorem upper_assetCode (α : Asset) : upper (assetCode α) = assetCode α := by
  cases α with
  | native => decide +kernel
  | credit a => exact upper_upper a.code

theorem genuine_iff_of_code {config : StellarConfig} {asset : String} {α : Asset} (h : assetCode α = asset) :
    Genuine config asset α ↔ ¬ Counterfeit config asset α := by
  cases α with
  | native =>
      have hx : asset = "XLM" := h.symm
      simp [Genuine, Counterfeit, hx]
  | credit a =>
      constructor
      · rintro ⟨hc, hi, _⟩ ⟨_, hn⟩
        exact hn ⟨hc, hi⟩
      · intro hn
        have hconfigured : a.code = "USDC" ∧ a.issuer = config.usdcIssuer := by
          by_contra hne
          exact hn ⟨h, hne⟩
        refine ⟨hconfigured.1, hconfigured.2, ?_⟩
        rw [← h, assetCode, hconfigured.1]
        decide +kernel

end Codes

section Records

variable {time : Json → Datetime} {record : Fields} {p : ObservedPayment} {α : Asset}

theorem asset_payment (hm : moved record = some α) (hp : payment time record = some p) : p.asset = assetCode α := by
  unfold payment at hp
  split at hp
  · cases hp
  cases hp
  unfold moved at hm
  cases ht : record.lookup "asset_type" with
  | none =>
      rw [ht] at hm
      cases hm
      simp [assetCode]
  | some kind =>
      rw [ht] at hm
      cases kind with
      | str kind =>
          dsimp only at hm
          by_cases hk : kind = "native"
          · rw [if_pos hk] at hm
            cases hm
            simp [isText, Json.get, ht, hk, assetCode]
          · rw [if_neg hk] at hm
            split at hm
            · rename_i code issuer hcode hissuer
              split at hm
              · cases hm
                rename_i hne
                have htruthy : (Json.str code).or (.str "?") = .str code := by
                  simp [Json.or, Json.truthy, hne]
                simp [isText, ht, hk, assetCode, Json.get, hcode, htruthy, Json.text]
              · cases hm
            · cases hm
      | _ => cases hm

end Records

section Runs

variable (config : StellarConfig) (out : Outside)

/-- `checkout` issued the invoice to a caller who asked for an asset. -/
def Issued (asset : String) (i : Invoice) : Prop :=
  ∃ g account sku w heard w', g.asset = config.asset ∧
    exec (Stellar.step config out) (checkout g account sku asset) w heard = some (.ok i, w')

/-- `confirm` marked the invoice PAID because of a record: it read the invoice,
which was not PAID, and then a page of Horizon on which this record answers. -/
def PaidBy (i : Invoice) (record : Fields) : Prop :=
  ∃ g w status body p rest o w' j, w.store.invoice i.id = some i ∧ i.status ≠ .paid ∧
    record ∈ records body ∧ payment out.time record = some p ∧
    paymentFor out i (.response status (.ok body)) = .ok (some p) ∧
    exec (Stellar.step config out) (confirm g i.id) w (.plain .done :: .http (.response status (.ok body)) :: rest) =
      some (o, w') ∧
    w'.store.invoice i.id = some j ∧ j.status = .paid

variable {config out} {asset : String} {i : Invoice} {record : Fields} {α : Asset}

theorem always_putInvoice {P : Invoice → Prop} {i : Invoice} (h : P i) (w : World) :
    Always (Stellar.step config out) (fun o _ => ∀ j, o = .ok j → P j) (store.putInvoice i) w := by
  apply always_perform.2
  rintro heard a w' hs j rfl
  obtain ⟨r, _, hs⟩ := step_world hs
  rcases step_putInvoice hs with ⟨x, _, ha, _⟩ | ⟨_, ha, _⟩
  · cases ha
  · cases ha
    exact h

theorem always_asking {c : Ports.Call} {f : c.Answer → Billing Invoice} {P : Invoice → Prop} {w : World}
    (h : ∀ a w, Always (Stellar.step config out) (fun o _ => ∀ j, o = .ok j → P j) (f a) w) :
    Always (Stellar.step config out) (fun o _ => ∀ j, o = .ok j → P j) ((Ports.ask c).bind f) w := by
  apply always_bind.2
  apply always_perform.2
  intro heard a w' _
  cases a with
  | ok a => exact h a w'
  | error e => exact fun j hj => by cases hj

/-- What `checkout` promises: the asset it was asked for, an invoice nobody has
paid, and a product that the gateway sells. -/
theorem issued_terms (h : Issued config out asset i) :
    i.asset = upper (if asset = "" then config.asset else asset) ∧ i.status = .pending ∧
      ∃ (g : Gateway) (product : Product), g.catalog.product i.sku = .ok product := by
  obtain ⟨g, account, sku, w, heard, w', hg, he⟩ := h
  rw [← hg]
  have hissue (product : Product) (kind : String) (hp : g.catalog.product product.id = .ok product) (w : World) :
      Always (Stellar.step config out) (fun o _ => ∀ j, o = .ok j →
        j.asset = upper (if asset = "" then g.asset else asset) ∧ j.status = .pending ∧
          ∃ (g : Gateway) (product : Product), g.catalog.product j.sku = .ok product)
        (checkout.issue g account asset product kind) w := by
    unfold checkout.issue
    by_cases hd : g.destination = ""
    · rw [if_pos hd]
      intro j hj
      cases hj
    · rw [if_neg hd]
      apply always_asking
      intro now w
      apply always_asking
      intro id w
      apply always_asking
      intro amount w
      exact always_putInvoice (P := fun j => j.asset = upper (if asset = "" then g.asset else asset) ∧
        j.status = .pending ∧ ∃ (g : Gateway) (product : Product), g.catalog.product j.sku = .ok product)
        ⟨rfl, rfl, g, product, hp⟩ w
  have hcheckout : Always (Stellar.step config out) (fun o _ => ∀ j, o = .ok j →
      j.asset = upper (if asset = "" then g.asset else asset) ∧ j.status = .pending ∧
        ∃ (g : Gateway) (product : Product), g.catalog.product j.sku = .ok product)
      (checkout g account sku asset) w := by
    unfold checkout
    apply always_bind.2
    cases hp : g.catalog.product sku with
    | error e =>
        intro j hj
        cases hj
    | ok product =>
        have hsold : g.catalog.product product.id = .ok product := by rw [Catalog.product_id hp, hp]
        cases product with
        | pack pack => exact hissue _ _ hsold w
        | plan plan =>
            simp only [ofExcept_ok, Always]
            by_cases hchain : (!plan.isFree && g.chainAvailable) = true
            · rw [if_pos hchain]
              intro j hj
              cases hj
            · rw [if_neg hchain]
              by_cases hfree : plan.isFree = true
              · rw [if_pos hfree]
                intro j hj
                cases hj
              · rw [if_neg hfree]
                exact hissue _ _ hsold w
  exact hcheckout.exec he i rfl

theorem settles_of_paidBy (h : PaidBy config out i record) :
    ∃ p, payment out.time record = some p ∧ p.settles i = .ok true := by
  obtain ⟨g, w, status, body, p, rest, o, w', j, hi, hs, hm, hp, hf, he, hj, hpaid⟩ := h
  refine ⟨p, hp, ?_⟩
  have hexec : exec (Stellar.step config out) ((ofExcept (p.settles i)).bind fun settled =>
      if settled then do
        let paid ← store.putInvoice (i.paid p.txHash p.payer)
        deliver g paid
        return paid
      else return i) w rest = some (o, w') := by
    simpa [confirm, store.invoice, network.paymentFor, Ports.ask, perform, exec, Prog.bind, Stellar.step, reply,
      World.step, hi, hs, hf, replyOf] using he
  have hkept : w' = w → False := by
    rintro rfl
    rw [hi] at hj
    cases hj
    exact hs hpaid
  cases hset : p.settles i with
  | error e =>
      rw [hset] at hexec
      cases rest with
      | nil =>
          cases hexec
          exact (hkept rfl).elim
      | cons r rest => cases hexec
  | ok settled =>
      cases settled with
      | true => rfl
      | false =>
          rw [hset] at hexec
          cases rest with
          | nil =>
              cases hexec
              exact (hkept rfl).elim
          | cons r rest => cases hexec

theorem deciding_asset {operations : List Operation} {paid : String}
    (h : deciding i operations = some (α, paid)) : assetCode α = upper i.asset := by
  induction operations with
  | nil => cases h
  | cons operation rest ih =>
      cases operation with
      | other => exact ih h
      | payment destination asset amount =>
          unfold deciding at h
          split at h
          · exact ih h
          · split at h
            · exact ih h
            · cases h
              exact not_not.1 ‹_›

theorem deciding_of_valid {transaction : String} {v : VerifyResult} (h : verify config out transaction i = .ok v)
    (hv : v.valid = true) : ∃ sdk envelope α paid, out.sdk = some sdk ∧
      sdk.fromXdr transaction config.passphrase = .ok envelope ∧ deciding i envelope.operations = some (α, paid) := by
  unfold verify at h
  cases hsdk : out.sdk with
  | none =>
      rw [hsdk] at h
      cases h
      cases hv
  | some sdk =>
      rw [hsdk] at h
      dsimp only at h
      cases hx : sdk.fromXdr transaction config.passphrase with
      | error message =>
          rw [hx] at h
          cases h
          cases hv
      | ok envelope =>
          rw [hx] at h
          dsimp only at h
          split at h
          · cases h
            cases hv
          · split at h
            · cases h
              cases hv
            · cases hd : deciding i envelope.operations with
              | none =>
                  rw [hd] at h
                  cases h
                  cases hv
              | some p => exact ⟨sdk, envelope, p.1, p.2, rfl, hx, hd⟩

end Runs

/-- A payment of an amount in a credit asset, as Horizon records it. -/
def record (i : Invoice) (a : CreditAsset) : Fields := [
  ("type", .str "payment"),
  ("transaction", .dict [("memo_type", .str "text"), ("memo", .str i.memo)]),
  ("transaction_hash", .str "T"), ("from", .str "GPAYER"), ("to", .str i.destination),
  ("asset_type", .str "credit_alphanum12"), ("asset_code", .str a.code), ("asset_issuer", .str a.issuer),
  ("amount", .str i.amount)]

theorem text_or_null (s : String) : (((Json.str s).or .null).or (.str "")).text = s := by
  by_cases h : s = "" <;> simp [Json.or, Json.truthy, Json.text, h]

theorem text_or (s : String) : ((Json.str s).or (.str "")).text = s := by
  by_cases h : s = "" <;> simp [Json.or, Json.truthy, Json.text, h]

theorem settles_record {i : Invoice} {a : CreditAsset} {n : Nat} (time : Json → Datetime)
    (ha : upper a.code = upper i.asset) (hn : parse i.amount = some (.finite false n STROOPS)) (hlt : n < 10 ^ 26) :
    moved (record i a) = some (.credit a) ∧ ∃ p, payment time (record i a) = some p ∧ p.settles i = .ok true := by
  have hamount : i.amount ≠ "" := by
    intro h
    have hnone : parse "" = none := by decide +kernel
    rw [h, hnone] at hn
    cases hn
  refine ⟨by simp [moved, record, List.lookup_cons, a.named], _, rfl, ?_⟩
  have hmemo : memoText (record i a) = i.memo := text_or i.memo
  have hdestination : (((Json.get (record i a) "to").or (Json.get (record i a) "account")).or (.str "")).text =
      i.destination := text_or_null i.destination
  have hpaid : (((Json.get (record i a) "amount").or (Json.get (record i a) "starting_balance")).or (.str "0")).text =
      i.amount := by
    have hget : Json.get (record i a) "amount" = .str i.amount := rfl
    simp [hget, Json.or, Json.truthy, Json.text, hamount]
  have hcode : ((Json.get (record i a) "asset_code").or (.str "?")).text = a.code := by
    have hget : Json.get (record i a) "asset_code" = .str a.code := rfl
    simp [hget, Json.or, Json.truthy, Json.text, a.named]
  have hasset : (if (((record i a).lookup "asset_type").isNone || isText (record i a) "asset_type" "native") = true
      then "XLM" else upper ((Json.get (record i a) "asset_code").or (.str "?")).text) = upper a.code := by
    rw [hcode]
    rfl
  have hleast : mul (.finite false n STROOPS) toleranceFactor = .ok (.finite false (n * 99) (-9)) :=
    finalize_of_lt (by unfold precision; omega) (by decide) (by decide)
  have hle : le (.finite false (n * 99) (-9)) (.finite false n STROOPS) = .ok true := by
    simp only [le, signed, STROOPS]
    simp
    omega
  unfold ObservedPayment.settles
  simp only [hmemo, hdestination, hpaid, hasset, hn, upper_upper, ha, hleast, hle, Except.bind]
  simp

/-- A page of Horizon with one record on it. -/
def page (fields : Fields) : Json := .dict [("_embedded", .dict [("records", .list [.dict fields])])]

theorem exec_deliver {config : StellarConfig} {out : Outside} {g : Gateway} {i : Invoice} {product : Product}
    (hproduct : g.catalog.product i.sku = .ok product) {w : World} (hledger : w.store.ledger = [])
    (hsubscriptions : w.store.subscriptions = []) :
    ∃ rest o w', exec (Stellar.step config out) ((deliver g i).bind fun _ => .ret i) w rest = some (o, w') ∧
      w'.store.invoices = w.store.invoices := by
  by_cases hneg : i.tokens < 0
  · refine ⟨[], .error (.billing "a credit cannot be negative; use a debit"), w, ?_, rfl⟩
    cases product with
    | pack pack => simp [deliver, hproduct, credit, hneg, Prog.bind, exec]
    | plan plan => simp [deliver, hproduct, credit, hneg, Prog.bind, exec]
  · have happend (e : Ledgers.LedgerEntry) : w.store.append e = (.ok e, { w.store with ledger := [e] }) := by
      rcases w.store.append_cases e with ⟨x, hx, _⟩ | ⟨x, hx, _⟩ | ⟨_, _, h⟩
      · simp [hledger] at hx
      · simp [hledger] at hx
      · rw [h, hledger, List.nil_append]
    have hnone (ledger : List Ledgers.LedgerEntry) :
        (⟨ledger, w.store.invoices, []⟩ : Storage.Store).subscription i.account = none := rfl
    cases product with
    | pack pack =>
        refine ⟨[.plain (.text "e1"), .plain (.time w.clock), .plain .done], .ok i, ?_⟩
        simp [deliver, hproduct, credit, hneg, Prog.bind, exec, Ports.ask, perform, Stellar.step, reply, World.step,
          happend, store.append, entryId, nowUtc]
    | plan plan =>
        refine ⟨[.plain (.text "e1"), .plain (.time w.clock), .plain .done, .plain (.time w.clock), .plain .done,
          .plain .done], .ok i, ?_⟩
        simp [deliver, hproduct, credit, subscribe, hneg, Prog.bind, exec, Ports.ask, perform, Stellar.step, reply,
          World.step, happend, store.append, store.subscription, store.putSubscription, entryId, nowUtc,
          hsubscriptions, hnone, Storage.Store.putSubscription]

theorem paidBy_of_settles {config : StellarConfig} {out : Outside} {g : Gateway} {i : Invoice} {product : Product}
    {fields : Fields} {p : ObservedPayment} (hproduct : g.catalog.product i.sku = .ok product)
    (hp : payment out.time fields = some p) (hs : p.settles i = .ok true) (hpending : i.status = .pending) :
    PaidBy config out i fields := by
  have hmemo : p.memo = i.memo := (ObservedPayment.settles_ok hs).1.1
  have hfound : paymentFor out i (.response 200 (.ok (page fields))) = .ok (some p) := by
    simp [paymentFor, records, page, Json.get, hp, hmemo]
  let w : World := { store := { invoices := [i] } }
  let paid := i.paid p.txHash p.payer
  let marked : World := { w with store := w.store.putInvoice paid }
  have hstored : w.store.invoice i.id = some i := by simp [w, Storage.Store.invoice, Tables.row]
  have hsold : g.catalog.product paid.sku = .ok product := hproduct
  obtain ⟨rest, o, w', hdelivered, hkept⟩ : ∃ rest o w', exec (Stellar.step config out)
      ((deliver g paid).bind fun _ => .ret paid) marked rest = some (o, w') ∧
        w'.store.invoices = marked.store.invoices := exec_deliver hsold rfl rfl
  have hexec : exec (Stellar.step config out) (confirm g i.id) w
      (.plain .done :: .http (.response 200 (.ok (page fields))) :: .plain .done :: rest) = some (o, w') := by
    simpa [confirm, store.invoice, network.paymentFor, store.putInvoice, Ports.ask, perform, exec, Prog.bind,
      Stellar.step, reply, World.step, hstored, hpending, hfound, replyOf, hs] using hdelivered
  have hself := Storage.Store.invoice_putInvoice_self w.store paid
  rw [show paid.id = i.id from rfl, hstored] at hself
  have hmarked : w'.store.invoice i.id = marked.store.invoice i.id := by
    simp only [Storage.Store.invoice, hkept]
  refine ⟨g, w, 200, page fields, p, .plain .done :: rest, o, w', _, hstored, by simp [hpending], ?_, hp, hfound,
    hexec, hmarked.trans hself, rfl⟩
  simp [records, page, Json.get]

/-- The asset of what settles an invoice is what it was priced in, unless it is
one of those that anybody may issue under its code, and each of these does pay. -/
theorem genuine_payments (config : StellarConfig) (out : Outside) {asset : String} {i : Invoice}
    (hi : Issued config out asset i) :
    (∀ j record α, i.SameTerms j → moved record = some α → PaidBy config out j record →
        (Genuine config i.asset α ↔ ¬ Counterfeit config i.asset α)) ∧
      (∀ j transaction v, i.SameTerms j → verify config out transaction j = .ok v → v.valid = true →
        ∃ sdk envelope α paid, out.sdk = some sdk ∧ sdk.fromXdr transaction config.passphrase = .ok envelope ∧
          deciding j envelope.operations = some (α, paid) ∧
          (Genuine config i.asset α ↔ ¬ Counterfeit config i.asset α)) ∧
      ∀ a n, Counterfeit config i.asset (.credit a) → parse i.amount = some (.finite false n STROOPS) → n < 10 ^ 26 →
        ¬ Genuine config i.asset (.credit a) ∧ moved (record i a) = some (.credit a) ∧
          PaidBy config out i (record i a) := by
  obtain ⟨hasset, hpending, g, product, hproduct⟩ := issued_terms hi
  have hupper : upper i.asset = i.asset := by rw [hasset, upper_upper]
  refine ⟨fun j record α hj hm hp => ?_, fun j transaction v hj hv hvalid => ?_, fun a n hc hn hlt => ?_⟩
  · obtain ⟨p, hp, hs⟩ := settles_of_paidBy hp
    have hsame : j.asset = i.asset := (congrArg Invoice.asset hj).symm
    have hcode := (ObservedPayment.settles_ok hs).2
    rw [asset_payment hm hp, upper_assetCode, hsame, hupper] at hcode
    exact genuine_iff_of_code hcode
  · obtain ⟨sdk, envelope, α, paid, hsdk, hx, hd⟩ := deciding_of_valid hv hvalid
    have hsame : j.asset = i.asset := (congrArg Invoice.asset hj).symm
    refine ⟨sdk, envelope, α, paid, hsdk, hx, hd, ?_⟩
    apply genuine_iff_of_code
    rw [deciding_asset hd, hsame, hupper]
  · obtain ⟨hm, p, hp, hs⟩ := settles_record out.time (hc.1.trans hupper.symm) hn hlt
    have hcode : assetCode (.credit a) = i.asset := hc.1
    exact ⟨fun hg => (genuine_iff_of_code hcode).1 hg hc, hm, paidBy_of_settles hproduct hp hs hpending⟩

def usdc : StellarConfig := { destination := "GDEST", asset := "USDC", usdcIssuer := "GCIRCLE" }

def bought : Invoice where
  id := "cz1"
  account := "A"
  sku := "tokens-1m"
  tokens := 1000000
  price := .usd 8
  asset := "USDC"
  amount := "8.0000000"
  destination := "GDEST"
  createdAt := 0
  expiresAt := INVOICE_TTL

def shop : Gateway := { catalog := defaultCatalog, asset := "USDC", destination := "GDEST" }

theorem shop_sells : shop.catalog.product bought.sku = .ok (.pack ⟨"tokens-1m", "1M tokens", .usd 8, 1000000⟩) := rfl

theorem issued_bought : Issued usdc {} "usdc" bought := by
  have hrun : (exec (Stellar.step usdc {}) (checkout shop "A" "tokens-1m" "usdc") {}
      [.plain (.time 0), .plain (.text "cz1"), .http (.unreachable ""), .plain .done]).map Prod.fst =
        some (.ok bought) := by
    decide +kernel
  obtain ⟨⟨o, w⟩, he, rfl⟩ := Option.map_eq_some_iff.1 hrun
  exact ⟨_, _, _, _, _, _, rfl, he⟩

def issuedBy (issuer : String) : CreditAsset := ⟨"USDC", issuer, by decide⟩

theorem parse_bought : parse bought.amount = some (.finite false 80000000 STROOPS) := by decide +kernel

theorem genuine_payments_bought :
    PaidBy usdc {} bought (record bought (issuedBy "GCIRCLE")) ∧
      Genuine usdc bought.asset (.credit (issuedBy "GCIRCLE")) := by
  obtain ⟨hm, p, hp, hs⟩ := settles_record (a := issuedBy "GCIRCLE") (fun _ => 0) (by decide +kernel) parse_bought
    (by decide)
  have hpaid : PaidBy usdc {} bought (record bought (issuedBy "GCIRCLE")) := paidBy_of_settles shop_sells hp hs rfl
  refine ⟨hpaid, ((genuine_payments usdc {} issued_bought).1 bought _ _ rfl hm hpaid).2 ?_⟩
  simp [Counterfeit, usdc, issuedBy]

/-- Dollars that somebody else issued pay for the tokens. -/
theorem counterfeit_paid :
    ¬ ∀ config out asset i fields α, config.asset = "XLM" ∨ (config.asset = "USDC" ∧ config.usdcIssuer ≠ "") →
      Issued config out asset i → moved fields = some α → PaidBy config out i fields →
      Genuine config i.asset α := by
  intro h
  obtain ⟨hm, p, hp, hs⟩ := settles_record (a := issuedBy "GMALLORY") (fun _ => 0) (by decide +kernel) parse_bought
    (by decide)
  have hg := h usdc {} "usdc" bought _ _ (by decide) issued_bought hm (paidBy_of_settles shop_sells hp hs rfl)
  exact absurd hg.2.1 (by decide)

end CodeZard.Counterfeits
