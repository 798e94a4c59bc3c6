import CodeZard.Magnitudes
import CodeZard.Stellar

namespace CodeZard.Envelopes

open Decimals Invoices Magnitudes Ports Products Stellar Stroops Values

variable {config : StellarConfig} {out : Outside} {sdk : Sdk} {i : Invoice} {envelope : Envelope} {transaction : String}

def toInvoice (i : Invoice) : Operation → Bool
  | .payment destination asset _ => destination = i.destination && assetCode asset = upper i.asset
  | .other => false

/-- The amount of an operation, of so many stroops, as the dependency writes it. -/
def Reads (text : String) (stroops : Nat) : Prop :=
  stroops < 2 ^ 63 ∧
    ∃ c e, parse text = some (.finite false c e) ∧ STROOPS ≤ e ∧ c * 10 ^ (e - STROOPS).toNat = stroops

/-- Amounts are counted in stroops, in as many as fit a signed word. -/
def Whole (operations : List Operation) : Prop :=
  ∀ destination asset text, .payment destination asset text ∈ operations → ∃ n, Reads text n

def owed (i : Invoice) : ℚ := value (decimalOf (.str i.amount))

def inStroops (n : Nat) : ℚ := n * 10 ^ STROOPS

/-- What makes an envelope one that pays an invoice on the configured network. -/
structure Pays (config : StellarConfig) (sdk : Sdk) (i : Invoice) (envelope : Envelope) (v : VerifyResult) : Prop where
  memo : envelope.memo = some i.id
  signed : ∃ digest s, sdk.hash config.passphrase envelope = some digest ∧ sdk.isKey envelope.source = true ∧
    s ∈ envelope.signatures ∧ sdk.verifies envelope.source digest s = true
  timeBounds : envelope.timeBounds.isSome = true
  payer : v.payer = envelope.source
  paid : ∃ asset text n, envelope.operations.find? (toInvoice i) = some (.payment i.destination asset text) ∧
    Reads text n ∧ owed i ≤ inStroops n ∧ v.amount = Stroops.text (.finite false n STROOPS)

/-- Some other check refuses the envelope. -/
def Refused (config : StellarConfig) (sdk : Sdk) (i : Invoice) (envelope : Envelope) : Prop :=
  envelope.memo.getD "" ≠ i.memo ∨ signedBy config sdk envelope envelope.source = false ∨
    ∀ asset text n, envelope.operations.find? (toInvoice i) = some (.payment i.destination asset text) →
      Reads text n → inStroops n < owed i

theorem decimalOf_of_reads {text : String} {n : Nat} (h : Reads text n) :
    ∃ c e, decimalOf (.str text) = .finite false c e ∧ STROOPS ≤ e ∧ c * 10 ^ (e - STROOPS).toNat = n := by
  obtain ⟨_, c, e, hp, he, hn⟩ := h
  have hne : text ≠ "" := by
    rintro rfl
    have hempty : parse "" = none := by decide +kernel
    rw [hempty] at hp
    cases hp
  refine ⟨c, e, ?_, he, hn⟩
  simp [decimalOf, Json.or, Json.truthy, Json.text, hne, hp, isFinite]

theorem value_of_reads {text : String} {n : Nat} (h : Reads text n) :
    value (decimalOf (.str text)) = inStroops n := by
  obtain ⟨c, e, hd, he, hn⟩ := decimalOf_of_reads h
  rw [hd, value_scaled false c he, hn]
  simp [signed, inStroops]

theorem amount_of_reads {text : String} {n : Nat} (h : Reads text n) :
    amount (decimalOf (.str text)) = .ok (Stroops.text (.finite false n STROOPS)) := by
  obtain ⟨c, e, hd, he, hn⟩ := decimalOf_of_reads h
  have hfits : c * 10 ^ (e - STROOPS).toNat < 10 ^ precision := by
    rw [hn]
    exact lt_trans h.1 (by decide)
  rw [hd, amount, quantizeStroops_of_lt he hfits, hn]
  rfl

theorem decimalOf_finite (j : Json) : ∃ s c e, decimalOf j = .finite s c e := by
  unfold decimalOf
  split
  · rename_i d _
    cases d with
    | finite s c e => exact ⟨s, c, e, rfl⟩
    | infinity s => exact ⟨false, 0, 0, rfl⟩
    | nan s => exact ⟨false, 0, 0, rfl⟩
  · exact ⟨false, 0, 0, rfl⟩

theorem le_owed {text : String} {n : Nat} (h : Reads text n) :
    le (decimalOf (.str i.amount)) (decimalOf (.str text)) = .ok (decide (owed i ≤ inStroops n)) := by
  obtain ⟨s, c, e, ho⟩ := decimalOf_finite (.str i.amount)
  obtain ⟨d, f, hd, _, _⟩ := decimalOf_of_reads h
  rw [← value_of_reads h, owed, ho, hd]
  exact le_finite s false c d e f

theorem deciding_eq_some {operations : List Operation} {asset : Asset} {text : String} :
    deciding i operations = some (asset, text) ↔
      operations.find? (toInvoice i) = some (.payment i.destination asset text) := by
  induction operations with
  | nil => simp [deciding]
  | cons o rest ih =>
      cases o with
      | other => simpa [deciding, toInvoice] using ih
      | payment destination a x =>
          rw [deciding]
          by_cases hd : destination = i.destination <;> by_cases ha : assetCode a = upper i.asset <;>
            simp [toInvoice, hd, ha, ih]

theorem signedBy_eq_true {address : String} : signedBy config sdk envelope address = true ↔
    ∃ digest s, sdk.hash config.passphrase envelope = some digest ∧ sdk.isKey address = true ∧
      s ∈ envelope.signatures ∧ sdk.verifies address digest s = true := by
  unfold signedBy
  cases sdk.hash config.passphrase envelope with
  | none => simp
  | some digest => simp

theorem mem_of_deciding {operations : List Operation} {asset : Asset} {text : String}
    (h : deciding i operations = some (asset, text)) : .payment i.destination asset text ∈ operations :=
  List.mem_of_find?_eq_some (deciding_eq_some.1 h)

theorem verify_eq (hsdk : out.sdk = some sdk) (hx : sdk.fromXdr transaction config.passphrase = .ok envelope)
    (hamounts : Whole envelope.operations) :
    ∃ v, verify config out transaction i = .ok v ∧
      (v.valid = true → v.payer = envelope.source ∧ envelope.memo.getD "" = i.memo ∧
        signedBy config sdk envelope envelope.source = true ∧
        ∃ asset text n, deciding i envelope.operations = some (asset, text) ∧ Reads text n ∧ owed i ≤ inStroops n ∧
          v.amount = Stroops.text (.finite false n STROOPS)) ∧
      (v.valid = false → Refused config sdk i envelope) := by
  unfold verify
  rw [hsdk]
  dsimp only
  rw [hx]
  dsimp only
  by_cases hmemo : envelope.memo.getD "" = i.memo
  swap
  · rw [if_pos hmemo]
    exact ⟨_, rfl, by simp, fun _ => .inl hmemo⟩
  rw [if_neg (not_not.2 hmemo)]
  by_cases hsigned : signedBy config sdk envelope envelope.source = true
  swap
  · rw [Bool.not_eq_true] at hsigned
    rw [if_pos (by simp [hsigned])]
    exact ⟨_, rfl, by simp, fun _ => .inr (.inl hsigned)⟩
  rw [if_neg (by simp [hsigned])]
  cases hd : deciding i envelope.operations with
  | none =>
      refine ⟨_, rfl, by simp, fun _ => .inr (.inr fun asset text n hf => ?_)⟩
      rw [← deciding_eq_some, hd] at hf
      cases hf
  | some paid =>
      obtain ⟨asset, text⟩ := paid
      obtain ⟨n, hn⟩ := hamounts _ _ _ (mem_of_deciding hd)
      simp only [amount_of_reads hn, le_owed hn]
      by_cases hle : owed i ≤ inStroops n
      · refine ⟨{ valid := true, payer := envelope.source, amount := Stroops.text (.finite false n STROOPS) }, ?_, ?_, ?_⟩
        · simp [hle, signals]
          rfl
        · exact fun _ => ⟨rfl, hmemo, hsigned, asset, text, n, rfl, hn, hle, rfl⟩
        · simp
      · refine ⟨{ valid := false, payer := envelope.source, amount := Stroops.text (.finite false n STROOPS)
                  reason := "it pays " ++ Stroops.text (.finite false n STROOPS) ++ " and the price is " ++ i.amount }, ?_, ?_, ?_⟩
        · simp [hle, signals]
          rfl
        · simp
        · refine fun _ => .inr (.inr fun asset' text' n' hf hn' => ?_)
          rw [← deciding_eq_some, hd] at hf
          cases hf
          rw [← value_of_reads hn', value_of_reads hn]
          exact not_le.1 hle

/-- Envelopes pay their invoices if they carry time bounds and a memo, or if
something else about them is refused: these two are not asked for. -/
theorem valid_pays_iff (hsdk : out.sdk = some sdk) (hx : sdk.fromXdr transaction config.passphrase = .ok envelope)
    (hamounts : Whole envelope.operations) :
    (∃ v, verify config out transaction i = .ok v ∧ (v.valid = true → Pays config sdk i envelope v)) ↔
      Refused config sdk i envelope ∨ envelope.timeBounds.isSome = true ∧ envelope.memo.isSome = true := by
  obtain ⟨v, hv, hvalid, hinvalid⟩ := verify_eq hsdk hx hamounts (i := i)
  constructor
  · rintro ⟨v', hv', hp⟩
    rw [hv] at hv'
    cases hv'
    cases hc : v.valid with
    | false => exact .inl (hinvalid hc)
    | true =>
        have hpays := hp hc
        exact .inr ⟨hpays.timeBounds, by rw [hpays.memo]; rfl⟩
  · intro h
    refine ⟨v, hv, fun hc => ?_⟩
    obtain ⟨hpayer, hmemo, hsigned, asset, text, n, hd, hn, hle, hamount⟩ := hvalid hc
    rcases h with hr | ⟨hbounds, hm⟩
    · rcases hr with hr | hr | hr
      · exact absurd hmemo hr
      · rw [hsigned] at hr
        cases hr
      · exact absurd hle (not_le.2 (hr asset text n (deciding_eq_some.1 hd) hn))
    · constructor
      · obtain ⟨m, hm⟩ := Option.isSome_iff_exists.1 hm
        rw [hm] at hmemo ⊢
        exact congrArg some hmemo
      · exact signedBy_eq_true.1 hsigned
      · exact hbounds
      · exact hpayer
      · exact ⟨asset, text, n, deciding_eq_some.1 hd, hn, hle, hamount⟩

def testnet : StellarConfig := { destination := "GDEST" }

def order : Invoice where
  id := "cz1"
  account := "GPAYER"
  sku := "x402"
  tokens := 500000
  price := .usd 8
  asset := "XLM"
  amount := "80.0000000"
  destination := "GDEST"
  createdAt := 0
  expiresAt := INVOICE_TTL

/-- A payment of 80 XLM that its source has signed for the test network. -/
def payment (timeBounds : Option TimeBounds) : Envelope where
  source := "GPAYER"
  memo := some "cz1"
  timeBounds := timeBounds
  operations := [.other, .payment "GELSEWHERE" .native "100", .payment "GDEST" .native "80"]
  signatures := ["GPAYER signs Test SDF Network ; September 2015"]

/-- A reading of one envelope, whose hash tells the network alone. -/
def reading (envelope : Envelope) : Sdk where
  fromXdr transaction _ := if transaction = "AAAA" then .ok envelope else .error "it is not an envelope"
  hash passphrase _ := some passphrase
  isKey address := address = "GPAYER"
  verifies address digest signature := signature = address ++ " signs " ++ digest

def paidInFull : VerifyResult := { valid := true, payer := "GPAYER", amount := "80.0000000" }

theorem whole_payment (timeBounds : Option TimeBounds) : Whole (payment timeBounds).operations := by
  intro destination asset text h
  simp only [payment, List.mem_cons, List.not_mem_nil, reduceCtorEq, Operation.payment.injEq, false_or, or_false] at h
  rcases h with ⟨_, _, rfl⟩ | ⟨_, _, rfl⟩
  · exact ⟨1000000000, by decide, 100, 0, by decide +kernel, by decide, by decide⟩
  · exact ⟨800000000, by decide, 80, 0, by decide +kernel, by decide, by decide⟩

theorem valid_pays_bounded :
    verify testnet { sdk := some (reading (payment (some ⟨0, 300⟩))) } "AAAA" order = .ok paidInFull ∧
      Pays testnet (reading (payment (some ⟨0, 300⟩))) order (payment (some ⟨0, 300⟩)) paidInFull := by
  have hv : verify testnet { sdk := some (reading (payment (some ⟨0, 300⟩))) } "AAAA" order = .ok paidInFull := by
    decide +kernel
  obtain ⟨v, hv', hp⟩ : ∃ v, verify testnet { sdk := some (reading (payment (some ⟨0, 300⟩))) } "AAAA" order = .ok v ∧
      (v.valid = true → Pays testnet (reading (payment (some ⟨0, 300⟩))) order (payment (some ⟨0, 300⟩)) v) :=
    (valid_pays_iff rfl rfl (whole_payment _)).2 (.inr ⟨rfl, rfl⟩)
  rw [hv] at hv'
  cases hv'
  exact ⟨hv, hp rfl⟩

/-- An envelope that stays good for ever is found valid. -/
theorem unbounded_found_valid :
    verify testnet { sdk := some (reading (payment none)) } "AAAA" order = .ok paidInFull ∧
      ¬ Pays testnet (reading (payment none)) order (payment none) paidInFull := by
  refine ⟨by decide +kernel, fun h => ?_⟩
  have hb := h.timeBounds
  cases hb

end CodeZard.Envelopes
