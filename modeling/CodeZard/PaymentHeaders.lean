import CodeZard.Base64
import CodeZard.Reloads
import CodeZard.Sessions
import CodeZard.X402Service

namespace CodeZard.PaymentHeaders

open RunLogs Values Documents Decimals Amounts Ports Base64
open JsonTexts (Floats loads)
open Reloads (Legible LegibleFields)
open Spellings (Blanks Spells)

def X402_VERSION : Int := 1

def MAX_PAYLOAD_BYTES : Nat := 16 * 1024

/-- What the client put in the header. -/
structure PaymentPayload where
  scheme : String
  network : String
  payload : Fields
  x402Version : Int := X402_VERSION

namespace PaymentPayload

/-- The signed envelope, `""` when the client sent none. -/
def transaction (p : PaymentPayload) : String :=
  match Json.get p.payload "transaction" with
  | .str s => s
  | _ => ""

/-- `str(payload.payload.get("invoice") or "")`. -/
def invoice (p : PaymentPayload) : String := ((Json.get p.payload "invoice").or (.str "")).text

def asJson (p : PaymentPayload) : Json :=
  .dict [("x402Version", .int p.x402Version), ("scheme", .str p.scheme), ("network", .str p.network),
    ("payload", .dict p.payload)]

def claimed (p : PaymentPayload) : X402Service.PaymentPayload := ⟨p.scheme, p.network, p.transaction, p.invoice⟩

end PaymentPayload

def spoken : Json → Bool
  | .int n => n = X402_VERSION
  | .bool b => b
  | .float x => x.text = "1.0"
  | _ => false

def payloadOf : Json → Fields
  | .dict inner => inner
  | _ => []

section Decoding

variable (real : Floats) (why : List Char → String)

/-- `PaymentPayload.decode`. What the library says of a text it cannot decode is
an argument. -/
def decode (header : String) : Except Error PaymentPayload :=
  let raw := strip header.toList
  if raw = [] then .error (.x402 "the X-PAYMENT header is empty")
  else if MAX_PAYLOAD_BYTES < raw.length then .error (.x402 "the X-PAYMENT header is too large")
  else match (b64decode raw).bind (loads real) with
    | none => .error (.x402 ("the X-PAYMENT header is not base64 JSON: " ++ why raw))
    | some (.dict body) =>
        let version := Json.get body "x402Version"
        if spoken version then .ok {
          scheme := ((Json.get body "scheme").or (.str "")).text
          network := ((Json.get body "network").or (.str "")).text
          payload := payloadOf (Json.get body "payload")
          x402Version := X402_VERSION }
        else .error (.x402 ("x402 version " ++ version.repr ++ " is not supported; this speaks " ++
          toString X402_VERSION))
    | some _ => .error (.x402 "the X-PAYMENT header is not a JSON object")

/-- `redeem(header, resource)`. -/
def redeem (g : Gateway) (header : String) (resource : String) : Billing (String × SettleResult) :=
  X402Service.redeem g ((decode real why header).map PaymentPayload.claimed) resource

end Decoding

def reasonOf (s : String) : Json := if s = "" then .null else .str s

def settlementJson (r : SettleResult) : Json :=
  .dict [("success", .bool r.success), ("transaction", .str r.transaction), ("network", .str r.network),
    ("payer", .str r.payer), ("errorReason", reasonOf r.reason)]

/-- The value of the header that answers a payment. -/
def encode (r : SettleResult) : String := String.ofList (b64encode (encoded (dumped [','] [':'] (settlementJson r))))

/-- The header of a client that pays, of the text of its JSON. -/
def header (text : List Char) : List Char := b64encode (encoded text)

/-- A body that says a payload, among whatever else it says. -/
structure Says (body : Fields) (p : PaymentPayload) : Prop where
  version : Json.get body "x402Version" = .int p.x402Version
  scheme : Json.get body "scheme" = .str p.scheme
  network : Json.get body "network" = .str p.network
  payload : Json.get body "payload" = .dict p.payload

/-- A header that carries a payload, however its JSON says it. -/
structure Carries (real : Floats) (text : String) (p : PaymentPayload) : Prop where
  version : p.x402Version = X402_VERSION
  written : ∃ body document before after left right, Says body p ∧ Spells real (.value (.dict body)) document ∧
    Blanks before ∧ Blanks after ∧ (∀ c ∈ left, isSpace c = true) ∧ (∀ c ∈ right, isSpace c = true) ∧
      (header (before ++ document ++ after)).length ≤ MAX_PAYLOAD_BYTES ∧
        text.toList = left ++ header (before ++ document ++ after) ++ right

section Texts

variable {real : Floats} {why : List Char → String}

theorem strip_of_ends {cs : List Char} (hne : cs ≠ []) (h : ∀ c ∈ cs, isSpace c = false) {before after : List Char}
    (hb : ∀ c ∈ before, isSpace c = true) (ha : ∀ c ∈ after, isSpace c = true) :
    strip (before ++ cs ++ after) = cs := by
  have hreverse : ∀ c ∈ cs.reverse, isSpace c = false := fun c hc => h c (List.mem_reverse.1 hc)
  have hafter : ∀ c ∈ after.reverse, isSpace c = true := fun c hc => ha c (List.mem_reverse.1 hc)
  have hmiddle : (cs ++ after).dropWhile isSpace = cs ++ after := by
    cases cs with
    | nil => exact absurd rfl hne
    | cons c cs => simp [h c List.mem_cons_self]
  rw [strip, List.append_assoc, List.dropWhile_append_of_pos hb, hmiddle, List.reverse_append,
    List.dropWhile_append_of_pos hafter, dropWhile_of_not_space hreverse, List.reverse_reverse]

theorem not_space {text : List Char} (h : WellFormed text) : ∀ c ∈ text, isSpace c = false := by
  have hall : (List.range 64).all (fun n => isSpace (letter n) = false) = true := by decide
  obtain ⟨letters, k, rfl, hletters, -, -⟩ := h
  intro c hc
  rcases List.mem_append.1 hc with hc | hc
  · obtain ⟨n, rfl⟩ := hletters c hc
    have hmod : letter n = letter (n % 64) := by simp only [letter, Nat.mod_mod]
    rw [hmod]
    exact of_decide_eq_true (List.all_eq_true.1 hall _ (List.mem_range.2 (Nat.mod_lt n (by decide))))
  · rw [List.eq_of_mem_replicate hc]
    decide

theorem says_asJson {p : PaymentPayload} {body : Fields} (h : p.asJson = .dict body) : Says body p := by
  cases h
  constructor <;> simp [Json.get, List.lookup_cons]

theorem decode_of_loads {text : String} {p : PaymentPayload} {body : Fields} (hv : p.x402Version = X402_VERSION)
    (hsaid : Says body p) (hne : strip text.toList ≠ []) (hfits : (strip text.toList).length ≤ MAX_PAYLOAD_BYTES)
    (hl : (b64decode (strip text.toList)).bind (loads real) = some (.dict body)) : decode real why text = .ok p := by
  obtain ⟨scheme, network, payload, version⟩ := p
  obtain rfl : version = X402_VERSION := hv
  have hscheme := Sessions.text_or scheme
  have hnetwork := Sessions.text_or network
  simp only [decode, hne, if_false, not_lt.2 hfits, hl]
  simp [hsaid.version, hsaid.scheme, hsaid.network, hsaid.payload, spoken, payloadOf, hscheme, hnetwork]

theorem decode_refused {text : String} {e : Error} (h : decode real why text = .error e) : ∃ message, e = .x402 message := by
  rw [decode] at h
  dsimp only at h
  split at h
  · cases h
    exact ⟨_, rfl⟩
  split at h
  · cases h
    exact ⟨_, rfl⟩
  split at h
  · cases h
    exact ⟨_, rfl⟩
  · split at h
    · cases h
    · cases h
      exact ⟨_, rfl⟩
  · cases h
    exact ⟨_, rfl⟩

theorem legible_asJson {p : PaymentPayload} (hv : p.x402Version = X402_VERSION)
    (hp : Legible real (.dict p.payload)) : Legible real p.asJson := by
  have hversion : Legible real (.int p.x402Version) := by
    rw [hv, Legible]
    decide
  exact ⟨by simp, hversion, trivial, trivial, hp, trivial⟩

theorem header_ne_nil {text : List Char} (h : text ≠ []) : header text ≠ [] := by
  intro hempty
  have hdecode := b64decode_b64encode (encoded text)
  have hnil : b64decode [] = some [] := rfl
  rw [← header, hempty, hnil, encoded] at hdecode
  cases text with
  | nil => exact h rfl
  | cons c cs =>
      rw [List.flatMap_cons] at hdecode
      exact String.utf8EncodeChar_ne_nil (List.append_eq_nil_iff.1 (Option.some.inj hdecode).symm).1

theorem strip_header {text : List Char} (h : text ≠ []) {left right : List Char} (hl : ∀ c ∈ left, isSpace c = true)
    (hr : ∀ c ∈ right, isSpace c = true) : strip (left ++ header text ++ right) = header text :=
  strip_of_ends (header_ne_nil h) (not_space (wellFormed_b64encode _)) hl hr

theorem spelled_ne_nil {value : Json} {document before after : List Char} (h : Spells real (.value value) document) :
    before ++ document ++ after ≠ [] := by
  obtain ⟨c, rest, rfl, -⟩ := (Spellings.read_spelled h).1
  simp

theorem Carries.ne_empty {text : String} {p : PaymentPayload} (h : Carries real text p) : text ≠ "" := by
  obtain ⟨body, document, before, after, left, right, _, hspells, _, _, _, _, _, htext⟩ := h.written
  rintro rfl
  have hheader : header (before ++ document ++ after) ≠ [] := header_ne_nil (spelled_ne_nil hspells)
  rw [String.toList_empty] at htext
  simp only [List.nil_eq, List.append_eq_nil_iff] at htext
  exact hheader htext.1.2

theorem Carries.decoded {text : String} {p : PaymentPayload} (h : Carries real text p) : decode real why text = .ok p := by
  obtain ⟨body, document, before, after, left, right, hsaid, hspells, hb, ha, hl, hr, hfits, htext⟩ := h.written
  have hne : before ++ document ++ after ≠ [] := spelled_ne_nil hspells
  have hstrip : strip text.toList = header (before ++ document ++ after) := by
    rw [htext]
    exact strip_header hne hl hr
  apply decode_of_loads h.version hsaid
  · rw [hstrip]
    exact header_ne_nil hne
  · rw [hstrip]
    exact hfits
  · rw [hstrip, header, b64decode_b64encode, Option.bind_some]
    exact Reloads.loads_spelled hspells hb ha

theorem carries_written {comma colon : List Char} (hcomma : Blanks comma) (hcolon : Blanks colon) {p : PaymentPayload}
    (hv : p.x402Version = X402_VERSION) (hp : Legible real (.dict p.payload))
    (hfits : (header (dumped (',' :: comma) (':' :: colon) p.asJson)).length ≤ MAX_PAYLOAD_BYTES) :
    Carries real (String.ofList (header (dumped (',' :: comma) (':' :: colon) p.asJson))) p := by
  have hnone : Blanks [] := by simp [Blanks]
  have hspells := Reloads.spells_dumped hcomma hcolon p.asJson (legible_asJson hv hp)
  refine ⟨hv, _, _, [], [], [], [], says_asJson rfl, hspells, hnone, hnone, by simp, by simp, ?_, ?_⟩
  · simpa using hfits
  · simp

def paying : PaymentPayload :=
  { scheme := "exact", network := "stellar-testnet", payload := [("transaction", .str "AAAA"), ("invoice", .str "inv_1")] }

def terse : List Char := dumped [','] [':'] paying.asJson

theorem carries_paying (real : Floats) : Carries real (String.ofList (header terse)) paying := by
  apply carries_written (by simp [Blanks]) (by simp [Blanks]) rfl
  · refine ⟨by simp [paying], ?_⟩
    exact ⟨trivial, trivial, trivial⟩
  · decide +kernel

/-- What a header that is accepted looks like, and that a header written anew
from what was read is read the same. -/
structure Accepted (real : Floats) (why : List Char → String) (text : String) (p : PaymentPayload) : Prop where
  present : strip text.toList ≠ []
  bounded : (strip text.toList).length ≤ MAX_PAYLOAD_BYTES
  base64 : ∃ core k, strip text.toList = core ++ List.replicate k '=' ∧ WellFormed core ∧ (0 < k → '=' ∉ core)
  version : p.x402Version = X402_VERSION
  rewritten : ∀ comma colon : List Char, Blanks comma → Blanks colon →
    (header (dumped (',' :: comma) (':' :: colon) p.asJson)).length ≤ MAX_PAYLOAD_BYTES →
      decode real why (String.ofList (header (dumped (',' :: comma) (':' :: colon) p.asJson))) = .ok p

theorem legible_lookup {fields : Fields} (h : LegibleFields real fields) (key : String) :
    Legible real (Json.get fields key) := by
  induction fields with
  | nil => trivial
  | cons x xs ih =>
      obtain ⟨k, value⟩ := x
      rw [Json.get, List.lookup_cons]
      split
      · exact h.1
      · exact ih h.2

theorem faithful_nan : Reloads.Faithful fun _ => JsonTexts.nan := by
  have hunsigned {sign cs : List Char} {found : Json × List Char} {x : Values.Real}
      (h : JsonTexts.scanUnsigned (fun _ => JsonTexts.nan) sign cs = some found) (hx : found.1 = .float x) :
      x = JsonTexts.nan := by
    obtain ⟨⟨whole, rest⟩, _, h⟩ := Option.bind_eq_some_iff.1 h
    simp only at h
    split at h
    · split at h
      · cases h
      · cases h
        cases hx
    · cases h
      cases hx
      rfl
  intro cs x rest h
  refine .inr (.inl ?_)
  cases cs with
  | nil => cases h
  | cons c cs =>
      rw [JsonTexts.scanNumber] at h
      split at h
      · exact hunsigned h rfl
      · exact hunsigned h rfl

/-- The answer to a payment can be read as it was written, goes into a header as
it is, and tells one settlement from another. -/
theorem encode_told (real : Floats) (r : SettleResult) :
    (b64decode (encode r).toList).bind (loads real) = some (settlementJson r) ∧ WellFormed (encode r).toList ∧
      ∀ r', encode r' = encode r → r' = r := by
  have hread (r : SettleResult) : (b64decode (encode r).toList).bind (loads real) = some (settlementJson r) := by
    have hlegible : Legible real (settlementJson r) := by
      refine ⟨by simp, trivial, trivial, trivial, trivial, ?_, trivial⟩
      rw [reasonOf]
      split <;> trivial
    rw [encode, String.toList_ofList, b64decode_b64encode, Option.bind_some]
    exact Reloads.loads_encoded (by simp [Blanks]) (by simp [Blanks]) hlegible
  refine ⟨hread r, ?_, fun r' h => ?_⟩
  · rw [encode, String.toList_ofList]
    exact wellFormed_b64encode _
  · have hjson := hread r'
    rw [h, hread r] at hjson
    obtain ⟨success, network, transaction, payer, reason⟩ := r
    obtain ⟨success', network', transaction', payer', reason'⟩ := r'
    simp only [settlementJson, Option.some.injEq, Json.dict.injEq, List.cons.injEq, Prod.mk.injEq, Json.bool.injEq,
      Json.str.injEq, true_and, and_true] at hjson
    obtain ⟨rfl, rfl, rfl, rfl, hreason⟩ := hjson
    have hsame : reason = reason' := by
      simp only [reasonOf] at hreason
      split at hreason <;> split at hreason
      · exact ‹reason = ""›.trans ‹reason' = ""›.symm
      · cases hreason
      · cases hreason
      · exact Json.str.inj hreason
    rw [hsame]

end Texts

end CodeZard.PaymentHeaders
