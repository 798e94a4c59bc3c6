import CodeZard.Documents
import CodeZard.Interleaving

namespace CodeZard.Identity

open Programs Interleaving Documents Values Decimals
open RunLogs (Bytes)

def CHALLENGE_TTL_S : Int := 300

def SESSION_TTL_S : Int := 12 * 3600

def MAX_TOKEN_BYTES : Nat := 4096

def identityError (message : String) : Failure := .exception "IdentityError" message

def unverifiableError (message : String) : Failure := .exception "UnverifiableError" message

/-- `\AG[A-Z2-7]{55}\Z`. -/
def isAddress (value : String) : Bool :=
  match value.toList with
  | 'G' :: rest => rest.length = 55 && rest.all fun c => ('A' ≤ c && c ≤ 'Z') || ('2' ≤ c && c ≤ '7')
  | _ => false

/-- What the wallet must sign. -/
structure Challenge where
  address : String
  nonce : String
  issuedAt : Int
  audience : String
  deriving DecidableEq, Repr

namespace Challenge

def message (c : Challenge) : String :=
  "CodeZard sign-in\naccount: " ++ c.address ++ "\naudience: " ++ c.audience ++ "\nissued: " ++
    toString c.issuedAt ++ "\nnonce: " ++ c.nonce

def expired (c : Challenge) (now : Int) : Bool := CHALLENGE_TTL_S < now - c.issuedAt

def claims (c : Challenge) : Fields :=
  [("a", .str c.address), ("n", .str c.nonce), ("i", .int c.issuedAt), ("d", .str c.audience)]

end Challenge

structure Session where
  address : String
  expiresAt : Int
  deriving DecidableEq, Repr

def Session.claims (s : Session) : Fields := [("a", .str s.address), ("e", .int s.expiresAt)]

structure Settings where
  audience : String := "codezard"
  sessionTtlS : Int := SESSION_TTL_S

/-- `int(text)`. -/
def integerText (s : String) : Except Failure Int :=
  let (negative, cs) := splitSign (intStrip s.toList)
  match intDigits cs with
  | none => .error (.exception "ValueError" ("invalid literal for int() with base 10: " ++
      String.ofList ((Json.quoted s).toList.take 200)))
  | some ds =>
      if 4300 < ds.length then .error (.exception "ValueError"
        ("Exceeds the limit (4300 digits) for integer string conversion: value has " ++ toString ds.length ++
          " digits; use sys.set_int_max_str_digits() to increase the limit"))
      else .ok (signed negative (natOf ds))

def notReal (kind : String) : Failure := .exception "TypeError"
  ("int() argument must be a string, a bytes-like object or a real number, not '" ++ kind ++ "'")

/-- `int(value)`. -/
def integer : Json → Except Failure Int
  | .null => .error (notReal "NoneType")
  | .bool b => .ok (if b then 1 else 0)
  | .int n => .ok n
  | .float x =>
      if x.text = "nan" then .error (.exception "ValueError" "cannot convert float NaN to integer")
      else if x.text = "inf" ∨ x.text = "-inf" then
        .error (.exception "OverflowError" "cannot convert float infinity to integer")
      else .ok x.whole
  | .str s => integerText s
  | .list _ => .error (notReal "list")
  | .dict _ => .error (notReal "dict")

/-- `str(claims.get(key) or "")`. -/
def textClaim (claims : Fields) (key : String) : String := ((Json.get claims key).or (.str "")).text

/-- `int(claims.get(key) or 0)`. -/
def intClaim (claims : Fields) (key : String) : Except Failure Int := integer ((Json.get claims key).or (.int 0))

def challengeOf (claims : Fields) : Except Failure Challenge :=
  (intClaim claims "i").map fun issuedAt =>
    ⟨textClaim claims "a", textClaim claims "n", issuedAt, textClaim claims "d"⟩

def malformed : Failure := identityError "that token is malformed"

@[irreducible] def parts (token : String) : Except Failure (Bytes × Bytes) :=
  let raw := strip token.toList
  if raw = [] ∨ MAX_TOKEN_BYTES < raw.length then .error (identityError "no token was sent")
  else
    let (head, tail) := raw.span fun c => c ≠ '.'
    if tail.drop 1 = [] then .error malformed
    else match unb64 head, unb64 (tail.drop 1) with
      | some body, some signature => .ok (body, signature)
      | _, _ => .error malformed

/-- What the service asks of the key it seals with, of the clock, of the source
of nonces and of the verifier. A wallet signs on its own. -/
inductive Call
  | seal_ (claims : Fields)
  | compareDigest (signature body : Bytes)
  | time
  | tokenHex
  | available
  | check (address message signature : String)
  | sign (address message : String)

abbrev Call.Answer : Call → Type
  | .seal_ _ | .tokenHex => String
  | .time => Nat
  | .compareDigest .. | .available | .check .. => Bool
  | .sign .. => Unit

inductive Reply
  | done
  | now (seconds : Nat)
  | text (s : String)
  | verdict (b : Bool)
  deriving DecidableEq, Repr

/-- The bodies that were sealed, and the texts that the wallets signed. -/
structure World where
  sealed : List Bytes := []
  signed : List (String × String) := []

def tokenOf (mac : Bytes → Bytes) (body : Bytes) : String := String.ofList (b64 body ++ '.' :: b64 (mac body))

def World.step (mac : Bytes → Bytes) : Step Call Call.Answer Failure World Reply
  | w, .seal_ claims, .done =>
      some (.ok (tokenOf mac (compact claims)), { w with sealed := compact claims :: w.sealed })
  | w, .compareDigest signature body, .done => some (.ok (decide (signature = mac body)), w)
  | w, .time, .now seconds => some (.ok seconds, w)
  | w, .tokenHex, .text s => some (.ok s, w)
  | w, .available, .verdict b => some (.ok b, w)
  | w, .check .., .verdict b => some (.ok b, w)
  | w, .sign address message, .done => some (.ok (), { w with signed := (address, message) :: w.signed })
  | _, _, _ => none

abbrev Identified := Prog Call Call.Answer Failure

def ask (c : Call) : Identified c.Answer := perform c

variable (settings : Settings) (loads : Bytes → Except String Json)

/-- `_open`. -/
def opened (token : String) : Identified Fields := do
  let (body, signature) ← ofExcept (parts token)
  let same : Bool ← ask (.compareDigest signature body)
  if !same then .raise (identityError "that token was not issued by this gateway")
  else match loads body with
    | .ok (.dict claims) => return claims
    | _ => .raise malformed

inductive Response
  | challenge (c : Challenge) (token : String)
  | session (s : Session) (token : String)
  | account (address : String)
  | signed
  deriving DecidableEq, Repr

def challenge (address : String) : Identified Response :=
  if !isAddress address then .raise (identityError "that is not a Stellar public key")
  else do
    let available : Bool ← ask .available
    if !available then .raise (unverifiableError ("this gateway cannot verify signatures: the Stellar dependency is not " ++
      "installed (pip install -e \".[stellar]\")"))
    else do
      let nonce ← ask .tokenHex
      let now : Nat ← ask .time
      let issued : Challenge := ⟨address, nonce, now, settings.audience⟩
      let token ← ask (.seal_ issued.claims)
      return .challenge issued token

/-- The address comes out of the challenge and never out of the request. -/
def verify (token signature : String) : Identified Response := do
  let claims ← opened loads token
  let issued ← ofExcept (challengeOf claims)
  if issued.audience ≠ settings.audience then
    .raise (identityError "that challenge was issued for a different service")
  else do
    let now : Nat ← ask .time
    if issued.expired now then .raise (identityError "that challenge expired; ask for a new one")
    else do
      let available : Bool ← ask .available
      if !available then .raise (unverifiableError "this gateway cannot verify signatures")
      else do
        let genuine : Bool ← ask (.check issued.address issued.message signature)
        if !genuine then .raise (identityError "the signature does not match that account")
        else do
          let later : Nat ← ask .time
          let session : Session := ⟨issued.address, later + settings.sessionTtlS⟩
          let token ← ask (.seal_ session.claims)
          return .session session token

/-- The address that a session token proves. -/
def accountOf (token : String) : Identified Response := do
  let claims ← opened loads token
  let address := textClaim claims "a"
  let expiresAt ← ofExcept (intClaim claims "e")
  if !isAddress address then .raise (identityError "that token does not name an account")
  else do
    let now : Nat ← ask .time
    if expiresAt ≤ now then .raise (identityError "that session expired; sign in again")
    else return .account address

/-- The three moves of the service, and a wallet that signs a text. -/
inductive Request
  | challenge (address : String)
  | verify (token signature : String)
  | accountOf (token : String)
  | sign (address message : String)
  deriving DecidableEq, Repr

def body : Request → Identified Response
  | .challenge address => challenge settings address
  | .verify token signature => verify settings loads token signature
  | .accountOf token => accountOf loads token
  | .sign address message => do
      ask (.sign address message)
      return .signed

def sameJson : Json → Json → Bool
  | .null, .null => true
  | .str s, .str t => s = t
  | .int m, .int n => m = n
  | _, _ => false

def reads (claims : Fields) : Bool :=
  match loads (compact claims) with
  | .ok (.dict fields) => ["a", "d", "e", "i", "n"].all fun key => sameJson (Json.get fields key) (Json.get claims key)
  | _ => false

/-- Nobody else can seal a body or sign for a wallet. -/
def symbolic (mac : Bytes → Bytes) : Condition World Request Call Call.Answer Failure Response Reply
  | _, _, _, .seal_ claims, _ => reads loads claims = true
  | w, _, _, .compareDigest signature body, _ => signature = mac body → body ∈ w.sealed
  | w, _, _, .check address message _, r => r = .verdict true → (address, message) ∈ w.signed
  | _, _, _, _, _ => True

instance (mac : Bytes → Bytes) (w : World) (vs : List (View Request Call Call.Answer Failure Response))
    (v : View Request Call Call.Answer Failure Response) (c : Call) (r : Reply) :
    Decidable (symbolic loads mac w vs v c r) := by
  cases c <;> dsimp only [symbolic] <;> infer_instance

end CodeZard.Identity
