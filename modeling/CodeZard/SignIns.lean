import CodeZard.Endings
import CodeZard.Reloads
import CodeZard.Sessions

namespace CodeZard.SignIns

open Programs Interleaving Endings Documents Identity Sessions Values Decimals
open RunLogs (Bytes)
open JsonTexts (Floats)
open Reloads (Legible)

/-- The reader that tokens are opened with. What it says of a document that it
cannot read is an argument. -/
def loads (real : Floats) (why : Bytes → String) (data : Bytes) : Except String Json :=
  match JsonTexts.loads real data with
  | some value => .ok value
  | none => .error (why data)

section Tokens

variable {real : Floats} {why : Bytes → String} {mac : Bytes → Bytes}

theorem compact_challenge (ch : Challenge) (h : Legible real (.int ch.issuedAt)) :
    loads real why (compact ch.claims) = .ok (.dict [("a", .str ch.address), ("d", .str ch.audience),
      ("i", .int ch.issuedAt), ("n", .str ch.nonce)]) := by
  have hsort : ch.claims.insertionSort (fun x y => x.1 ≤ y.1) =
      [("a", .str ch.address), ("d", .str ch.audience), ("i", .int ch.issuedAt), ("n", .str ch.nonce)] := by
    simp [Challenge.claims]
  have hlegible : Legible real (.dict (ch.claims.insertionSort fun x y => x.1 ≤ y.1)) := by
    rw [hsort]
    exact ⟨by simp, trivial, trivial, h, trivial, trivial⟩
  rw [loads, Reloads.loads_compact hlegible, hsort]

theorem compact_session (s : Session) (h : Legible real (.int s.expiresAt)) :
    loads real why (compact s.claims) = .ok (.dict s.claims) := by
  have hsort : s.claims.insertionSort (fun x y => x.1 ≤ y.1) = s.claims := by
    simp [Session.claims]
  have hlegible : Legible real (.dict (s.claims.insertionSort fun x y => x.1 ≤ y.1)) := by
    rw [hsort]
    exact ⟨by simp [Session.claims], trivial, h, trivial⟩
  rw [loads, Reloads.loads_compact hlegible, hsort]

end Tokens

section Programs

variable {settings : Settings} {real : Floats} {why : Bytes → String} {mac : Bytes → Bytes}

/-- What the key and the outside answer. -/
def answers (mac : Bytes → Bytes) : (c : Call) → Except Failure c.Answer → Prop
  | .seal_ claims, a => a = .ok (tokenOf mac (compact claims))
  | .compareDigest signature body, a => a = .ok (decide (signature = mac body))
  | _, a => ∃ b, a = .ok b

theorem answers_step {w w' : World} {c : Call} {r : Reply} {a : Except Failure c.Answer}
    (h : w.step mac c r = some (a, w')) : answers mac c a := by
  cases c <;> cases r <;> cases h <;> first | rfl | exact ⟨_, rfl⟩

/-- A number that fits a machine word. -/
def Short (n : Int) : Prop := n.natAbs < 2 ^ 64

theorem legible_short {n : Int} (h : Short n) : Legible real (.int n) := by
  rw [Legible]
  have hlength : (Nat.toDigits 10 n.natAbs).length ≤ 20 :=
    (Nat.length_toDigits_le_iff (by decide) (by decide)).2 (Nat.lt_of_lt_of_le h (by decide))
  omega

def Made (mac : Bytes → Bytes) (claims : Fields) (token : String) : Prop :=
  token = tokenOf mac (compact claims) ∧ token.length ≤ MAX_TOKEN_BYTES

/-- Why a token of a challenge is not given a session. -/
inductive Denied (ch : Challenge) (signature : String) (log : IdentityLog) : Prop
  | expired (now : Nat) (h : ch.expired now = true) (ht : ⟨.time, .ok now⟩ ∈ log)
  | unavailable (h : ⟨.available, .ok false⟩ ∈ log)
  | forged (h : ⟨.check ch.address ch.message signature, .ok false⟩ ∈ log)

def Ends (settings : Settings) (mac : Bytes → Bytes) (o : Except Failure Response) (log : IdentityLog) :
    Request → Prop
  | .challenge address => ∀ ch token, o = .ok (.challenge ch token) →
      ch.address = address ∧ isAddress address = true ∧ ch.audience = settings.audience ∧
        token = tokenOf mac (compact ch.claims)
  | .verify token signature => ∀ ch : Challenge, ch.audience = settings.audience → Short ch.issuedAt →
      Made mac ch.claims token → (∃ s, o = .ok (.session s (tokenOf mac (compact s.claims))) ∧ s.address = ch.address) ∨
        Denied ch signature log
  | .accountOf token => ∀ s : Session, isAddress s.address = true → Short s.expiresAt → Made mac s.claims token →
      o = .ok (.account s.address) ∨ ∃ now : Nat, s.expiresAt ≤ now ∧ ⟨.time, .ok now⟩ ∈ log
  | .sign .. => True

theorem keeps_opened (hmac : ∀ data, mac data ≠ []) {claims fields : Fields} {token : String} (hm : Made mac claims token)
    (hl : loads real why (compact claims) = .ok (.dict fields)) :
    Keeps (fun _ _ => True) (fun _ => answers mac) (fun o _ => o = .ok fields) (opened (loads real why) token) [] := by
  obtain ⟨rfl, hlength⟩ := hm
  rw [opened_of_parts (parts_tokenOf (hmac _) hlength) hl]
  refine keeps_perform_bind.2 ⟨trivial, ?_⟩
  rintro _ rfl
  simp [Keeps]

theorem challengeOf_read (ch : Challenge) : challengeOf [("a", .str ch.address), ("d", .str ch.audience),
    ("i", .int ch.issuedAt), ("n", .str ch.nonce)] = .ok ch := by
  have hissued := integer_or ch.issuedAt
  have haddress := text_or ch.address
  have haudience := text_or ch.audience
  have hnonce := text_or ch.nonce
  simp [challengeOf, intClaim, textClaim, Json.get, List.lookup_cons, hissued, haddress, haudience, hnonce, Except.map]

theorem keeps_verify (hmac : ∀ data, mac data ≠ []) (token signature : String) :
    Keeps (fun _ _ => True) (fun _ => answers mac) (fun o log => Ends settings mac o log (.verify token signature))
      (verify settings (loads real why) token signature) [] := by
  refine keeps_forall fun ch => keeps_forall fun haudience => keeps_forall fun hshort => keeps_forall fun hmade => ?_
  refine keeps_bind.2 ((keeps_opened hmac hmade (compact_challenge ch (legible_short hshort))).mono fun o log ho => ?_)
  subst ho
  dsimp only
  rw [challengeOf_read]
  simp only [ofExcept_ok, bind_eq, ret_bind, haudience, ne_eq, not_true_eq_false, if_false]
  refine keeps_perform_bind.2 ⟨trivial, ?_⟩
  rintro _ ⟨now, rfl⟩
  dsimp only
  split
  · exact .inr (.expired now ‹_› List.mem_cons_self)
  refine keeps_perform_bind.2 ⟨trivial, ?_⟩
  rintro _ ⟨available, rfl⟩
  cases available with
  | false => exact .inr (.unavailable List.mem_cons_self)
  | true =>
      refine keeps_perform_bind.2 ⟨trivial, ?_⟩
      rintro _ ⟨genuine, rfl⟩
      cases genuine with
      | false => exact .inr (.forged List.mem_cons_self)
      | true =>
          refine keeps_perform_bind.2 ⟨trivial, ?_⟩
          rintro _ ⟨later, rfl⟩
          refine keeps_perform_bind.2 ⟨trivial, ?_⟩
          rintro _ rfl
          exact .inl ⟨_, rfl, rfl⟩

theorem keeps_accountOf (hmac : ∀ data, mac data ≠ []) (token : String) :
    Keeps (fun _ _ => True) (fun _ => answers mac) (fun o log => Ends settings mac o log (.accountOf token))
      (accountOf (loads real why) token) [] := by
  refine keeps_forall fun s => keeps_forall fun haddress => keeps_forall fun hshort => keeps_forall fun hmade => ?_
  refine keeps_bind.2 ((keeps_opened hmac hmade (compact_session s (legible_short hshort))).mono fun o log ho => ?_)
  subst ho
  have hexpiry : intClaim s.claims "e" = .ok s.expiresAt := by
    simpa [intClaim, Session.claims, Json.get, List.lookup_cons] using integer_or s.expiresAt
  have htext : textClaim s.claims "a" = s.address := by
    simpa [textClaim, Session.claims, Json.get, List.lookup_cons] using text_or s.address
  dsimp only
  rw [hexpiry, htext, haddress]
  refine keeps_perform_bind.2 ⟨trivial, ?_⟩
  rintro _ ⟨now, rfl⟩
  dsimp only
  split
  · exact .inr ⟨now, ‹_›, List.mem_cons_self⟩
  · exact .inl rfl

theorem keeps_challenge (address : String) :
    Keeps (fun _ _ => True) (fun _ => answers mac) (fun o log => Ends settings mac o log (.challenge address))
      (challenge settings address) [] := by
  rw [challenge]
  split
  · intro ch token h
    cases h
  rename_i haddress
  refine keeps_perform_bind.2 ⟨trivial, ?_⟩
  rintro _ ⟨available, rfl⟩
  dsimp only
  split
  · intro ch token h
    cases h
  refine keeps_perform_bind.2 ⟨trivial, ?_⟩
  rintro _ ⟨nonce, rfl⟩
  refine keeps_perform_bind.2 ⟨trivial, ?_⟩
  rintro _ ⟨now, rfl⟩
  refine keeps_perform_bind.2 ⟨trivial, ?_⟩
  rintro _ rfl
  intro ch token h
  cases h
  exact ⟨rfl, by simpa using haddress, rfl, rfl⟩

theorem keeps_body (hmac : ∀ data, mac data ≠ []) (q : Request) :
    Keeps (fun _ _ => True) (fun _ => answers mac) (fun o log => Ends settings mac o log q)
      (body settings (loads real why) q) [] := by
  cases q with
  | challenge address => exact keeps_challenge address
  | verify token signature => exact keeps_verify hmac token signature
  | accountOf token => exact keeps_accountOf hmac token
  | sign address message => exact ⟨trivial, fun a _ => by cases a <;> trivial⟩

/-- Whoever asks for a challenge, has it signed and brings it back is given a
session, and the session proves the account, unless the time ran out, nobody
could check the signature or the verifier says it is another's. -/
theorem sign_in_completes (hmac : ∀ data, mac data ≠ []) {starts : Request → Prop}
    {cond : Condition World Request Call Call.Answer Failure Response Reply} {w : World}
    {c : Config World Request Call Call.Answer Failure Response}
    (h : Reaches (body settings (loads real why)) (World.step mac) starts cond w c) {u v : Visit} (hu : u ∈ c.views)
    (hv : v ∈ c.views) {address token signature : String} {ch : Challenge} {o : Except Failure Response}
    (hasked : u.request = .challenge address) (hanswered : u.result = some (.ok (.challenge ch token)))
    (hbrought : v.request = .verify token signature) (hended : v.result = some o) (hshort : Short ch.issuedAt)
    (hlength : token.length ≤ MAX_TOKEN_BYTES) :
    (∃ s minted, o = .ok (.session s minted) ∧ ∀ x ∈ c.views, x.request = .accountOf minted → ∀ o', x.result = some o' →
        Short s.expiresAt → minted.length ≤ MAX_TOKEN_BYTES →
          o' = .ok (.account address) ∨ ∃ now : Nat, s.expiresAt ≤ now ∧ ⟨.time, .ok now⟩ ∈ x.log) ∨
      Denied ch signature v.log := by
  have hends {x : Visit} (hx : x ∈ c.views) {o : Except Failure Response} (ho : x.result = some o) :
      Ends settings mac o x.log x.request :=
    Endings.of_keeps (fun q o log => Ends settings mac o log q) (fun _ => keeps_body hmac _)
      (fun _ hs => answers_step hs) h hx ho
  have hissued := hends hu hanswered
  rw [hasked] at hissued
  obtain ⟨rfl, haddress, haudience, htoken⟩ := hissued ch token rfl
  have hverified := hends hv hended
  rw [hbrought] at hverified
  rcases hverified ch haudience hshort ⟨htoken, hlength⟩ with ⟨s, rfl, hs⟩ | hdenied
  · refine .inl ⟨s, _, rfl, fun x hx hq o' ho' he hm => ?_⟩
    have hproved := hends hx ho'
    rw [hq] at hproved
    rw [← hs]
    exact hproved s (hs ▸ haddress) he ⟨rfl, hm⟩
  · exact .inr hdenied

end Programs

def digest (data : Bytes) : Bytes := if knownMac data = [] then [0] else knownMac data

theorem digest_ne_nil (data : Bytes) : digest data ≠ [] := by
  rw [digest]
  split
  · simp
  · assumption

def reader : Bytes → Except String Json := loads (fun _ => JsonTexts.nan) fun _ => "Expecting value"

theorem sign_in_completes_signedIn : ∃ (c : Config World Request Call Call.Answer Failure Response) (v : Visit)
    (o : Except Failure Response),
    Reaches (body {} reader) (World.step digest) anyRequest anyStep {} c ∧ v ∈ c.views ∧ v.result = some o ∧
      ((∃ s minted, o = .ok (.session s minted) ∧ ∀ x ∈ c.views, x.request = .accountOf minted → ∀ o', x.result = some o' →
          Short s.expiresAt → minted.length ≤ MAX_TOKEN_BYTES →
            o' = .ok (.account wallet) ∨ ∃ now : Nat, s.expiresAt ≤ now ∧ ⟨.time, .ok now⟩ ∈ x.log) ∨
        Denied asked "c2lnbmVk" v.log) := by
  have hlength : challengeToken.length ≤ MAX_TOKEN_BYTES := by
    rw [challengeToken, tokenOf, String.length_ofList]
    decide +kernel
  have htoken : tokenOf digest (compact asked.claims) = challengeToken := by
    have hmac : knownMac (compact asked.claims) ≠ [] := by decide +kernel
    rw [challengeToken, tokenOf, tokenOf, digest, if_neg hmac]
  have hparts : parts challengeToken = .ok (compact asked.claims, digest (compact asked.claims)) := by
    rw [← htoken]
    exact parts_tokenOf (digest_ne_nil _) (htoken ▸ hlength)
  have hopened : opened reader challengeToken = _ :=
    opened_of_parts hparts (compact_challenge asked (legible_short (by unfold Short; decide)))
  have hsplit : signedIn.take 17 = signedIn.take 9 ++ .start (.verify challengeToken "c2lnbmVk") ::
      (signedIn.take 17).drop 10 := rfl
  have hrun : (run (body {} reader) (World.step digest) anyRequest anyStep ⟨{}, []⟩ (signedIn.take 17)).any (fun c =>
      (c.views.any fun u => decide (u.request = .challenge wallet) &&
        decide (u.result.bind Except.toOption = some (.challenge asked challengeToken))) &&
      c.views.any fun v => decide (v.request = .verify challengeToken "c2lnbmVk") && v.result.isSome) = true := by
    rw [hsplit, run_start]
    simp only [body, verify, hopened]
    decide +kernel
  obtain ⟨c, hc, hp⟩ := reaches_of_run hrun
  obtain ⟨hfirst, hsecond⟩ := Bool.and_eq_true_iff.1 hp
  obtain ⟨u, hu, hp⟩ := List.any_eq_true.1 hfirst
  obtain ⟨hasked, hanswered⟩ := Bool.and_eq_true_iff.1 hp
  obtain ⟨v, hv, hp⟩ := List.any_eq_true.1 hsecond
  obtain ⟨hbrought, hended⟩ := Bool.and_eq_true_iff.1 hp
  obtain ⟨o, ho⟩ := Option.isSome_iff_exists.1 hended
  have hresult : u.result = some (.ok (.challenge asked challengeToken)) := by
    obtain ⟨o', ho', hresponse⟩ := Option.bind_eq_some_iff.1 (of_decide_eq_true hanswered)
    cases o' with
    | ok response =>
        cases hresponse
        exact ho'
    | error f => cases hresponse
  exact ⟨c, v, o, hc, hv, ho, sign_in_completes digest_ne_nil hc hu hv (of_decide_eq_true hasked) hresult
    (of_decide_eq_true hbrought) ho (by unfold Short; decide) hlength⟩

end CodeZard.SignIns
