import CodeZard.Base64
import CodeZard.Identity

namespace CodeZard.Sessions

open Programs Interleaving Documents Identity Values Decimals
open RunLogs (Bytes)

section Tokens

variable {mac : Bytes → Bytes}

theorem not_dot_b64 (data : Bytes) : ∀ c ∈ b64 data, c ≠ '.' ∧ isSpace c = false := by
  have hall : (List.range 64).all (fun n => sextet n ≠ '.' ∧ isSpace (sextet n) = false) = true := by decide
  intro c hc
  rw [Base64.b64_eq_grouped] at hc
  obtain ⟨n, rfl⟩ := Base64.mem_grouped hc
  have hmod : sextet n = sextet (n % 64) := by simp only [sextet, Nat.mod_mod]
  rw [hmod]
  exact of_decide_eq_true (List.all_eq_true.1 hall _ (List.mem_range.2 (Nat.mod_lt n (by decide))))

theorem b64_ne_nil {data : Bytes} (h : data ≠ []) : b64 data ≠ [] := by
  match data with
  | [] => exact absurd rfl h
  | [_] => simp [b64]
  | [_, _] => simp [b64]
  | _ :: _ :: _ :: _ => simp [b64]

theorem parts_tokenOf {data : Bytes} (hmac : mac data ≠ []) (hl : (tokenOf mac data).length ≤ MAX_TOKEN_BYTES) :
    parts (tokenOf mac data) = .ok (data, mac data) := by
  have hraw : strip (tokenOf mac data).toList = b64 data ++ '.' :: b64 (mac data) := by
    rw [tokenOf, String.toList_ofList]
    apply Base64.strip_of_not_space
    intro c hc
    rw [List.mem_append, List.mem_cons] at hc
    rcases hc with hc | rfl | hc
    · exact (not_dot_b64 data c hc).2
    · decide
    · exact (not_dot_b64 (mac data) c hc).2
  have hhead : ∀ c ∈ b64 data, (fun c => decide (c ≠ '.')) c = true := fun c hc =>
    decide_eq_true (not_dot_b64 data c hc).1
  have htake : (b64 data ++ '.' :: b64 (mac data)).takeWhile (fun c => decide (c ≠ '.')) = b64 data := by
    rw [List.takeWhile_append_of_pos hhead]
    simp
  have hdrop : (b64 data ++ '.' :: b64 (mac data)).dropWhile (fun c => decide (c ≠ '.')) = '.' :: b64 (mac data) := by
    rw [List.dropWhile_append_of_pos hhead]
    simp
  rw [tokenOf, String.length_ofList] at hl
  unfold parts
  dsimp only
  rw [hraw, if_neg (by rw [not_or, not_lt]; exact ⟨by simp, hl⟩), List.span_eq_takeWhile_dropWhile, htake, hdrop]
  simp [b64_ne_nil hmac, Base64.unb64_b64]

theorem opened_of_parts {loads : Bytes → Except String Json} {token : String} {data signature : Bytes} {fields : Fields}
    (hp : parts token = .ok (data, signature)) (hl : loads data = .ok (.dict fields)) :
    opened loads token = (ask (.compareDigest signature data)).bind fun (same : Bool) =>
      if !same then .raise (identityError "that token was not issued by this gateway") else .ret fields := by
  rw [opened, hp]
  simp [hl]

end Tokens

abbrev IdentityLog := Log Call Call.Answer Failure

abbrev Visit := View Request Call Call.Answer Failure Response

/-- A challenge that the service sealed, at the time that it names. -/
def Issued (settings : Settings) (vs : List Visit) (ch : Challenge) : Prop :=
  ch.audience = settings.audience ∧ isAddress ch.address = true ∧ ∃ v ∈ vs, v.request = .challenge ch.address ∧
    ∃ (now : Nat) (token : String), ch.issuedAt = now ∧
      [⟨.seal_ ch.claims, .ok token⟩, ⟨.time, .ok now⟩, ⟨.tokenHex, .ok ch.nonce⟩, ⟨.available, .ok true⟩] <:+ v.log

/-- A session that the service sealed once the verifier had accepted a signature
over a challenge that was not too old. -/
def Accepted (settings : Settings) (vs : List Visit) (ch : Challenge) (s : Session) : Prop :=
  ∃ v ∈ vs, ∃ (token signature minted : String) (mac body : Bytes) (now later : Nat),
    v.request = .verify token signature ∧ now - ch.issuedAt ≤ CHALLENGE_TTL_S ∧
      s = ⟨ch.address, later + settings.sessionTtlS⟩ ∧
      [⟨.seal_ s.claims, .ok minted⟩, ⟨.time, .ok later⟩, ⟨.check ch.address ch.message signature, .ok true⟩,
        ⟨.available, .ok true⟩, ⟨.time, .ok now⟩, ⟨.compareDigest mac body, .ok true⟩] <:+ v.log

/-- A token whose body is that of some claims, whatever it is signed with. -/
def Carries (token : String) (claims : Fields) : Prop := ∃ signature, parts token = .ok (compact claims, signature)

/-- What a program that seals has done before, and knows. -/
inductive Mint (settings : Settings) (loads : Bytes → Except String Json) : Request → IdentityLog → Fields → Prop
  | challenge (ch : Challenge) (now : Nat) (hd : ch.audience = settings.audience) (ha : isAddress ch.address = true)
      (hi : ch.issuedAt = now) : Mint settings loads (.challenge ch.address)
        [⟨.time, .ok now⟩, ⟨.tokenHex, .ok ch.nonce⟩, ⟨.available, .ok true⟩] ch.claims
  | session (token signature : String) (mac body : Bytes) (fields : Fields) (ch : Challenge) (now later : Nat)
      (hl : loads body = .ok (.dict fields)) (hc : challengeOf fields = .ok ch) (hd : ch.audience = settings.audience)
      (ht : now - ch.issuedAt ≤ CHALLENGE_TTL_S) : Mint settings loads (.verify token signature)
        [⟨.time, .ok later⟩, ⟨.check ch.address ch.message signature, .ok true⟩, ⟨.available, .ok true⟩,
          ⟨.time, .ok now⟩, ⟨.compareDigest mac body, .ok true⟩]
        (Session.claims ⟨ch.address, later + settings.sessionTtlS⟩)

def guard (settings : Settings) (loads : Bytes → Except String Json) (q : Request) (log : IdentityLog) : Call → Prop
  | .seal_ claims => Mint settings loads q log claims
  | _ => True

def admits (_ : IdentityLog) (c : Call) (a : Except Failure c.Answer) : Prop := ∃ b, a = .ok b

theorem admits_step {mac : Bytes → Bytes} {w w' : World} {log : IdentityLog} {c : Call} {r : Reply}
    {a : Except Failure c.Answer} (h : w.step mac c r = some (a, w')) : admits log c a := by
  cases c <;> cases r <;> cases h <;> exact ⟨_, rfl⟩

def Refused {α : Type} (o : Except Failure α) : Prop := ∃ message, o = .error (identityError message)

def Opens (loads : Bytes → Except String Json) (token : String) (fields : Fields) (log : IdentityLog) : Prop :=
  ∃ body signature, parts token = .ok (body, signature) ∧ loads body = .ok (.dict fields) ∧
    log = [⟨.compareDigest signature body, .ok true⟩]

def Ended (settings : Settings) (loads : Bytes → Except String Json) (o : Except Failure Response) (log : IdentityLog) :
    Request → Prop
  | .accountOf token => Refused o ∨ ∃ fields opening, Opens loads token fields opening ∧
      ((∃ f, intClaim fields "e" = .error f ∧ log = opening) ∨
        ∃ (expiresAt : Int) (now : Nat), intClaim fields "e" = .ok expiresAt ∧ now < expiresAt ∧
          o = .ok (.account (textClaim fields "a")) ∧ log = ⟨.time, .ok now⟩ :: opening)
  | .verify token _ => Refused o ∨ ∃ fields opening, Opens loads token fields opening ∧ opening <:+ log ∧
      ((∃ f, challengeOf fields = .error f) ∨ ∃ ch, challengeOf fields = .ok ch ∧ ch.audience = settings.audience)
  | _ => True

section Programs

variable {settings : Settings} {loads : Bytes → Except String Json} {q : Request}

theorem parts_refused {token : String} {f : Failure} (h : parts token = .error f) : ∃ message, f = identityError message := by
  unfold parts at h
  dsimp only at h
  split at h
  · cases h
    exact ⟨_, rfl⟩
  · split at h
    · cases h
      exact ⟨_, rfl⟩
    · split at h
      · cases h
      · cases h
        exact ⟨_, rfl⟩

theorem keeps_opened (token : String) :
    Keeps (guard settings loads q) admits (fun o log => Refused o ∨ ∃ fields, o = .ok fields ∧ Opens loads token fields log)
      (opened loads token) [] := by
  unfold opened
  refine keeps_bind.2 (keeps_ofExcept.2 ?_)
  cases hp : parts token with
  | error f =>
      obtain ⟨message, rfl⟩ := parts_refused hp
      exact .inl ⟨message, rfl⟩
  | ok p =>
      obtain ⟨body, signature⟩ := p
      refine keeps_perform_bind.2 ⟨trivial, ?_⟩
      rintro _ ⟨same, rfl⟩
      cases same with
      | false => exact .inl ⟨_, rfl⟩
      | true =>
          simp only [Bool.not_true, Bool.false_eq_true, if_false]
          split
          · exact .inr ⟨_, rfl, body, signature, hp, ‹_›, rfl⟩
          · exact .inl ⟨_, rfl⟩

theorem keeps_accountOf (token : String) : Keeps (guard settings loads (.accountOf token)) admits
    (fun o log => Ended settings loads o log (.accountOf token)) (accountOf loads token) [] := by
  refine keeps_bind.2 ((keeps_opened token).mono fun o log h => ?_)
  rcases h with ⟨message, rfl⟩ | ⟨fields, rfl, hopen⟩
  · exact .inl ⟨message, rfl⟩
  · refine keeps_bind.2 (keeps_ofExcept.2 ?_)
    cases he : intClaim fields "e" with
    | error f => exact .inr ⟨fields, log, hopen, .inl ⟨f, he, rfl⟩⟩
    | ok expiresAt =>
        dsimp only
        split
        · exact .inl ⟨_, rfl⟩
        · refine keeps_perform_bind.2 ⟨trivial, ?_⟩
          rintro _ ⟨now, rfl⟩
          dsimp only
          split
          · exact .inl ⟨_, rfl⟩
          · exact .inr ⟨fields, log, hopen, .inr ⟨expiresAt, now, he, by omega, rfl, rfl⟩⟩

theorem keeps_challenge (address : String) : Keeps (guard settings loads (.challenge address)) admits
    (fun o log => Ended settings loads o log (.challenge address)) (challenge settings address) [] := by
  unfold challenge
  split
  · trivial
  · refine keeps_perform_bind.2 ⟨trivial, ?_⟩
    rintro _ ⟨available, rfl⟩
    cases available with
    | false => trivial
    | true =>
        refine keeps_perform_bind.2 ⟨trivial, ?_⟩
        rintro _ ⟨nonce, rfl⟩
        refine keeps_perform_bind.2 ⟨trivial, ?_⟩
        rintro _ ⟨now, rfl⟩
        have ha : isAddress address = true := by simpa using ‹¬(!isAddress address) = true›
        refine keeps_perform_bind.2 ⟨.challenge ⟨address, nonce, now, settings.audience⟩ now rfl ha rfl, ?_⟩
        rintro _ ⟨token, rfl⟩
        trivial

theorem keeps_verify (token signature : String) : Keeps (guard settings loads (.verify token signature)) admits
    (fun o log => Ended settings loads o log (.verify token signature)) (verify settings loads token signature) [] := by
  refine keeps_bind.2 ((keeps_opened token).mono fun o log h => ?_)
  rcases h with ⟨message, rfl⟩ | ⟨fields, rfl, hopen⟩
  · exact .inl ⟨message, rfl⟩
  · refine keeps_bind.2 (keeps_ofExcept.2 ?_)
    cases hc : challengeOf fields with
    | error f => exact .inr ⟨fields, log, hopen, List.suffix_refl log, .inl ⟨f, hc⟩⟩
    | ok ch =>
        dsimp only
        split
        · exact .inl ⟨_, rfl⟩
        · have hd : ch.audience = settings.audience := not_not.1 ‹_›
          have hend (o : Except Failure Response) {log' : IdentityLog} (hlog : log <:+ log') :
              Ended settings loads o log' (.verify token signature) :=
            .inr ⟨fields, log, hopen, hlog, .inr ⟨ch, hc, hd⟩⟩
          obtain ⟨body, mac, hp, hl, rfl⟩ := hopen
          refine keeps_perform_bind.2 ⟨trivial, ?_⟩
          rintro _ ⟨now, rfl⟩
          dsimp only
          split
          · exact .inl ⟨_, rfl⟩
          · have ht : now - ch.issuedAt ≤ CHALLENGE_TTL_S := by
              simpa [Challenge.expired] using ‹¬ch.expired now = true›
            refine keeps_perform_bind.2 ⟨trivial, ?_⟩
            rintro _ ⟨available, rfl⟩
            cases available with
            | false => exact hend _ ⟨[_, _], rfl⟩
            | true =>
                refine keeps_perform_bind.2 ⟨trivial, ?_⟩
                rintro _ ⟨genuine, rfl⟩
                cases genuine with
                | false => exact .inl ⟨_, rfl⟩
                | true =>
                    refine keeps_perform_bind.2 ⟨trivial, ?_⟩
                    rintro _ ⟨later, rfl⟩
                    refine keeps_perform_bind.2
                      ⟨.session token signature mac body fields ch now later hl hc hd ht, ?_⟩
                    rintro _ ⟨minted, rfl⟩
                    exact hend _ ⟨[_, _, _, _, _], rfl⟩

theorem keeps_body (q : Request) :
    Keeps (guard settings loads q) admits (fun o log => Ended settings loads o log q) (body settings loads q) [] := by
  cases q with
  | challenge address => exact keeps_challenge address
  | verify token signature => exact keeps_verify token signature
  | accountOf token => exact keeps_accountOf token
  | sign address message =>
      refine keeps_perform_bind.2 ⟨trivial, ?_⟩
      rintro _ ⟨u, rfl⟩
      trivial

end Programs

section Claims

variable {settings : Settings} {loads : Bytes → Except String Json} {fields : Fields}

theorem sameJson_eq {x y : Json} (h : sameJson x y = true) : x = y := by
  cases x <;> cases y <;> simp_all [sameJson]

theorem reads_get {claims fields : Fields} (h : reads loads claims = true) (hl : loads (compact claims) = .ok (.dict fields))
    {key : String} (hk : key ∈ ["a", "d", "e", "i", "n"]) : Json.get fields key = Json.get claims key := by
  simp only [reads, hl, List.all_eq_true] at h
  exact sameJson_eq (h key hk)

theorem text_or (s : String) : ((Json.str s).or (.str "")).text = s := by
  by_cases hs : s = ""
  · subst hs
    rfl
  · simp [Json.or, Json.truthy, hs, Json.text]

theorem integer_or (n : Int) : integer ((Json.int n).or (.int 0)) = .ok n := by
  by_cases hn : n = 0
  · subst hn
    rfl
  · simp [Json.or, Json.truthy, hn, integer]

theorem challengeOf_challenge {ch : Challenge} (h : reads loads ch.claims = true)
    (hl : loads (compact ch.claims) = .ok (.dict fields)) : challengeOf fields = .ok ch := by
  have hget {key : String} (hk : key ∈ ["a", "d", "e", "i", "n"]) := reads_get h hl hk
  have hi : intClaim fields "i" = .ok ch.issuedAt := by
    rw [intClaim, hget (by simp)]
    exact integer_or ch.issuedAt
  have ha : textClaim fields "a" = ch.address := by
    rw [textClaim, hget (by simp)]
    exact text_or ch.address
  have hn : textClaim fields "n" = ch.nonce := by
    rw [textClaim, hget (by simp)]
    exact text_or ch.nonce
  have hd : textClaim fields "d" = ch.audience := by
    rw [textClaim, hget (by simp)]
    exact text_or ch.audience
  rw [challengeOf, hi, ha, hn, hd]
  rfl

theorem expiry_challenge {ch : Challenge} (h : reads loads ch.claims = true)
    (hl : loads (compact ch.claims) = .ok (.dict fields)) : intClaim fields "e" = .ok 0 := by
  rw [intClaim, reads_get h hl (by simp)]
  rfl

theorem account_session {s : Session} (h : reads loads s.claims = true)
    (hl : loads (compact s.claims) = .ok (.dict fields)) :
    textClaim fields "a" = s.address ∧ intClaim fields "e" = .ok s.expiresAt := by
  constructor
  · rw [textClaim, reads_get h hl (by simp)]
    exact text_or s.address
  · rw [intClaim, reads_get h hl (by simp)]
    exact integer_or s.expiresAt

theorem challengeOf_session {s : Session} (h : reads loads s.claims = true)
    (hl : loads (compact s.claims) = .ok (.dict fields)) : challengeOf fields = .ok ⟨s.address, "", 0, ""⟩ := by
  have hget {key : String} (hk : key ∈ ["a", "d", "e", "i", "n"]) := reads_get h hl hk
  have hi : intClaim fields "i" = .ok 0 := by
    rw [intClaim, hget (by simp)]
    rfl
  have hn : textClaim fields "n" = "" := by
    rw [textClaim, hget (by simp)]
    rfl
  have hd : textClaim fields "d" = "" := by
    rw [textClaim, hget (by simp)]
    rfl
  rw [challengeOf, hi, (account_session h hl).1, hn, hd]
  rfl

end Claims

def Minted (settings : Settings) (vs : List Visit) (body : Bytes) : Prop :=
  ∃ ch, Issued settings vs ch ∧ (body = compact ch.claims ∨ ∃ s, Accepted settings vs ch s ∧ body = compact s.claims)

/-- What the answers in the log of a call mean for the world. -/
structure Truthful (settings : Settings) (loads : Bytes → Except String Json) (w : World) (v : Visit) : Prop where
  opened : ∀ signature body, ⟨.compareDigest signature body, .ok true⟩ ∈ v.log → body ∈ w.sealed
  checked : ∀ address message signature, ⟨.check address message signature, .ok true⟩ ∈ v.log →
    (address, message) ∈ w.signed
  readable : ∀ claims a, ⟨.seal_ claims, a⟩ ∈ v.log → reads loads claims = true
  ended : ∀ o, v.result = some o → Ended settings loads o v.log v.request

section Steps

variable {settings : Settings} {loads : Bytes → Except String Json} {mac : Bytes → Bytes} {w w' : World}
  {vs : List Visit} {n : Nat} {q : Request} {log : IdentityLog} {c : Call} {a : Except Failure c.Answer} {r : Reply}

theorem mem_set_of_suffix {P : Visit → Prop} {v v' : Visit} (hn : vs[n]? = some v) (hv : P v → P v')
    (h : ∃ u ∈ vs, P u) : ∃ u ∈ vs.set n v', P u := by
  obtain ⟨u, hu, hp⟩ := h
  rcases mem_set_or_eq hn hu v' with hm | rfl
  · exact ⟨u, hm, hp⟩
  · exact ⟨v', mem_set_self hn v', hv hp⟩

theorem Issued.set {ch : Challenge} {v v' : Visit} (hn : vs[n]? = some v) (hq : v'.request = v.request)
    (hlog : v.log <:+ v'.log) (h : Issued settings vs ch) : Issued settings (vs.set n v') ch := by
  obtain ⟨hd, ha, h⟩ := h
  refine ⟨hd, ha, mem_set_of_suffix hn ?_ h⟩
  rintro ⟨hreq, now, token, hi, hs⟩
  exact ⟨hq.trans hreq, now, token, hi, hs.trans hlog⟩

theorem Accepted.set {ch : Challenge} {s : Session} {v v' : Visit} (hn : vs[n]? = some v)
    (hq : v'.request = v.request) (hlog : v.log <:+ v'.log) (h : Accepted settings vs ch s) :
    Accepted settings (vs.set n v') ch s := by
  refine mem_set_of_suffix hn ?_ h
  rintro ⟨token, signature, minted, mac, body, now, later, hreq, ht, hs, hl⟩
  exact ⟨token, signature, minted, mac, body, now, later, hq.trans hreq, ht, hs, hl.trans hlog⟩

theorem Minted.set {body : Bytes} {v v' : Visit} (hn : vs[n]? = some v) (hq : v'.request = v.request)
    (hlog : v.log <:+ v'.log) (h : Minted settings vs body) : Minted settings (vs.set n v') body := by
  obtain ⟨ch, hi, hb⟩ := h
  exact ⟨ch, hi.set hn hq hlog, hb.imp_right fun hs => hs.imp fun s hs => ⟨hs.1.set hn hq hlog, hs.2⟩⟩

theorem Minted.mono {body : Bytes} {vs' : List Visit} (hs : vs ⊆ vs') (h : Minted settings vs body) :
    Minted settings vs' body := by
  have hsub {P : Visit → Prop} (h : ∃ v ∈ vs, P v) : ∃ v ∈ vs', P v := h.imp fun v hv => ⟨hs hv.1, hv.2⟩
  obtain ⟨ch, ⟨hd, ha, hi⟩, hb⟩ := h
  exact ⟨ch, ⟨hd, ha, hsub hi⟩, hb.imp_right fun hs => hs.imp fun s hs => ⟨hsub hs.1, hs.2⟩⟩

theorem sealed_step (h : w.step mac c r = some (a, w')) :
    (w'.sealed = w.sealed ∧ ∀ claims, c ≠ .seal_ claims) ∨
      ∃ claims, c = .seal_ claims ∧ w'.sealed = compact claims :: w.sealed := by
  cases c with
  | seal_ claims =>
      cases r <;> cases h
      exact .inr ⟨claims, rfl, rfl⟩
  | _ =>
      refine .inl ⟨?_, fun claims hc => (by cases hc)⟩
      cases r <;> cases h
      rfl

theorem signed_step (h : w.step mac c r = some (a, w')) : w.signed ⊆ w'.signed := by
  cases c with
  | sign address message =>
      cases r <;> cases h
      exact List.subset_cons_self _ _
  | _ =>
      cases r <;> cases h
      exact List.Subset.refl _

theorem sealed_mono (h : w.step mac c r = some (a, w')) : w.sealed ⊆ w'.sealed := by
  rcases sealed_step h with ⟨he, _⟩ | ⟨claims, _, he⟩ <;> rw [he]
  · exact List.Subset.refl _
  · exact List.subset_cons_self _ _

theorem Truthful.mono {v : Visit} (h : Truthful settings loads w v) (hs : w.step mac c r = some (a, w')) :
    Truthful settings loads w' v := by
  refine ⟨fun signature body hm => ?_, fun address message signature hm => ?_, h.readable, h.ended⟩
  · exact sealed_mono hs (h.opened signature body hm)
  · exact signed_step hs (h.checked address message signature hm)

theorem Truthful.cons (h : Truthful settings loads w ⟨q, log, none⟩) (hc : symbolic loads mac w vs ⟨q, log, none⟩ c r)
    (hs : w.step mac c r = some (a, w')) : Truthful settings loads w' ⟨q, ⟨c, a⟩ :: log, none⟩ := by
  have h' := h.mono hs
  refine ⟨fun signature body hm => ?_, fun address message signature hm => ?_, fun claims b hm => ?_, fun o ho => ?_⟩
  · rcases List.mem_cons.1 hm with he | hm
    · cases he
      cases r <;> simp only [World.step, Option.some.injEq, Prod.mk.injEq, Except.ok.injEq, reduceCtorEq] at hs
      obtain ⟨hs, rfl⟩ := hs
      exact hc (of_decide_eq_true hs)
    · exact h'.opened signature body hm
  · rcases List.mem_cons.1 hm with he | hm
    · cases he
      cases r <;> cases hs
      exact hc rfl
    · exact h'.checked address message signature hm
  · rcases List.mem_cons.1 hm with he | hm
    · cases he
      exact hc
    · exact h'.readable claims b hm
  · cases ho

theorem Issued.reads {ch : Challenge} (hi : Issued settings vs ch) (h : ∀ v ∈ vs, Truthful settings loads w v) :
    reads loads ch.claims = true := by
  obtain ⟨_, _, v, hv, _, now, token, _, hs⟩ := hi
  exact (h v hv).readable _ _ (hs.subset List.mem_cons_self)

theorem Accepted.reads {ch : Challenge} {s : Session} (ha : Accepted settings vs ch s)
    (h : ∀ v ∈ vs, Truthful settings loads w v) : reads loads s.claims = true := by
  obtain ⟨v, hv, token, signature, minted, mac, body, now, later, _, _, _, hs⟩ := ha
  exact (h v hv).readable _ _ (hs.subset List.mem_cons_self)

theorem issued_of_opened (haud : settings.audience ≠ "") (h : ∀ v ∈ vs, Truthful settings loads w v) {body : Bytes}
    (hm : Minted settings vs body) {fields : Fields} {ch : Challenge} (hl : loads body = .ok (.dict fields))
    (hch : challengeOf fields = .ok ch) (hd : ch.audience = settings.audience) : Issued settings vs ch := by
  obtain ⟨ch', hi, rfl | ⟨s, hs, rfl⟩⟩ := hm
  · rw [challengeOf_challenge (hi.reads h) hl] at hch
    cases hch
    exact hi
  · rw [challengeOf_session (hs.reads h) hl] at hch
    cases hch
    exact absurd hd.symm haud

theorem minted_of_mint (haud : settings.audience ≠ "") (h : ∀ v ∈ vs, Truthful settings loads w v)
    (hb : ∀ body ∈ w.sealed, Minted settings vs body) (hn : vs[n]? = some ⟨q, log, none⟩) {claims : Fields}
    (hg : Mint settings loads q log claims) (token : String) :
    Minted settings (vs.set n ⟨q, ⟨.seal_ claims, .ok token⟩ :: log, none⟩) (compact claims) := by
  have hlog := List.suffix_cons (⟨.seal_ claims, .ok token⟩ : (c : Call) × Except Failure c.Answer) log
  have hmem := mem_set_self hn ⟨q, ⟨.seal_ claims, .ok token⟩ :: log, none⟩
  cases hg with
  | challenge ch now hd ha hi =>
      exact ⟨ch, ⟨hd, ha, _, hmem, rfl, now, token, hi, List.suffix_refl _⟩, .inl rfl⟩
  | session token' signature mac body fields ch now later hl hc hd ht =>
      have hopened := (h _ (List.mem_of_getElem? hn)).opened mac body (by simp)
      have hissued := issued_of_opened haud h (hb body hopened) hl hc hd
      exact ⟨ch, hissued.set hn rfl hlog, .inr ⟨_, ⟨_, hmem, token', signature, token, mac, body, now, later, rfl, ht,
        rfl, List.suffix_refl _⟩, rfl⟩⟩

end Steps

def protocol (settings : Settings) (loads : Bytes → Except String Json) (mac : Bytes → Bytes)
    (haud : settings.audience ≠ "") :
    Protocol (body settings loads) (World.step mac) anyRequest (symbolic loads mac) where
  inv w vs := (∀ v ∈ vs, Truthful settings loads w v) ∧ ∀ body ∈ w.sealed, Minted settings vs body
  guard := guard settings loads
  admits _ := admits
  post q o log := Ended settings loads o log q
  arrive := by
    rintro q w vs _ ⟨hv, hb⟩
    refine ⟨fun v hm => ?_, fun body hm => ?_⟩
    · rcases List.mem_append.1 hm with hm | hm
      · exact hv v hm
      · obtain rfl := List.mem_singleton.1 hm
        exact ⟨fun _ _ hm => (by cases hm), fun _ _ _ hm => (by cases hm), fun _ _ hm => (by cases hm),
          fun _ ho => (by cases ho)⟩
    · exact (hb body hm).mono (List.subset_append_left vs _)
  follows _ := keeps_body _
  sound := by
    rintro w vs n q log c r a w' ⟨hv, hb⟩ hn hg hc hs
    have htrue := hv _ (List.mem_of_getElem? hn)
    refine ⟨⟨fun u hu => ?_, fun body hm => ?_⟩, admits_step hs⟩
    · rcases List.mem_or_eq_of_mem_set hu with hu | rfl
      · exact (hv u hu).mono hs
      · exact htrue.cons hc hs
    · have hold (hm : body ∈ w.sealed) : Minted settings (vs.set n ⟨q, ⟨c, a⟩ :: log, none⟩) body :=
        (hb body hm).set hn rfl (List.suffix_cons _ log)
      rcases sealed_step hs with ⟨he, _⟩ | ⟨claims, rfl, he⟩
      · exact hold (he ▸ hm)
      · rw [he] at hm
        rcases List.mem_cons.1 hm with rfl | hm
        · obtain ⟨token, rfl⟩ : admits log (.seal_ claims) a := admits_step hs
          exact minted_of_mint haud hv hb hn hg token
        · exact hold hm
  leave := by
    rintro w vs n q log o ⟨hv, hb⟩ hn hp
    refine ⟨fun u hu => ?_, fun body hm => (hb body hm).set hn rfl (List.suffix_refl log)⟩
    rcases List.mem_or_eq_of_mem_set hu with hu | rfl
    · exact hv u hu
    · have h := hv _ (List.mem_of_getElem? hn)
      exact ⟨h.opened, h.checked, h.readable, fun o' ho => Option.some.inj ho ▸ hp⟩

abbrev Gateway := Config World Request Call Call.Answer Failure Response

/-- What the answer to a session token proves: a signature that the verifier had
accepted over a challenge of the same account. -/
def Proven (settings : Settings) (c : Gateway) (v : Visit) (token a : String) : Prop :=
  ∃ (now : Nat) (ch : Challenge) (s : Session), ⟨.time, .ok now⟩ ∈ v.log ∧ Issued settings c.views ch ∧
    Accepted settings c.views ch s ∧ ch.address = a ∧ (a, ch.message) ∈ c.world.signed ∧ Carries token s.claims ∧
    s.address = a ∧ now < s.expiresAt

section Results

variable {settings : Settings} {loads : Bytes → Except String Json} {mac : Bytes → Bytes} {c : Gateway} {v : Visit}
  {token : String} {o : Except Failure Response}

theorem accountOf_proven (hv : ∀ v ∈ c.views, Truthful settings loads c.world v)
    (hb : ∀ body ∈ c.world.sealed, Minted settings c.views body) (hm : v ∈ c.views)
    (hq : v.request = .accountOf token) (hr : v.result = some o) :
    (∃ a, o = .ok (.account a) ∧ Proven settings c v token a) ∨ Refused o := by
  have htrue := hv v hm
  have hend := htrue.ended o hr
  rw [hq] at hend
  rcases hend with hno | ⟨fields, opening, ⟨body, signature, hp, hl, rfl⟩, hend⟩
  · exact .inr hno
  · have hsealed : body ∈ c.world.sealed := by
      rcases hend with ⟨f, _, hlog⟩ | ⟨e, now, _, _, _, hlog⟩
      · exact htrue.opened signature body (by simp [hlog])
      · exact htrue.opened signature body (by simp [hlog])
    obtain ⟨ch, hi, rfl | ⟨s, hs, rfl⟩⟩ := hb body hsealed
    · have he := expiry_challenge (hi.reads hv) hl
      rcases hend with ⟨f, hf, _⟩ | ⟨e, now, hf, hlt, _⟩
      · cases he.symm.trans hf
      · cases he.symm.trans hf
        omega
    · obtain ⟨ha, he⟩ := account_session (hs.reads hv) hl
      rcases hend with ⟨f, hf, _⟩ | ⟨e, now, hf, hlt, ho, hlog⟩
      · cases he.symm.trans hf
      · cases he.symm.trans hf
        have hsigned : (ch.address, ch.message) ∈ c.world.signed := by
          obtain ⟨u, hu, _, signature, _, _, _, _, _, _, _, _, hlog⟩ := hs
          exact (hv u hu).checked _ _ signature (hlog.subset (by simp))
        have haddr : s.address = ch.address := by
          obtain ⟨_, _, _, _, _, _, _, _, _, _, _, rfl, _⟩ := hs
          rfl
        rw [ha] at ho
        refine .inl ⟨s.address, ho, now, ch, s, by simp [hlog], hi, hs, haddr.symm, ?_, ⟨signature, hp⟩, rfl, hlt⟩
        rw [haddr]
        exact hsigned

theorem challenge_refused (hv : ∀ v ∈ c.views, Truthful settings loads c.world v) (hm : v ∈ c.views)
    (hq : v.request = .accountOf token) (hr : v.result = some o) {ch : Challenge} (hi : Issued settings c.views ch)
    (hc : Carries token ch.claims) : Refused o := by
  have hend := (hv v hm).ended o hr
  rw [hq] at hend
  rcases hend with hno | ⟨fields, _, ⟨body, _, hp, hl, _⟩, hend⟩
  · exact hno
  · obtain ⟨_, hp'⟩ := hc
    cases hp.symm.trans hp'
    have he := expiry_challenge (hi.reads hv) hl
    rcases hend with ⟨f, hf, _⟩ | ⟨e, now, hf, hlt, _⟩
    · cases he.symm.trans hf
    · cases he.symm.trans hf
      omega

theorem session_refused (haud : settings.audience ≠ "") (hv : ∀ v ∈ c.views, Truthful settings loads c.world v)
    (hm : v ∈ c.views) {signature : String} (hq : v.request = .verify token signature) (hr : v.result = some o)
    {ch : Challenge} {s : Session} (hs : Accepted settings c.views ch s) (hc : Carries token s.claims) : Refused o := by
  have hend := (hv v hm).ended o hr
  rw [hq] at hend
  rcases hend with hno | ⟨fields, _, ⟨body, _, hp, hl, _⟩, _, hend⟩
  · exact hno
  · obtain ⟨_, hp'⟩ := hc
    cases hp.symm.trans hp'
    have hch := challengeOf_session (hs.reads hv) hl
    rcases hend with ⟨f, hf⟩ | ⟨ch', hf, hd⟩
    · cases hch.symm.trans hf
    · cases hch.symm.trans hf
      exact absurd hd.symm haud

end Results

/-- Whatever strings anybody sends and whenever, a token that has been answered
with an account had been sealed after a signature by that account over a fresh
challenge, and had not expired. Any other is refused, and neither kind of token
is taken for the other. -/
theorem session_proves_signature (settings : Settings) (haud : settings.audience ≠ "")
    (loads : Bytes → Except String Json) (mac : Bytes → Bytes) {c : Gateway}
    (h : Reaches (body settings loads) (World.step mac) anyRequest (symbolic loads mac) {} c) {v : Visit}
    (hm : v ∈ c.views) {o : Except Failure Response} (hr : v.result = some o) (token : String) :
    (v.request = .accountOf token → (∃ a, o = .ok (.account a) ∧ Proven settings c v token a) ∨ Refused o) ∧
      (∀ ch, v.request = .accountOf token → Issued settings c.views ch → Carries token ch.claims → Refused o) ∧
      ∀ signature ch s, v.request = .verify token signature → Accepted settings c.views ch s →
        Carries token s.claims → Refused o := by
  obtain ⟨hv, hb⟩ := (protocol settings loads mac haud).invariant
    ⟨fun _ hu => (by cases hu), fun _ hu => (by cases hu)⟩ h
  refine ⟨fun hq => accountOf_proven hv hb hm hq hr, fun ch hq hi hc => challenge_refused hv hm hq hr hi hc, ?_⟩
  intro signature ch s hq hs hc
  exact session_refused haud hv hm hq hr hs hc

def wallet : String := "GAAAAAAAAAAAAAAAAAAAAAAAAAAAAAAAAAAAAAAAAAAAAAAAAAAAAAAA"

def asked : Challenge := ⟨wallet, "0123456789abcdef0123456789abcdef", 1700000000, "codezard"⟩

def granted : Session := ⟨wallet, 1700043220⟩

def knownMac (body : Bytes) : Bytes :=
  if body = compact asked.claims then [80, 197, 129, 48, 242, 178, 237, 191, 13, 72, 98, 243, 240, 3, 254, 241,
    227, 202, 237, 195, 233, 71, 51, 107, 67, 132, 69, 41, 54, 85, 191, 248]
  else if body = compact granted.claims then [176, 186, 214, 36, 127, 247, 243, 181, 84, 147, 158, 22, 95, 55, 192, 162,
    2, 179, 211, 92, 116, 234, 191, 118, 75, 236, 144, 197, 161, 219, 56, 65]
  else []

def loadsClaims (body : Bytes) : Except String Json :=
  if body = compact asked.claims then .ok (.dict asked.claims)
  else if body = compact granted.claims then .ok (.dict granted.claims)
  else .error "Expecting value: line 1 column 1 (char 0)"

def challengeToken : String := tokenOf knownMac (compact asked.claims)

def sessionToken : String := tokenOf knownMac (compact granted.claims)

def signedIn : List (Event Request Reply) :=
  [.start (.challenge wallet), .step 0 (.verdict true), .step 0 (.text asked.nonce), .step 0 (.now 1700000000),
    .step 0 .done, .finish 0, .start (.sign wallet asked.message), .step 1 .done, .finish 1,
    .start (.verify challengeToken "c2lnbmVk"), .step 2 .done, .step 2 (.now 1700000020),
    .step 2 (.verdict true), .step 2 (.verdict true), .step 2 (.now 1700000020), .step 2 .done, .finish 2,
    .start (.accountOf sessionToken), .step 3 .done, .step 3 (.now 1700000030), .finish 3]

theorem session_proves_signature_signedIn : ∃ (c : Gateway) (v : Visit),
    Reaches (body {} loadsClaims) (World.step knownMac) anyRequest (symbolic loadsClaims knownMac) {} c ∧ v ∈ c.views ∧
      v.request = .accountOf sessionToken ∧
      ∃ a, v.result = some (.ok (.account a)) ∧ Proven {} c v sessionToken a := by
  -- What the tokens are made of is known from the theorem, which spares the kernel reading them.
  have hchallenge : opened loadsClaims challengeToken = _ :=
    opened_of_parts (parts_tokenOf (by decide +kernel) (by rw [tokenOf, String.length_ofList]; decide +kernel)) (if_pos rfl)
  have hgranted : loadsClaims (compact granted.claims) = .ok (.dict granted.claims) := by
    rw [loadsClaims, if_neg (by decide +kernel), if_pos rfl]
  have hsession : opened loadsClaims sessionToken = _ :=
    opened_of_parts (parts_tokenOf (by decide +kernel) (by rw [tokenOf, String.length_ofList]; decide +kernel)) hgranted
  have hsplit : signedIn = signedIn.take 9 ++ .start (.verify challengeToken "c2lnbmVk") ::
      ((signedIn.take 17).drop 10 ++ .start (.accountOf sessionToken) :: signedIn.drop 18) := rfl
  have hrun : (run (body {} loadsClaims) (World.step knownMac) anyRequest (symbolic loadsClaims knownMac) ⟨{}, []⟩
      signedIn).any (fun c => c.views.any fun v =>
        decide (v.request = .accountOf sessionToken) &&
          v.result.any fun o => o.toOption.isSome) = true := by
    rw [hsplit]
    simp only [run_start, body, verify, accountOf, hchallenge, hsession]
    decide +kernel
  obtain ⟨c, hc, hp⟩ := reaches_of_run hrun
  obtain ⟨v, hv, hp⟩ := List.any_eq_true.1 hp
  obtain ⟨hq, hr⟩ := Bool.and_eq_true_iff.1 hp
  have hq := of_decide_eq_true hq
  obtain ⟨o, ho, hs⟩ := (Option.any_eq_true _ _).1 hr
  rcases (session_proves_signature {} (by decide) loadsClaims knownMac hc hv ho _).1 hq with ⟨a, rfl, ha⟩ | ⟨message, rfl⟩
  · exact ⟨c, v, hc, hv, hq, a, ho, ha⟩
  · cases hs

end CodeZard.Sessions
