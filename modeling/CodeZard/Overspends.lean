import CodeZard.Overdrafts
import CodeZard.Requests

namespace CodeZard.Overspends

open Amounts Products Ledgers Periods Storage Programs Ports Interleaving Requests Overdrafts

/-- One run, as billing sees it: authorised when it starts and charged once it
has delivered. A run that never delivers has no usage. -/
structure Session where
  account : String
  runId : String
  usage : Option Usage := none
  deriving DecidableEq

variable (g : Gateway)

def chargeRun (account runId : String) (usage : Usage) : Billing Unit :=
  if usage.isEmpty then return ()
  else ((fun _ => ()) <$> BillingService.charge g account runId usage).rescue fun e =>
    if e.isException then .ret () else .raise e

def session (q : Session) : Billing Unit :=
  if q.account = "" then return ()
  else do
    let _ ← BillingService.authorize g q.account
    match q.usage with
    | none => return ()
    | some usage => chargeRun g q.account q.runId usage

/-- The run is charged at most `C` tokens. -/
def costsAtMost (C : Nat) (q : Session) : Bool :=
  match q.usage.map g.catalog.pricing.billable with
  | some (.ok tokens) => tokens ≤ C
  | _ => true

def Within (C : Nat) (q : Session) : Prop := costsAtMost g C q = true

instance (C : Nat) : DecidablePred (Within g C) := fun q => inferInstanceAs (Decidable (costsAtMost g C q = true))

abbrev InSession := View Session Call Call.Answer Error Unit

def busy (account : String) (v : InSession) : Bool :=
  v.request.account = account && !v.log.isEmpty && v.result.isNone

/-- A run of the account begins only when no other run of it is under way. -/
def Alone (account : String) : Condition World Session Call Call.Answer Error Unit Reply := fun _ vs v _ _ =>
  v.log.isEmpty = true → v.request.account = account → ∀ u ∈ vs, busy account u = false

instance (account : String) (w : World) (vs : List InSession) (v : InSession) (c : Call) (r : Reply) :
    Decidable (Alone account w vs v c r) := by
  dsimp only [Alone]
  infer_instance

def seen : BillingLog → Option (List LedgerEntry)
  | ⟨.allEntries _, .ok entries⟩ :: _ => some entries
  | ⟨.append _, _⟩ :: _ => none
  | _ :: log => seen log
  | [] => none

variable (C : Nat)

def Row (account : String) (log : BillingLog) (e : LedgerEntry) : Prop :=
  match e.kind with
  | .grant => 0 ≤ e.tokens
  | .expiry => ∃ entries, seen log = some entries ∧ e.tokens = -(balanceOf account entries).granted
  | .usage => ∃ entries, seen log = some entries ∧ 0 < (balanceOf account entries).total ∧
      -(C : Int) ≤ e.tokens ∧ e.tokens ≤ 0
  | _ => False

def guard (account : String) (log : BillingLog) : Call → Prop
  | .append e => log ≠ [] ∧ e.account = account ∧ Row C account log e
  | .allEntries a => a = account
  | _ => True

def admits (_ : BillingLog) (c : Call) (_ : Except Error c.Answer) : Prop := True

section Programs

variable {g C} {account : String} {α : Type}

def Abides (C : Nat) (account : String) (p : Billing α) : Prop := Restores (guard C account) admits (· ≠ []) p

theorem abides_ask {c : Call} (h : ∀ log, log ≠ [] → guard C account log c) : Abides C account (ask c) :=
  restores_perform h fun _ _ _ _ => List.cons_ne_nil _ _

theorem abides_ask_bind {c : Call} {f : c.Answer → Billing α} (h : ∀ log, log ≠ [] → guard C account log c)
    (hf : ∀ v, Abides C account (f v)) : Abides C account ((ask c).bind f) :=
  (abides_ask h).bind hf

theorem abides_credit (tokens : Int) (reference : Reference) (amount : Money) (memo : String) :
    Abides C account (BillingService.credit account tokens .grant reference amount memo) := by
  unfold BillingService.credit
  split
  · exact restores_raise _
  · rename_i ht
    refine abides_ask_bind (fun _ _ => trivial) fun id => abides_ask_bind (fun _ _ => trivial) fun now => ?_
    exact abides_ask fun log hl => ⟨hl, rfl, Int.not_lt.1 ht⟩

theorem abides_expireGrant (s : Subscription) (now : Datetime) :
    Abides C account (BillingService.expireGrant account s now) := by
  intro log hl
  refine keeps_bind.2 (keeps_perform_bind.2 ⟨rfl, fun a _ => ?_⟩)
  cases a with
  | error e => exact List.cons_ne_nil _ _
  | ok entries =>
      simp only [pure_eq, Keeps]
      split
      · exact List.cons_ne_nil _ _
      · refine keeps_perform_bind.2 ⟨trivial, fun a _ => ?_⟩
        cases a with
        | error e => exact List.cons_ne_nil _ _
        | ok id =>
            refine keeps_perform_bind.2 ⟨⟨List.cons_ne_nil _ _, rfl, entries, rfl, rfl⟩, fun a _ => ?_⟩
            cases a <;> exact List.cons_ne_nil _ _

theorem abides_mirrorChain (now : Datetime) : Abides C account (BillingService.mirrorChain g account now) := by
  have hread : Abides C account (BillingService.readChain g account) := by
    unfold BillingService.readChain
    split
    · refine Restores.rescue (abides_ask fun _ _ => trivial) fun e => ?_
      split
      · exact restores_ret _
      · exact restores_raise _
    · exact restores_ret _
  refine hread.bind fun o => ?_
  cases o with
  | none => exact restores_ret _
  | some o =>
      simp only
      split
      · exact restores_ret _
      · split
        · exact restores_ret _
        · rename_i plan _
          have hm : Abides C account (BillingService.mirror account plan o) :=
            abides_ask_bind (fun _ _ => trivial) fun _ => (abides_credit _ _ _ _).bind fun _ => restores_ret _
          exact hm.map _

theorem abides_renew (s : Subscription) (plan : Plan) :
    Abides C account ((store.putSubscription s).bind fun s =>
      (BillingService.grant account plan s).bind fun _ => .ret (some s)) :=
  abides_ask_bind (fun _ _ => trivial) fun _ => (abides_credit _ _ _ _).bind fun _ => restores_ret _

theorem abides_settleRow (now : Datetime) : Abides C account (BillingService.settleRow g account now) := by
  refine abides_ask_bind (fun _ _ => trivial) fun s => ?_
  cases s with
  | none =>
      simp only [BillingService.beginFree]
      split
      · exact restores_ret _
      · exact abides_renew _ _
  | some s =>
      simp only
      split
      · exact restores_ret _
      · have hend : Abides C account (store.putSubscription s.ended) := abides_ask fun _ _ => trivial
        refine (abides_expireGrant s now).bind fun _ => ?_
        cases g.catalog.plan s.planId with
        | error e => exact hend.map _
        | ok plan =>
            simp only
            split
            · exact abides_renew (s.renewed plan now) plan
            · exact hend.map _

theorem keeps_settlePeriod (log : BillingLog) :
    Keeps (guard C account) admits (fun _ log => log ≠ []) (BillingService.settlePeriod g account) log := by
  refine keeps_perform_bind.2 ⟨trivial, fun a _ => ?_⟩
  cases a with
  | error e => exact List.cons_ne_nil _ _
  | ok now =>
      refine Restores.bind (abides_mirrorChain now) (fun s => ?_) _ (List.cons_ne_nil _ _)
      cases s with
      | none => exact abides_settleRow now
      | some s => exact restores_ret _

theorem keeps_authorize (hr : 0 < g.reserve) (log : BillingLog) :
    Keeps (guard C account) admits
      (fun o log => ∀ b, o = .ok b → ∃ entries, seen log = some entries ∧ 0 < (balanceOf account entries).total)
      (BillingService.authorize g account) log := by
  refine keeps_bind.2 ((keeps_settlePeriod log).mono fun o log hl => ?_)
  cases o with
  | error e => exact fun b hb => nomatch hb
  | ok s =>
      refine keeps_bind.2 (keeps_perform_bind.2 ⟨rfl, fun a _ => ?_⟩)
      cases a with
      | error e => exact fun b hb => nomatch hb
      | ok entries =>
          simp only [pure_eq, Keeps]
          split
          · rename_i hb
            intro b _
            have hb : max 0 g.reserve ≤ (balanceOf account entries).total := of_decide_eq_true hb
            exact ⟨entries, rfl, by omega⟩
          · exact fun b hb => nomatch hb

theorem keeps_charge {runId : String} {usage : Usage} {log : BillingLog} {entries : List LedgerEntry}
    (hc : ∀ tokens, g.catalog.pricing.billable usage = .ok tokens → tokens ≤ C) (hs : seen log = some entries)
    (hb : 0 < (balanceOf account entries).total) :
    Keeps (guard C account) admits (fun _ _ => True) (BillingService.charge g account runId usage) log := by
  unfold BillingService.charge
  cases ht : g.catalog.pricing.billable usage with
  | error e => trivial
  | ok tokens =>
      have htokens := hc tokens ht
      simp only [ofExcept_ok, bind_eq, ret_bind]
      split
      · trivial
      · refine keeps_perform_bind.2 ⟨trivial, fun a _ => ?_⟩
        cases a with
        | error e => trivial
        | ok id =>
            refine keeps_perform_bind.2 ⟨trivial, fun a _ => ?_⟩
            cases a with
            | error e => trivial
            | ok now =>
                refine keeps_perform_bind.2 ⟨⟨List.cons_ne_nil _ _, rfl, entries, hs, hb, ?_⟩, fun a _ => ?_⟩
                · exact ⟨by simp only; omega, by simp only; omega⟩
                · cases a <;> trivial

theorem keeps_session {q : Session} (hr : 0 < g.reserve) (hq : Within g C q) :
    Keeps (guard C q.account) admits (fun _ _ => True) (session g q) [] := by
  unfold session
  split
  · trivial
  refine keeps_bind.2 ((keeps_authorize hr []).mono fun o log h => ?_)
  cases o with
  | error e => trivial
  | ok b =>
      obtain ⟨entries, hs, hb⟩ := h b rfl
      cases hu : q.usage with
      | none => trivial
      | some usage =>
          have hc : ∀ tokens, g.catalog.pricing.billable usage = .ok tokens → tokens ≤ C := by
            intro tokens ht
            simpa [Within, costsAtMost, hu, ht] using hq
          simp only [chargeRun]
          split
          · trivial
          · refine keeps_rescue.2 (keeps_bind.2 ((keeps_charge hc hs hb).mono fun o log _ => ?_))
            cases o with
            | ok x => trivial
            | error e =>
                simp only
                split <;> trivial

end Programs

/-- The ledger of the account holds the rows a run may write, it owes no more
than one run, and the run under way has read it as it stands. -/
structure Inv (account : String) (w : World) (vs : List InSession) : Prop where
  written : Written account (w.store.allEntries account)
  bounded : -(C : Int) ≤ tokensOf (w.store.allEntries account)
  alone : AtMostOne (fun v => busy account v = true) vs
  fresh : ∀ v ∈ vs, busy account v = true → ∀ entries, seen v.log = some entries →
    w.store.allEntries account = entries

section Steps

variable {C} {account : String} {w w' : World} {vs : List InSession} {n : Nat} {q : Session} {log : BillingLog}
  {c : Call} {r : Reply} {a : Except Error c.Answer}

theorem total_pos {L : List LedgerEntry} (h : Written account L) (ht : 0 < (balanceOf account L).total) :
    0 < tokensOf L := by
  obtain ⟨hg, hs⟩ := pools_after h
  rw [Balance.total, granted_eq, purchased_eq] at ht
  omega

theorem entries_append (account : String) (s : Store) (e : LedgerEntry) :
    (s.append e).2.allEntries account = s.allEntries account ∨
      e.account = account ∧ (s.append e).2.allEntries account = s.allEntries account ++ [e] := by
  rcases s.append_cases e with ⟨_, _, _, h⟩ | ⟨_, _, _, h⟩ | ⟨_, _, h⟩ <;> rw [h]
  · exact .inl rfl
  · exact .inl rfl
  · by_cases he : e.account = account
    · exact .inr ⟨he, by simp [Store.allEntries, he]⟩
    · exact .inl (by simp [Store.allEntries, he])

theorem row_within {L : List LedgerEntry} {e : LedgerEntry} (hw : Written account L) (hb : -(C : Int) ≤ tokensOf L)
    (hf : ∀ entries, seen log = some entries → L = entries) (hr : Row C account log e) :
    Written account (L ++ [e]) ∧ -(C : Int) ≤ tokensOf (L ++ [e]) := by
  obtain ⟨hg, hs⟩ := pools_after hw
  have hshown := granted_eq account L
  rw [tokensOf_append, tokensOf_cons, tokensOf_nil]
  cases hk : e.kind with
  | grant =>
      simp only [Row, hk] at hr
      exact ⟨hw.snoc (by simpa only [RowAfter, hk] using hr), by omega⟩
  | expiry =>
      simp only [Row, hk] at hr
      obtain ⟨entries, hseen, ht⟩ := hr
      obtain rfl := hf entries hseen
      exact ⟨hw.snoc (by simpa only [RowAfter, hk] using ht), by omega⟩
  | usage =>
      simp only [Row, hk] at hr
      obtain ⟨entries, hseen, hpos, hle, hneg⟩ := hr
      obtain rfl := hf entries hseen
      have := total_pos hw hpos
      exact ⟨hw.snoc (by simpa only [RowAfter, hk] using hneg), by omega⟩
  | purchase | refund | adjustment => simp [Row, hk] at hr

theorem seen_cons (hc : ∀ e, c ≠ .append e) (hc' : ∀ b, c ≠ .allEntries b) : seen (⟨c, a⟩ :: log) = seen log := by
  cases c with
  | append e => exact absurd rfl (hc e)
  | allEntries b => exact absurd rfl (hc' b)
  | _ => rfl

theorem entries_step (hg : guard C q.account log c) (hne : q.account ≠ account) (hs : w.step c r = some (a, w')) :
    w'.store.allEntries account = w.store.allEntries account := by
  by_cases hc : ∃ e, c = .append e
  · obtain ⟨e, rfl⟩ := hc
    rcases step_append hs with ⟨x, _, _, rfl⟩ | ⟨_, _, rfl⟩
    · rfl
    · rcases entries_append account w.store e with h | ⟨h, _⟩
      · exact h
      · exact absurd (hg.2.1.symm.trans h) hne
  · push Not at hc
    rw [Store.allEntries, Store.allEntries, ledger_step hc hs]

theorem step_within (hw : Written account (w.store.allEntries account))
    (hb : -(C : Int) ≤ tokensOf (w.store.allEntries account))
    (hf : ∀ entries, seen log = some entries → w.store.allEntries account = entries)
    (hg : guard C account log c) (hs : w.step c r = some (a, w')) :
    Written account (w'.store.allEntries account) ∧ -(C : Int) ≤ tokensOf (w'.store.allEntries account) ∧
      ∀ entries, seen (⟨c, a⟩ :: log) = some entries → w'.store.allEntries account = entries := by
  by_cases hc : ∃ e, c = .append e
  · obtain ⟨e, rfl⟩ := hc
    rcases step_append hs with ⟨x, _, _, rfl⟩ | ⟨_, _, rfl⟩
    · exact ⟨hw, hb, fun _ h => nomatch h⟩
    · rcases entries_append account w.store e with h | ⟨_, h⟩
      · rw [h]
        exact ⟨hw, hb, fun _ h => nomatch h⟩
      · rw [h]
        have hrow := row_within hw hb hf hg.2.2
        exact ⟨hrow.1, hrow.2, fun _ h => nomatch h⟩
  push Not at hc
  have hsame : w'.store.allEntries account = w.store.allEntries account := by
    rw [Store.allEntries, Store.allEntries, ledger_step hc hs]
  rw [hsame]
  refine ⟨hw, hb, fun entries he => ?_⟩
  by_cases hc' : ∃ b, c = .allEntries b
  · obtain ⟨b, rfl⟩ := hc'
    obtain rfl : b = account := hg
    obtain ⟨_, rfl | ⟨x, _, rfl⟩⟩ := step_allEntries hs
    · exact Option.some.inj he
    · exact hf entries he
  · push Not at hc'
    rw [seen_cons hc hc'] at he
    exact hf entries he

theorem busy_cons {o : Option (Except Error Unit)} {x : (c : Call) × Except Error c.Answer} :
    busy account ⟨q, x :: log, o⟩ = (decide (q.account = account) && o.isNone) := by
  simp [busy]

theorem Inv.other (h : Inv C account w vs) (hn : vs[n]? = some ⟨q, log, none⟩) (hg : guard C q.account log c)
    (hne : q.account ≠ account) (hs : w.step c r = some (a, w')) :
    Inv C account w' (vs.set n ⟨q, ⟨c, a⟩ :: log, none⟩) := by
  have hidle : ¬ busy account ⟨q, ⟨c, a⟩ :: log, none⟩ = true := by
    rw [busy_cons]
    simp [hne]
  have hsame := entries_step hg hne hs
  refine ⟨by rw [hsame]; exact h.written, by rw [hsame]; exact h.bounded,
    h.alone.set hn fun hb => absurd hb hidle, fun v hv hb entries he => ?_⟩
  rcases List.mem_or_eq_of_mem_set hv with hv | rfl
  · rw [hsame]
    exact h.fresh v hv hb entries he
  · exact absurd hb hidle

theorem Inv.others (h : Inv C account w vs) (hn : vs[n]? = some ⟨q, log, none⟩) (hq : q.account = account)
    (hc : Alone account w vs ⟨q, log, none⟩ c r) (v' : InSession) :
    AtMostOne (fun v => busy account v = true) (vs.set n v') ∧
      ∀ u ∈ vs.set n v', u = v' ∨ ¬ busy account u = true := by
  cases log with
  | nil =>
      have hnone : ∀ u ∈ vs, ¬ busy account u = true := fun u hu => by simp [hc rfl hq u hu]
      refine ⟨atMostOne_set hnone, fun u hu => ?_⟩
      rcases List.mem_or_eq_of_mem_set hu with hu | rfl
      · exact .inr (hnone u hu)
      · exact .inl rfl
  | cons x log =>
      have hb : busy account ⟨q, x :: log, none⟩ = true := by rw [busy_cons]; simp [hq]
      exact ⟨h.alone.set hn fun _ => hb, fun u hu => h.alone.others hn hb hu⟩

theorem Inv.own (h : Inv C account w vs) (hn : vs[n]? = some ⟨q, log, none⟩) (hg : guard C q.account log c)
    (hq : q.account = account) (hc : Alone account w vs ⟨q, log, none⟩ c r) (hs : w.step c r = some (a, w')) :
    Inv C account w' (vs.set n ⟨q, ⟨c, a⟩ :: log, none⟩) := by
  have hf : ∀ entries, seen log = some entries → w.store.allEntries account = entries := by
    intro entries he
    cases log with
    | nil => cases he
    | cons x log => exact h.fresh _ (List.mem_of_getElem? hn) (by rw [busy_cons]; simp [hq]) entries he
  obtain ⟨hone, hothers⟩ := h.others hn hq hc ⟨q, ⟨c, a⟩ :: log, none⟩
  rw [hq] at hg
  obtain ⟨hw, hb, hf'⟩ := step_within h.written h.bounded hf hg hs
  refine ⟨hw, hb, hone, fun v hv hbusy => ?_⟩
  rcases hothers v hv with rfl | hidle
  · exact hf'
  · exact absurd hbusy hidle

theorem Inv.leave (h : Inv C account w vs) (hn : vs[n]? = some ⟨q, log, none⟩) (o : Except Error Unit) :
    Inv C account w (vs.set n ⟨q, log, some o⟩) := by
  have hidle : ¬ busy account ⟨q, log, some o⟩ = true := by simp [busy]
  refine ⟨h.written, h.bounded, h.alone.set hn fun hb => absurd hb hidle, fun v hv hb => ?_⟩
  rcases List.mem_or_eq_of_mem_set hv with hv | rfl
  · exact h.fresh v hv hb
  · exact absurd hb hidle

end Steps

variable {g C}

def protocol (hr : 0 < g.reserve) (account : String) :
    Protocol (session g) World.step (Within g C) (Alone account) where
  inv := Inv C account
  guard q := guard C q.account
  admits _ := admits
  post _ _ _ := True
  arrive {q w vs} _ h := by
    have hidle : ¬ busy account ⟨q, [], none⟩ = true := by simp [busy]
    refine ⟨h.written, h.bounded, h.alone.concat hidle, fun v hv hb => ?_⟩
    rcases List.mem_append.1 hv with hv | hv
    · exact h.fresh v hv hb
    · obtain rfl := List.mem_singleton.1 hv
      exact absurd hb hidle
  follows hq := keeps_session hr hq
  sound {w vs i q log c r a w'} h hn hg hc hs := by
    refine ⟨?_, trivial⟩
    by_cases hq : q.account = account
    · exact h.own hn hg hq hc hs
    · exact h.other hn hg hq hs
  leave h hn _ := h.leave hn _

/-- Minus the sum of the account's entries, when that sum is negative. -/
def debt (account : String) (w : World) : Int := max 0 (-tokensOf (w.store.allEntries account))

/-- As long as no run of the account begins while another one of it is under
way, the account never owes more than what one run may cost. -/
theorem debt_within_one_run (g : Gateway) (hr : 0 < g.reserve) (C : Nat) (account : String) {w : World}
    (hw : Written account (w.store.allEntries account)) (hd : debt account w ≤ C)
    {c : Config World Session Call Call.Answer Error Unit}
    (h : Reaches (session g) World.step (Within g C) (Alone account) w c) : debt account c.world ≤ C := by
  have hb : -(C : Int) ≤ tokensOf (w.store.allEntries account) := by
    unfold debt at hd
    omega
  have hi := (protocol hr account).invariant ⟨hw, hb, atMostOne_nil, fun _ hv => nomatch hv⟩ h
  have := hi.bounded
  unfold debt
  omega

def shop : Gateway := { catalog := defaultCatalog }

def costly (runId : String) : Session := ⟨"A", runId, some { tokens := 2000000, calls := 1 }⟩

def starting (i : Nat) : List (Event Session Reply) :=
  [.step i (.time 0), .step i .done, .step i .done, .step i (.text "week"), .step i (.time 0), .step i .done,
    .step i .done]

def charging (i : Nat) (entryId : String) : List (Event Session Reply) :=
  [.step i (.text entryId), .step i (.time 0), .step i .done, .finish i]

def oneAfterAnother : List (Event Session Reply) :=
  .start (costly "r") :: .start (costly "s") :: starting 0 ++ charging 0 "e" ++
    [.step 1 (.time 0), .step 1 .done, .step 1 .done, .finish 1]

theorem debt_within_one_run_refused :
    ∃ c, Reaches (session shop) World.step (Within shop 2000000) (Alone "A") {} c ∧
      debt "A" c.world = 1166667 ∧ debt "A" c.world ≤ (2000000 : Nat) := by
  have hrun : (run (session shop) World.step (Within shop 2000000) (Alone "A") ⟨{}, []⟩ oneAfterAnother).any
      (fun c => debt "A" c.world = 1166667) = true := by decide +kernel
  obtain ⟨c, hc, hp⟩ := reaches_of_run hrun
  exact ⟨c, hc, of_decide_eq_true hp,
    debt_within_one_run shop (by decide) 2000000 "A" Written.nil (by decide) hc⟩

def bothAuthorised : List (Event Session Reply) :=
  .start (costly "r") :: .start (costly "s") :: starting 0 ++
    [.step 1 (.time 0), .step 1 .done, .step 1 .done] ++ charging 0 "e" ++ charging 1 "f"

theorem two_runs_overspent : 0 < shop.reserve ∧ Written "A" [] ∧
    ∃ c, Reaches (session shop) World.step (Within shop 2000000) anyStep {} c ∧ debt "A" c.world = 3166667 ∧
      ¬ debt "A" c.world ≤ (2000000 : Nat) := by
  have hrun : (run (session shop) World.step (Within shop 2000000) anyStep ⟨{}, []⟩ bothAuthorised).any
      (fun c => debt "A" c.world = 3166667) = true := by decide +kernel
  obtain ⟨c, hc, hp⟩ := reaches_of_run hrun
  have hd : debt "A" c.world = 3166667 := of_decide_eq_true hp
  exact ⟨by decide, Written.nil, c, hc, hd, by rw [hd]; decide⟩

end CodeZard.Overspends
