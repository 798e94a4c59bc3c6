import CodeZard.Hearings
import CodeZard.References

namespace CodeZard.Sources

open Amounts Products Ledgers Periods Invoices Programs Ports Interleaving Requests BillingService Endings Hearings
open X402Service (orElse)

def Product.paidKind : Product → EntryKind
  | .plan _ => .grant
  | .pack _ => .purchase

/-- What an entry was written for, by what its call had been told before. -/
inductive Sourced (g : Gateway) (q : Request) (log : BillingLog) (e : LedgerEntry) : Prop
  | sold (i : Invoice) (p : ObservedPayment) (product : Product)
      (found : ⟨.invoice i.id, .ok (some i)⟩ ∈ log) (observed : ⟨.paymentFor i, .ok (some p)⟩ ∈ log)
      (settles : p.settles i = .ok true) (offered : g.catalog.product i.sku = .ok product)
      (entry : e = ⟨e.id, i.account, Product.paidKind product, i.tokens, e.at_, i.price, .invoice i.id, e.memo⟩)
  | redeemed (r : X402Service.PaymentRequirements) (i j : Invoice) (transaction : String) (verified : VerifyResult)
      (result : SettleResult) (found : Found r.invoice log i) (asked : Found r.invoice log j)
      (verdict : ⟨.verify transaction j, .ok verified⟩ ∈ log) (valid : verified.valid = true)
      (taken : ⟨.settle transaction, .ok result⟩ ∈ log) (success : result.success = true)
      (entry : e = ⟨e.id, orElse (orElse result.payer verified.payer) i.account, .purchase, i.tokens, e.at_, i.price,
        .x402 result.transaction, e.memo⟩)
  | free (account : String) (plan : Plan) (now : Datetime) (offered : plan ∈ g.catalog.plans) (free : plan.isFree = true)
      (told : ⟨.now, .ok now⟩ ∈ log)
      (begun : ⟨.putSubscription (.begin account plan now), .ok (.begin account plan now)⟩ ∈ log)
      (entry : e = ⟨e.id, account, .grant, plan.tokens, e.at_, {}, .grant plan.id (now + plan.period), e.memo⟩)
  | chain (account : String) (o : OnChainSubscription) (plan : Plan) (now : Datetime)
      (reported : ⟨.onChain account, .ok (some o)⟩ ∈ log) (told : ⟨.now, .ok now⟩ ∈ log) (active : o.active now = true)
      (offered : g.catalog.plan o.plan = .ok plan)
      (entry : e = ⟨e.id, account, .grant, plan.tokens, e.at_, {}, o.reference, e.memo⟩)
  | spent (account runId : String) (usage : Usage) (tokens : Int) (asked : q = .charge account runId usage)
      (billable : g.catalog.pricing.billable usage = .ok tokens) (positive : 0 < tokens)
      (entry : e = ⟨e.id, account, .usage, -tokens, e.at_, usage.cost, .run runId, e.memo⟩)
  | lapsed (account : String) (s : Subscription) (entries : List LedgerEntry) (now : Datetime)
      (found : ⟨.subscription account, .ok (some s)⟩ ∈ log) (told : ⟨.now, .ok now⟩ ∈ log) (due : s.due now = true)
      (read : ⟨.allEntries account, .ok entries⟩ ∈ log) (positive : 0 < (balanceOf account entries).granted)
      (entry : e = ⟨e.id, account, .expiry, -(balanceOf account entries).granted, now, {}, s.expiryReference, e.memo⟩)
  | credited (account : String) (tokens : Int) (kind : EntryKind) (reference : Reference) (amount : Money) (memo : String)
      (asked : q = .credit account tokens kind reference amount memo) (credits : 0 ≤ tokens)
      (entry : e = ⟨e.id, account, kind, tokens, e.at_, amount, reference, memo⟩)

theorem plan_mem {c : Catalog} {sku : String} {p : Plan} (h : c.plan sku = .ok p) : p ∈ c.plans := by
  have hproduct := Catalog.product_of_plan h
  rw [Catalog.product] at hproduct
  split at hproduct
  · rename_i hfind
    have hmem := List.mem_of_find?_eq_some hfind
    cases hproduct
    simpa [Catalog.everything] using hmem
  · cases hproduct

section Programs

variable {g : Gateway} {q : Request} {log : BillingLog} {α : Type}

theorem Sourced.suffix {log' : BillingLog} {e : LedgerEntry} (h : Sourced g q log e) (hs : log <:+ log') :
    Sourced g q log' e := by
  cases h with
  | sold i p product found observed settles offered entry =>
      exact .sold i p product (hs.subset found) (hs.subset observed) settles offered entry
  | redeemed r i j transaction verified result found asked verdict valid taken success entry =>
      exact .redeemed r i j transaction verified result (found.suffix hs) (asked.suffix hs) (hs.subset verdict) valid
        (hs.subset taken) success entry
  | free account plan now offered free told begun entry =>
      exact .free account plan now offered free (hs.subset told) (hs.subset begun) entry
  | chain account o plan now reported told active offered entry =>
      exact .chain account o plan now (hs.subset reported) (hs.subset told) active offered entry
  | spent account runId usage tokens asked billable positive entry =>
      exact .spent account runId usage tokens asked billable positive entry
  | lapsed account s entries now found told due read positive entry =>
      exact .lapsed account s entries now (hs.subset found) (hs.subset told) due (hs.subset read) positive entry
  | credited account tokens kind reference amount memo asked credits entry =>
      exact .credited account tokens kind reference amount memo asked credits entry

def guard (g : Gateway) (q : Request) (log : BillingLog) : Call → Prop
  | .append e => Sourced g q log e
  | _ => True

abbrev Backs (g : Gateway) (q : Request) (p : Billing α) (log : BillingLog) : Prop :=
  Keeps (guard g q) said (fun _ _ => True) p log

theorem backs_ask {c : Call} (h : guard g q log c) : Backs g q (ask c) log := keeps_perform.2 ⟨h, fun _ _ => trivial⟩

theorem backs_ask_bind {c : Call} {f : c.Answer → Billing α} (h : guard g q log c)
    (hf : ∀ v, said log c (.ok v) → Backs g q (f v) (⟨c, .ok v⟩ :: log)) : Backs g q ((ask c).bind f) log := by
  refine keeps_perform_bind.2 ⟨h, fun a ha => ?_⟩
  cases a with
  | ok v => exact hf v ha
  | error e => trivial

theorem backs_bind {β : Type} {p : Billing β} {f : β → Billing α} (hp : Backs g q p log)
    (hf : ∀ b log, Backs g q (f b) log) : Backs g q (p.bind f) log := by
  refine keeps_bind.2 (hp.mono fun o log _ => ?_)
  cases o with
  | ok b => exact hf b log
  | error e => trivial

theorem backs_map {β : Type} {p : Billing β} (hp : Backs g q p log) (f : β → α) : Backs g q (f <$> p) log :=
  backs_bind hp fun _ _ => trivial

theorem backs_of_writes {p : Billing α} (h : References.Writes { entry := fun _ => False } said p) : Backs g q p log := by
  refine (h log trivial).weaken fun log c hc => ?_
  cases c with
  | append e => exact hc.elim
  | _ => trivial

theorem backs_credit {account memo : String} {tokens : Int} {kind : EntryKind} {reference : Reference} {amount : Money}
    (h : 0 ≤ tokens → ∀ id now, Sourced g q log ⟨id, account, kind, tokens, now, amount, reference, memo⟩) :
    Backs g q (credit account tokens kind reference amount memo) log := by
  rw [credit]
  split
  · trivial
  · rename_i hcredits
    refine backs_ask_bind trivial fun id _ => backs_ask_bind trivial fun now _ => backs_ask ?_
    exact (h (not_lt.1 hcredits) id now).suffix ((List.suffix_cons _ _).trans (List.suffix_cons _ _))

section Periods

variable (account : String) (now : Datetime)

theorem backs_mirrorChain (hnow : ⟨.now, .ok now⟩ ∈ log) : Backs g q (mirrorChain g account now) log := by
  have hread : Keeps (guard g q) said (fun o log => ⟨.now, .ok now⟩ ∈ log ∧ ∀ o', o = .ok (some o') →
      ⟨.onChain account, .ok (some o')⟩ ∈ log) (readChain g account) log := by
    rw [readChain]
    split
    · refine keeps_rescue.2 (keeps_perform.2 ⟨trivial, fun a _ => ?_⟩)
      cases a with
      | ok o =>
          refine ⟨List.mem_cons_of_mem _ hnow, fun o' h => ?_⟩
          rw [← Except.ok.inj h]
          exact List.mem_cons_self
      | error e =>
          dsimp only
          split
          · exact ⟨List.mem_cons_of_mem _ hnow, fun o' h => by cases h⟩
          · exact ⟨List.mem_cons_of_mem _ hnow, fun o' h => by cases h⟩
    · exact ⟨hnow, fun o' h => by cases h⟩
  refine keeps_bind.2 (hread.mono fun o log ho => ?_)
  cases o with
  | error e => trivial
  | ok found =>
      cases found with
      | none => trivial
      | some o =>
          obtain ⟨hnow, hreported⟩ := ho
          dsimp only
          split
          · trivial
          rename_i hactive
          split
          · trivial
          · rename_i plan hplan
            have hmirror : Backs g q (mirror account plan o) log := by
              refine backs_ask_bind trivial fun _ _ => backs_bind (backs_credit fun _ id at_ => ?_) fun _ _ => trivial
              exact .chain account o plan now (List.mem_cons_of_mem _ (hreported o rfl)) (List.mem_cons_of_mem _ hnow)
                (by simpa using hactive) hplan rfl
            exact backs_map hmirror some

theorem backs_begin {plan : Plan} (hnow : ⟨.now, .ok now⟩ ∈ log) (hplan : plan ∈ g.catalog.plans)
    (hfree : plan.isFree = true) : Backs g q (do
      let s ← store.putSubscription (.begin account plan now)
      let _ ← grant account plan s
      return some s) log := by
  refine backs_ask_bind trivial fun s hs => backs_bind ?_ fun _ _ => trivial
  obtain rfl := hs s rfl
  refine backs_credit fun _ id at_ => ?_
  exact .free account plan now hplan hfree (List.mem_cons_of_mem _ hnow) List.mem_cons_self rfl

theorem backs_expireGrant {s : Subscription} (hnow : ⟨.now, .ok now⟩ ∈ log)
    (hfound : ⟨.subscription account, .ok (some s)⟩ ∈ log) (hdue : s.due now = true) :
    Backs g q (expireGrant account s now) log := by
  have hbalance : Keeps (guard g q) said (fun o log => ∀ b, o = .ok b → ∃ entries,
      ⟨.allEntries account, .ok entries⟩ ∈ log ∧ b = balanceOf account entries) (balance account) log := by
    refine keeps_perform_bind.2 ⟨trivial, fun a _ => ?_⟩
    cases a with
    | error e => exact fun b h => nomatch h
    | ok entries => exact fun b h => ⟨entries, List.mem_cons_self, (Except.ok.inj h).symm⟩
  refine keeps_bind.2 (hbalance.suffix.mono fun o log' h => ?_)
  cases o with
  | error e => trivial
  | ok b =>
      obtain ⟨⟨entries, hread, rfl⟩, hs⟩ := And.imp_left (fun h => h b rfl) h
      dsimp only
      split
      · trivial
      · rename_i hpositive
        refine backs_ask_bind trivial fun id _ => backs_ask_bind ?_ fun _ _ => trivial
        refine Sourced.suffix ?_ (List.suffix_cons _ _)
        exact .lapsed account s entries now (hs.subset hfound) (hs.subset hnow) hdue hread (not_le.1 hpositive) rfl

theorem backs_settleRow (hnow : ⟨.now, .ok now⟩ ∈ log) : Backs g q (settleRow g account now) log := by
  refine backs_ask_bind trivial fun row hrow => ?_
  cases row with
  | none =>
      simp only [beginFree]
      split
      · trivial
      · rename_i plan hfree
        exact backs_begin account now (List.mem_cons_of_mem _ hnow) (List.mem_of_find?_eq_some hfree)
          (by simpa using List.find?_some hfree)
  | some s =>
      dsimp only
      split
      · trivial
      rename_i hdue
      have hexpire := backs_expireGrant (g := g) (q := q) account now (List.mem_cons_of_mem _ hnow) List.mem_cons_self
        (by simpa using hdue)
      refine keeps_bind.2 (hexpire.suffix.mono fun o log' h => ?_)
      cases o with
      | error e => trivial
      | ok _ =>
          have hput : Backs g q (store.putSubscription s.ended) log' := backs_ask trivial
          have hend : Backs g q (some <$> store.putSubscription s.ended) log' := backs_map hput some
          dsimp only
          split
          · rename_i plan hplan
            split
            · rename_i hfree
              have hrenewed : s.renewed plan now = .begin account plan now := by
                rw [Subscription.renewed, Subscription.begin, Catalog.plan_id hplan, ← hrow s rfl]
              rw [hrenewed]
              exact backs_begin account now (h.2.subset (List.mem_cons_of_mem _ hnow)) (plan_mem hplan) hfree
            · exact hend
          · exact hend

theorem backs_settlePeriod : Backs g q (settlePeriod g account) log := by
  refine backs_ask_bind trivial fun now _ => ?_
  refine keeps_bind.2 ((backs_mirrorChain account now List.mem_cons_self).suffix.mono fun o log' h => ?_)
  match o with
  | .error e => trivial
  | .ok none => exact backs_settleRow account now (h.2.subset List.mem_cons_self)
  | .ok (some s) => trivial

theorem backs_authorize (needed : Int) : Backs g q (authorize g account needed) log := by
  refine backs_bind (backs_settlePeriod account) fun _ log => backs_bind ?_ fun b log => ?_
  · exact backs_ask_bind trivial fun _ _ => trivial
  · dsimp only
    split <;> trivial

end Periods

theorem backs_charge {account runId : String} {usage : Usage} (hq : q = .charge account runId usage) :
    Backs g q (charge g account runId usage) log := by
  refine keeps_bind.2 (keeps_ofExcept.2 ?_)
  cases hb : g.catalog.pricing.billable usage with
  | error e => trivial
  | ok tokens =>
      dsimp only
      split
      · trivial
      · rename_i hpositive
        refine backs_ask_bind trivial fun id _ => backs_ask_bind trivial fun now _ => backs_map (backs_ask ?_) some
        exact .spent account runId usage tokens hq hb (not_le.1 hpositive) rfl

section Sales

theorem backs_deliver {i : Invoice} {p : ObservedPayment} (hfound : ⟨.invoice i.id, .ok (some i)⟩ ∈ log)
    (hobserved : ⟨.paymentFor i, .ok (some p)⟩ ∈ log) (hsettles : p.settles i = .ok true) :
    Backs g q (deliver g (i.paid p.txHash p.payer)) log := by
  refine keeps_bind.2 (keeps_ofExcept.2 ?_)
  cases hproduct : g.catalog.product i.sku with
  | error e =>
      have hpaid : g.catalog.product (i.paid p.txHash p.payer).sku = .error e := hproduct
      rw [hpaid]
      trivial
  | ok product =>
      have hpaid : g.catalog.product (i.paid p.txHash p.payer).sku = .ok product := hproduct
      rw [hpaid]
      cases product with
      | plan plan =>
          refine backs_bind (backs_credit fun _ id now => ?_) fun _ _ => backs_bind ?_ fun _ _ => trivial
          · exact .sold i p (.plan plan) hfound hobserved hsettles hproduct rfl
          · exact backs_of_writes (References.writes_subscribe (References.standing_any (g := g)) _ plan)
      | pack pack =>
          refine backs_bind (backs_credit fun _ id now => ?_) fun _ _ => trivial
          exact .sold i p (.pack pack) hfound hobserved hsettles hproduct rfl

theorem backs_confirm (id : String) : Backs g q (confirm g id) log := by
  refine backs_ask_bind trivial fun found hfound => ?_
  cases found with
  | none => trivial
  | some i =>
      obtain rfl := hfound i rfl
      dsimp only
      split
      · trivial
      · refine backs_ask_bind trivial fun observed _ => ?_
        cases observed with
        | none =>
            refine backs_ask_bind trivial fun now _ => ?_
            split
            · trivial
            · exact backs_ask trivial
        | some p =>
            refine keeps_bind.2 (keeps_ofExcept.2 ?_)
            cases hsettles : p.settles i with
            | error e => trivial
            | ok settled =>
                cases settled with
                | false => trivial
                | true =>
                    refine backs_ask_bind trivial fun paid hpaid => backs_bind ?_ fun _ _ => trivial
                    obtain rfl := hpaid paid rfl
                    exact backs_deliver (by simp) (by simp) hsettles

theorem backs_sweep (settled rest : List Invoice) : Backs g q (sweep g settled rest) log := by
  induction rest generalizing settled log with
  | nil => trivial
  | cons i rest ih =>
      have hone : Backs g q ((some <$> confirm g i.id).rescue fun e => if e.isException then .ret none else .raise e) log := by
        refine keeps_rescue.2 ((backs_map (backs_confirm i.id) some).mono fun o log _ => ?_)
        cases o with
        | ok _ => trivial
        | error e =>
            dsimp only
            split <;> trivial
      refine backs_bind hone fun o log => ?_
      cases o with
      | none => exact ih settled
      | some i =>
          dsimp only
          split
          · exact ih _
          · exact ih settled

theorem backs_reconcile (limit : Int) : Backs g q (reconcile g limit) log :=
  backs_ask_bind trivial fun invoices _ => backs_sweep [] invoices

end Sales

section Settlements

open X402Service

variable {r : PaymentRequirements}

theorem hears {p : Billing α} {post : Except Error α → BillingLog → Prop} (hb : Backs g q p log)
    (h : Keeps (fun _ _ => True) said post p log) : Keeps (guard g q) said post p log :=
  ((hb.and h).weaken fun _ _ hg => hg.1).mono fun _ _ ho => ho.2

theorem backs_invoiceOf : Backs g q (invoiceOf r) log := by
  rw [invoiceOf]
  split
  · trivial
  · refine backs_ask_bind trivial fun found _ => ?_
    cases found with
    | none => trivial
    | some i =>
        refine backs_ask_bind trivial fun now _ => ?_
        split <;> trivial

theorem backs_verify {payload : PaymentPayload} : Backs g q (X402Service.verify g payload r) log := by
  rw [X402Service.verify]
  split
  · trivial
  split
  · trivial
  split
  · trivial
  · refine backs_bind backs_invoiceOf fun found log => ?_
    cases found with
    | none => trivial
    | some i => exact backs_ask trivial

theorem backs_record {j : Invoice} {transaction : String} {verified : VerifyResult} {result : SettleResult}
    (hasked : Found r.invoice log j) (hverdict : ⟨.verify transaction j, .ok verified⟩ ∈ log) (hvalid : verified.valid = true)
    (htaken : ⟨.settle transaction, .ok result⟩ ∈ log) (hsuccess : result.success = true) :
    Backs g q (record r verified result) log := by
  refine keeps_bind.2 ((hears backs_invoiceOf (keeps_invoiceOf r log)).suffix.mono fun o log' h => ?_)
  match o, h with
  | .error e, _ => trivial
  | .ok none, _ => trivial
  | .ok (some i), ⟨hfound, hs⟩ =>
      refine backs_ask_bind trivial fun _ _ => backs_bind (backs_credit fun _ id now => ?_) fun _ _ => trivial
      have hlater {x : (c : Call) × Except Error c.Answer} (hx : x ∈ log) (y : (c : Call) × Except Error c.Answer) :
          x ∈ y :: log' :=
        List.mem_cons_of_mem _ (hs.subset hx)
      exact .redeemed r i j transaction verified result ((hfound i rfl).suffix (List.suffix_cons _ _))
        (hasked.suffix (hs.trans (List.suffix_cons _ _))) (hlater hverdict _) hvalid (hlater htaken _) hsuccess rfl

theorem backs_settle (payload : PaymentPayload) (r : PaymentRequirements) :
    Backs g q (X402Service.settle g payload r) log := by
  refine keeps_bind.2 ((hears backs_verify (keeps_verify payload r log)).mono fun o log h => ?_)
  cases o with
  | error e => trivial
  | ok verified =>
      dsimp only
      split
      · trivial
      rename_i hvalid
      have hv : verified.valid = true := by simpa using hvalid
      obtain ⟨j, hasked, hverdict⟩ := h verified rfl hv
      refine backs_ask_bind trivial fun result _ => ?_
      split
      · trivial
      · rename_i hsuccess
        exact backs_record (hasked.suffix (List.suffix_cons _ _)) (List.mem_cons_of_mem _ hverdict) hv List.mem_cons_self
          (by simpa using hsuccess)

theorem backs_redeem (payload : Except Error PaymentPayload) (resource : String) :
    Backs g q (X402Service.redeem g payload resource) log := by
  refine keeps_bind.2 (keeps_ofExcept.2 ?_)
  cases payload with
  | error e => trivial
  | ok payload =>
      have hnamed : Backs g q (namedInvoice payload) log := by
        rw [namedInvoice]
        split
        · trivial
        · exact backs_ask trivial
      refine backs_bind hnamed fun found log => ?_
      cases found with
      | none => trivial
      | some i =>
          refine backs_bind (backs_settle payload _) fun result log => ?_
          split <;> trivial

end Settlements

theorem backs_body : Backs g q (body g q) log := by
  cases q with
  | credit account tokens kind reference amount memo =>
      exact backs_map (backs_credit fun hc id now => .credited account tokens kind reference amount memo rfl hc rfl) _
  | checkout account sku asset =>
      exact backs_map (backs_of_writes (References.writes_checkout (fun _ => trivial) account sku asset)) _
  | requirements account resource price =>
      exact backs_map (backs_of_writes (References.writes_requirements (fun _ => trivial) account resource price)) _
  | confirm id => exact backs_map (backs_confirm id) _
  | reconcile limit => exact backs_map (backs_reconcile limit) _
  | settle payload r => exact backs_map (backs_settle payload r) _
  | redeem payload resource => exact backs_map (backs_redeem payload resource) _
  | charge account runId usage => exact backs_map (backs_charge rfl) _
  | settlePeriod account => exact backs_map (backs_settlePeriod account) _
  | authorize account needed => exact backs_map (backs_authorize account needed) _

end Programs

def appended : Call → LedgerEntry → Prop
  | .append e, x => x = e
  | _, _ => False

theorem appended_step {w w' : World} {c : Call} {r : Reply} {a : Except Error c.Answer} (h : w.step c r = some (a, w'))
    (x : LedgerEntry) (hx : x ∈ w'.store.ledger) : x ∈ w.store.ledger ∨ appended c x := by
  by_cases hc : ∃ e, c = .append e
  · obtain ⟨e, rfl⟩ := hc
    rcases step_append h with ⟨_, _, _, rfl⟩ | ⟨_, _, rfl⟩
    · exact .inl hx
    · exact Storage.Store.mem_append_ledger hx
  · push Not at hc
    rw [ledger_step hc h] at hx
    exact .inl hx

/-- An invoice that was read is still there, on the same terms. -/
def Kept (w : World) : (c : Call) → Except Error c.Answer → Prop
  | .invoice id, .ok (some i) => ∃ k, w.store.invoice id = some k ∧ i.SameTerms k
  | _, _ => True

theorem kept_new {w w' : World} {c : Call} {r : Reply} {a : Except Error c.Answer} (h : w.step c r = some (a, w')) :
    Kept w' c a := by
  cases c with
  | invoice id =>
      obtain ⟨rfl, rfl | ⟨e, _, rfl⟩⟩ := step_invoice h
      · cases hi : w'.store.invoice id with
        | none => trivial
        | some i => exact ⟨i, hi, rfl⟩
      · trivial
  | _ => trivial

theorem kept_old {w w' : World} {c : Call} {r : Reply} {a : Except Error c.Answer} (h : w.step c r = some (a, w'))
    (d : Call) (b : Except Error d.Answer) (hd : Kept w d b) : Kept w' d b := by
  cases d with
  | invoice id =>
      match b with
      | .ok (some i) =>
          obtain ⟨k, hk, hik⟩ := hd
          obtain ⟨k', hk', hkk⟩ := stored_step h hk
          exact ⟨k', hk', hik.trans hkk⟩
      | .ok none | .error _ => trivial
  | _ => trivial

/-- Every entry that a run leaves in the ledger has a source: a payment that was
seen, a transaction that was taken, a free week or a period on chain that has
begun, a charge for a run, a period that is over, or a credit that was asked for. -/
theorem entries_sourced {g : Gateway} {starts : Request → Prop} {rule : Rule} {w : World} {c : Pool}
    (h : Reachable g starts rule w c) {e : LedgerEntry} (he : e ∈ c.world.store.ledger) (hnew : e ∉ w.store.ledger) :
    ∃ v ∈ c.views, Sourced g v.request v.log e ∧ ∀ id i, ⟨.invoice id, .ok (some i)⟩ ∈ v.log →
      ∃ k, c.world.store.invoice id = some k ∧ i.SameTerms k := by
  have hwritten := Endings.of_written h (fun _ hs => appended_step hs) he
  obtain ⟨v, hv, ⟨d, b⟩, hy, hput⟩ := hwritten.resolve_left hnew
  refine ⟨v, hv, ?_, fun id i hi => ?_⟩
  · obtain ⟨before, hb, hg⟩ := (Endings.of_traced h (fun _ => backs_body)
      (fun _ hs => said_step [] hs) hv).before hy
    cases d with
    | append x =>
        cases hput
        exact Sourced.suffix hg hb
    | _ => cases hput
  · exact Endings.of_remembered h (fun _ hs => kept_new hs) (fun _ hs d b => kept_old hs d b) hv hi

def shop : Gateway := { catalog := defaultCatalog, destination := "GDEST" }

def soldOnce : List (Event Request Reply) := [
  .start (.settlePeriod "A"), .step 0 (.time 0), .step 0 .done, .step 0 .done, .step 0 (.text "e1"), .step 0 (.time 0),
  .step 0 .done, .finish 0,
  .start (.checkout "A" "tokens-1m" ""), .step 1 (.time 1), .step 1 (.text "cz1"), .step 1 (.text "80.0000000"),
  .step 1 .done, .finish 1,
  .start (.confirm "cz1"), .step 2 .done,
  .step 2 (.payment (some ⟨"t1", "GPAYER", "GDEST", "XLM", "80.0000000", "cz1", 2⟩)), .step 2 .done,
  .step 2 (.text "e2"), .step 2 (.time 3), .step 2 .done, .finish 2]

theorem entries_sourced_soldOnce : ∃ c : Pool, ∃ e ∈ c.world.store.ledger, e.reference = .invoice "cz1" ∧
    Reachable shop anyRequest anyStep {} c ∧ ∃ v ∈ c.views, Sourced shop v.request v.log e ∧
      ∀ id i, ⟨.invoice id, .ok (some i)⟩ ∈ v.log → ∃ k, c.world.store.invoice id = some k ∧ i.SameTerms k := by
  have hrun : (run (body shop) World.step anyRequest anyStep ⟨{}, []⟩ soldOnce).any (fun c =>
      c.world.store.ledger.any fun e => e.reference = .invoice "cz1") = true := by
    decide +kernel
  obtain ⟨c, hc, hp⟩ := reaches_of_run hrun
  obtain ⟨e, he, href⟩ := List.any_eq_true.1 hp
  exact ⟨c, e, he, of_decide_eq_true href, hc, entries_sourced hc he (by simp)⟩

end CodeZard.Sources
