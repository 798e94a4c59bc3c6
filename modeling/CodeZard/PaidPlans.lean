import CodeZard.Renewals

namespace CodeZard.PaidPlans

open Amounts Products Ledgers Periods Invoices Storage Programs Ports Interleaving Requests Renewals

def confirms (id : String) : Request → Bool
  | .confirm i => i = id
  | _ => false

/-- The requests of the race: the confirmation of one invoice and whatever
brings the account it is for up to date. -/
def Races (account id : String) (q : Request) : Prop := renews account q = true ∨ confirms id q = true

instance (account id : String) : DecidablePred (Races account id) := fun _ => inferInstanceAs (Decidable (_ ∨ _))

def delivering : BillingLog → Bool
  | ⟨.append _, .ok _⟩ :: _ => true
  | ⟨.now, _⟩ :: log => delivering log
  | ⟨.subscription _, _⟩ :: log => delivering log
  | _ => false

def settling (account : String) (v : InProgress) : Bool := renews account v.request && holding v

def paying (id : String) (v : InProgress) : Bool :=
  confirms id v.request && v.result.isNone && delivering v.log

/-- An entry that comes after the one with the reference. -/
def After (ledger : List LedgerEntry) (r : Reference) (x : LedgerEntry) : Prop :=
  ∃ P e Q, ledger = P ++ e :: Q ∧ e.reference = r ∧ x ∈ Q

def Begun (id : String) (v : InProgress) (s : Subscription) : Prop :=
  confirms id v.request = true ∧ ∃ x, ⟨.putSubscription s, .ok x⟩ ∈ v.log

/-- Until its period is over the row that the confirmation wrote is the row of
the account, and no expiry after its grant is of an earlier time. -/
def Kept (account id : String) (plan : Plan) (c : Pool) : Prop :=
  ∀ v ∈ c.views, ∀ s, Begun id v s → s.planId = plan.id ∧
    (c.world.clock < s.startedAt + plan.period → c.world.store.subscription account = some s) ∧
    ∀ x, After c.world.store.ledger (.invoice id) x → x.account = account → x.kind = .expiry →
      s.startedAt + plan.period ≤ x.at_

/-- There is one confirmation of the invoice. -/
def OneConfirm (id : String) : Rule := fun _ vs _ _ _ => vs.countP (fun v => confirms id v.request) ≤ 1

/-- The old period is not being settled when the credit of the new one is
written, and nobody sets about it before the new row is there. -/
def Undisturbed (account id : String) : Rule := fun w vs v c r =>
  match c, r with
  | .append _, .done => confirms id v.request = true → ∀ u ∈ vs, settling account u = false
  | .subscription _, .done => renews account v.request = true →
      wanting (w.store.subscription account) (clock v.log) = true → ∀ u ∈ vs, paying id u = false
  | _, _ => True

section Decisions

variable (account id : String) (w : World) (vs : List InProgress) (v : InProgress) (c : Call) (r : Reply)

instance : Decidable (OneConfirm id w vs v c r) := inferInstanceAs (Decidable (_ ≤ _))

instance : Decidable (Undisturbed account id w vs v c r) := by
  rcases c <;> rcases r <;> dsimp only [Undisturbed] <;> infer_instance

end Decisions

section Confirmations

variable {account id : String} {plan : Plan} {i : Invoice}

def guardConfirm (account id : String) (plan : Plan) (log : BillingLog) : Call → Prop
  | .append e => e.reference = .invoice id ∧ e.kind = .grant ∧ ∀ e x, ⟨.append e, .ok x⟩ ∉ log
  | .putSubscription s => delivering log = true ∧ s.account = account ∧ s.planId = plan.id ∧
      s.renewsAt = s.startedAt + plan.period ∧ ∀ s x, ⟨.putSubscription s, .ok x⟩ ∉ log
  | .invoice id' => id' = id
  | _ => True

/-- The invoice that is confirmed has the terms of `i`. -/
def admitsConfirm (i : Invoice) : BillingLog → (c : Call) → Except Error c.Answer → Prop
  | _, .now, a => ∃ t, a = .ok t
  | _, .entryId, a => ∃ s, a = .ok s
  | _, .invoice _, a => ∀ k, a = .ok (some k) → i.SameTerms k
  | _, .putInvoice k, a => ∀ x, a = .ok x → x = k
  | _, .subscription account, a => ∀ s, a = .ok (some s) → s.account = account
  | _, _, _ => True

theorem keeps_subscribe {log : BillingLog} (hd : delivering log = true)
    (hs : ∀ s x, ⟨.putSubscription s, .ok x⟩ ∉ log) :
    Keeps (guardConfirm account id plan) (admitsConfirm i) (fun _ _ => True)
      (BillingService.subscribe account plan) log := by
  refine keeps_perform_bind.2 ⟨trivial, fun a ha => ?_⟩
  obtain ⟨now, rfl⟩ := ha
  refine keeps_perform_bind.2 ⟨trivial, fun a ha => ?_⟩
  have hno (a : Except Error (Option Subscription)) :
      ∀ s x, ⟨.putSubscription s, .ok x⟩ ∉ (⟨.subscription account, a⟩ :: ⟨.now, .ok now⟩ :: log : BillingLog) := by
    intro s x
    simpa using hs s x
  match a with
  | .error e => trivial
  | .ok none => exact keeps_perform.2 ⟨⟨hd, rfl, rfl, rfl, hno _⟩, fun _ _ => trivial⟩
  | .ok (some current) =>
      simp only
      split
      · exact keeps_perform.2 ⟨⟨hd, ha current rfl, ‹_›, rfl, hno _⟩, fun _ _ => trivial⟩
      · exact keeps_perform.2 ⟨⟨hd, rfl, rfl, rfl, hno _⟩, fun _ _ => trivial⟩

theorem keeps_deliver {g : Gateway} {k : Invoice} (hacc : k.account = account)
    (hsku : g.catalog.product k.sku = .ok (.plan plan)) (hid : k.id = id) {log : BillingLog} (he : ∀ e x, ⟨.append e, .ok x⟩ ∉ log)
    (hs : ∀ s x, ⟨.putSubscription s, .ok x⟩ ∉ log) :
    Keeps (guardConfirm account id plan) (admitsConfirm i) (fun _ _ => True)
      (BillingService.deliver g k) log := by
  unfold BillingService.deliver
  simp only [hsku, ofExcept_ok, bind_eq, ret_bind, BillingService.credit]
  split
  · trivial
  · refine keeps_bind.2 (keeps_perform_bind.2 ⟨trivial, fun a ha => ?_⟩)
    obtain ⟨eid, rfl⟩ := ha
    refine keeps_perform_bind.2 ⟨trivial, fun a ha => ?_⟩
    obtain ⟨now, rfl⟩ := ha
    refine keeps_perform.2 ⟨⟨congrArg _ hid, rfl, fun e x => by simpa using he e x⟩, fun a _ => ?_⟩
    cases a with
    | error e => trivial
    | ok x =>
        rw [hacc]
        refine keeps_bind.2 ((keeps_subscribe rfl fun s x => by simpa using hs s x).mono fun o log _ => ?_)
        cases o <;> trivial

theorem keeps_confirm {g : Gateway} (hacc : i.account = account)
    (hsku : g.catalog.product i.sku = .ok (.plan plan)) (hid : i.id = id) :
    Keeps (guardConfirm account id plan) (admitsConfirm i) (fun _ _ => True) (body g (.confirm id)) [] := by
  refine keeps_bind.2 (keeps_perform_bind.2 ⟨rfl, fun a ha => ?_⟩)
  match a with
  | .error e => trivial
  | .ok none => trivial
  | .ok (some k) =>
      have hk := ha k rfl
      simp only
      split
      · trivial
      · refine keeps_perform_bind.2 ⟨trivial, fun a _ => ?_⟩
        match a with
        | .error e => trivial
        | .ok none =>
            refine keeps_perform_bind.2 ⟨trivial, fun a ha => ?_⟩
            obtain ⟨now, rfl⟩ := ha
            simp only
            split
            · trivial
            · refine keeps_perform.2 ⟨trivial, fun a _ => ?_⟩
              cases a <;> trivial
        | .ok (some payment) =>
            simp only
            cases payment.settles k with
            | error e => trivial
            | ok settled =>
                cases settled with
                | false => trivial
                | true =>
                    refine keeps_perform_bind.2 ⟨trivial, fun a ha => ?_⟩
                    match a with
                    | .error e => trivial
                    | .ok paid =>
                        obtain rfl := ha paid rfl
                        have hacc' : k.account = account := hk.account_eq.trans hacc
                        have hsku' : g.catalog.product k.sku = .ok (.plan plan) := hk.sku_eq ▸ hsku
                        refine keeps_bind.2 ((keeps_deliver hacc' hsku' (hk.id_eq.trans hid) (by simp) (by simp)).mono
                          fun o log _ => ?_)
                        cases o <;> trivial

end Confirmations

/-- Some call that settles an old period holds the row, as read at the time. -/
def Settles (account : String) (vs : List InProgress) (s : Option Subscription) (now : Datetime) : Prop :=
  ∃ u ∈ vs, settling account u = true ∧ held u.log = some (s, now)

/-- Nobody is settling the old period, and nobody did since the credit. -/
structure Calm (account id : String) (w : World) (vs : List InProgress) : Prop where
  settles : ∀ s now, ¬ Settles account vs s now
  later : ∀ x, After w.store.ledger (.invoice id) x → x.account = account → x.kind ≠ .expiry

/-- The row that the confirmation wrote stands until its period is over. -/
structure Standing (account id : String) (plan : Plan) (w : World) (vs : List InProgress) (s : Subscription) : Prop where
  planId : s.planId = plan.id
  period : s.renewsAt = s.startedAt + plan.period
  row : ∃ r, w.store.subscription account = some r ∧ (r = s ∨ s.renewsAt ≤ w.clock) ∧
    (r.status = .active → s.renewsAt ≤ r.renewsAt)
  settles : ∀ s' now, Settles account vs s' now → s.renewsAt ≤ now
  later : ∀ x, After w.store.ledger (.invoice id) x → x.account = account → x.kind = .expiry → s.renewsAt ≤ x.at_

structure Race (account id : String) (plan : Plan) (w : World) (vs : List InProgress) : Prop where
  past : ∀ s now, Settles account vs s now → now ≤ w.clock
  granted : ∀ e ∈ w.store.ledger, e.reference = .invoice id →
    ∃ v ∈ vs, confirms id v.request = true ∧ ∃ e x, ⟨.append e, .ok x⟩ ∈ v.log
  calm : (∃ v ∈ vs, paying id v = true) → Calm account id w vs
  begun : ∀ s, (∃ v ∈ vs, Begun id v s) → Standing account id plan w vs s

structure Inv (account id : String) (plan : Plan) (i : Invoice) (w : World) (vs : List InProgress) : Prop where
  requests : ∀ v ∈ vs, Races account id v.request
  terms : ∃ k, w.store.invoice id = some k ∧ i.SameTerms k
  told : ∀ v ∈ vs, ∀ t, ⟨.now, .ok t⟩ ∈ v.log → t ≤ w.clock
  race : Race account id plan w vs

section Steps

variable {g : Gateway} {account id : String} {plan : Plan} {i : Invoice} {w w' : World} {vs vs' : List InProgress}
  {n : Nat} {q : Request} {log : BillingLog} {x : (c : Call) × Except Error c.Answer}

theorem after_snoc {L : List LedgerEntry} {r : Reference} {x y : LedgerEntry} (h : After (L ++ [y]) r x) :
    After L r x ∨ x = y := by
  obtain ⟨P, e, Q, hL, hr, hx⟩ := h
  rcases List.eq_nil_or_concat Q with rfl | ⟨Q, z, rfl⟩
  · cases hx
  · rw [List.concat_eq_append, ← List.cons_append, ← List.append_assoc] at hL
    obtain ⟨rfl, hz⟩ := List.append_inj' hL rfl
    cases hz
    rw [List.concat_eq_append] at hx
    rcases List.mem_append.1 hx with hx | hx
    · exact .inl ⟨P, e, Q, rfl, hr, hx⟩
    · exact .inr (List.mem_singleton.1 hx)

theorem after_append {s : Store} {r : Reference} {x e : LedgerEntry} (h : After (s.append e).2.ledger r x) :
    After s.ledger r x ∨ x = e := by
  rcases s.append_cases e with ⟨_, _, _, ha⟩ | ⟨_, _, _, ha⟩ | ⟨_, _, ha⟩ <;> rw [ha] at h
  · exact .inl h
  · exact .inl h
  · exact after_snoc h

theorem Calm.mono (h : Calm account id w vs)
    (hs : ∀ s now, Settles account vs' s now → ∃ s now, Settles account vs s now)
    (hl : ∀ x, After w'.store.ledger (.invoice id) x → x.kind = .expiry → After w.store.ledger (.invoice id) x) :
    Calm account id w' vs' where
  settles s now hb := (hs s now hb).elim fun s hb => hb.elim fun now hb => h.settles s now hb
  later x hx ha hk := h.later x (hl x hx hk) ha hk

theorem Standing.mono {s : Subscription} (h : Standing account id plan w vs s)
    (hr : w'.store.subscription account = w.store.subscription account) (hc : w.clock ≤ w'.clock)
    (hs : ∀ s' now, Settles account vs' s' now → Settles account vs s' now ∨ s.renewsAt ≤ now)
    (hl : ∀ x, After w'.store.ledger (.invoice id) x → x.kind = .expiry →
      After w.store.ledger (.invoice id) x ∨ s.renewsAt ≤ x.at_) : Standing account id plan w' vs' s where
  planId := h.planId
  period := h.period
  row := by
    obtain ⟨r, hrow, hsame, hact⟩ := h.row
    exact ⟨r, hr.trans hrow, hsame.imp_right fun ht => le_trans ht hc, hact⟩
  settles s' now hb := (hs s' now hb).elim (h.settles s' now) (fun ht => ht)
  later x hx ha hk := (hl x hx hk).elim (fun hx => h.later x hx ha hk) (fun ht => ht)

theorem settling_iff : settling account ⟨q, log, none⟩ = true ↔
    renews account q = true ∧ ∃ s now, held log = some (s, now) := by
  rw [settling, Bool.and_eq_true, holding_iff]

theorem settles_set (hn : vs[n]? = some ⟨q, log, none⟩) {s : Option Subscription} {now : Datetime}
    (h : Settles account (vs.set n ⟨q, x :: log, none⟩) s now) : Settles account vs s now ∨
      (renews account q = true ∧ (∃ b, x = ⟨.subscription b, .ok s⟩) ∧ now = clock log ∧ wanting s now = true) := by
  rcases exists_of_set h with ⟨hs, hh⟩ | h
  · have hq := (settling_iff.1 hs).1
    rcases held_cons hh with hh | ⟨hx, hnow, hw⟩
    · exact .inl ⟨_, List.mem_of_getElem? hn, settling_iff.2 ⟨hq, s, now, hh⟩, hh⟩
    · exact .inr ⟨hq, hx, hnow, hw⟩
  · exact .inl h

theorem delivering_cons (h : delivering (x :: log) = true) :
    delivering log = true ∨ ∃ e y, x = ⟨.append e, .ok y⟩ := by
  unfold delivering at h
  split at h
  · rename_i hx
    exact .inr ⟨_, _, (List.cons.inj hx).1⟩
  · rename_i hx
    exact .inl ((List.cons.inj hx).2 ▸ h)
  · rename_i hx
    exact .inl ((List.cons.inj hx).2 ▸ h)
  · cases h

theorem paying_iff : paying id ⟨q, log, none⟩ = true ↔ confirms id q = true ∧ delivering log = true := by
  simp [paying]

theorem paying_set (hn : vs[n]? = some ⟨q, log, none⟩) (h : ∃ v ∈ vs.set n ⟨q, x :: log, none⟩, paying id v = true) :
    (∃ v ∈ vs, paying id v = true) ∨ (confirms id q = true ∧ ∃ e y, x = ⟨.append e, .ok y⟩) := by
  rcases exists_of_set h with h | h
  · obtain ⟨hq, hd⟩ := paying_iff.1 h
    rcases delivering_cons hd with hd | hx
    · exact .inl ⟨_, List.mem_of_getElem? hn, paying_iff.2 ⟨hq, hd⟩⟩
    · exact .inr ⟨hq, hx⟩
  · exact .inl h

theorem begun_set (hn : vs[n]? = some ⟨q, log, none⟩) {s : Subscription}
    (h : ∃ v ∈ vs.set n ⟨q, x :: log, none⟩, Begun id v s) :
    (∃ v ∈ vs, Begun id v s) ∨ (confirms id q = true ∧ ∃ y, x = ⟨.putSubscription s, .ok y⟩) := by
  rcases exists_of_set h with ⟨hq, y, hx⟩ | h
  · rcases List.mem_cons.1 hx with hx | hx
    · exact .inr ⟨hq, y, hx.symm⟩
    · exact .inl ⟨_, List.mem_of_getElem? hn, hq, y, hx⟩
  · exact .inl h

theorem granted_set (hn : vs[n]? = some ⟨q, log, none⟩)
    (h : ∃ v ∈ vs, confirms id v.request = true ∧ ∃ e y, ⟨.append e, .ok y⟩ ∈ v.log) :
    ∃ v ∈ vs.set n ⟨q, x :: log, none⟩, confirms id v.request = true ∧ ∃ e y, ⟨.append e, .ok y⟩ ∈ v.log := by
  obtain ⟨v, hv, hq, e, y, he⟩ := h
  rcases mem_set_or_eq hn hv ⟨q, x :: log, none⟩ with hv | rfl
  · exact ⟨v, hv, hq, e, y, he⟩
  · exact ⟨_, mem_set_self hn _, hq, e, y, List.mem_cons_of_mem _ he⟩

theorem Race.quiet (h : Race account id plan w vs) (hn : vs[n]? = some ⟨q, log, none⟩) (hc : w.clock ≤ w'.clock)
    (hr : w'.store.subscription account = w.store.subscription account) (hl : w'.store.ledger = w.store.ledger)
    (hw : renews account q = true → ∀ b s, x = ⟨.subscription b, .ok s⟩ → wanting s (clock log) = false)
    (hp : ∀ s y, x ≠ ⟨.putSubscription s, .ok y⟩) (ha : ∀ e y, x ≠ ⟨.append e, .ok y⟩) :
    Race account id plan w' (vs.set n ⟨q, x :: log, none⟩) := by
  have hs (s : Option Subscription) (now : Datetime) (hb : Settles account (vs.set n ⟨q, x :: log, none⟩) s now) :
      Settles account vs s now := by
    rcases settles_set hn hb with hb | ⟨hq, ⟨b, hx⟩, rfl, hwant⟩
    · exact hb
    · rw [hw hq b s hx] at hwant
      cases hwant
  refine ⟨fun s now hb => le_trans (h.past s now (hs s now hb)) hc, fun e he hr => ?_, fun hb => ?_, fun s hb => ?_⟩
  · exact granted_set hn (h.granted e (hl ▸ he) hr)
  · have hold := (paying_set hn hb).resolve_right fun ⟨_, e, y, hx⟩ => ha e y hx
    exact (h.calm hold).mono (fun s now hb => ⟨s, now, hs s now hb⟩) fun x hx _ => hl ▸ hx
  · have hold := (begun_set hn hb).resolve_right fun ⟨_, y, hx⟩ => hp s y hx
    exact (h.begun s hold).mono hr hc (fun s' now hb => .inl (hs s' now hb)) fun x hx _ => .inl (hl ▸ hx)

theorem Race.look (h : Race account id plan w vs) (hn : vs[n]? = some ⟨q, log, none⟩) (hc : clock log ≤ w.clock)
    (hno : ∀ v ∈ vs, paying id v = false) (b : String) :
    Race account id plan w
      (vs.set n ⟨q, ⟨.subscription b, .ok (w.store.subscription account)⟩ :: log, none⟩) := by
  have hs (s : Option Subscription) (now : Datetime) (hb : Settles account
      (vs.set n ⟨q, ⟨.subscription b, .ok (w.store.subscription account)⟩ :: log, none⟩) s now) :
      Settles account vs s now ∨ (s = w.store.subscription account ∧ now = clock log ∧ wanting s now = true) := by
    rcases settles_set hn hb with hb | ⟨_, ⟨_, hx⟩, hnow, hwant⟩
    · exact .inl hb
    · exact .inr ⟨by simpa using (Sigma.mk.inj hx).2.symm, hnow, hwant⟩
  refine ⟨fun s now hb => ?_, fun e he hr => granted_set hn (h.granted e he hr), fun hb => ?_, fun s hb => ?_⟩
  · rcases hs s now hb with hb | ⟨_, rfl, _⟩
    · exact h.past s now hb
    · exact hc
  · obtain ⟨v, hv, hp⟩ := (paying_set hn hb).resolve_right (by simp)
    simp [hno v hv] at hp
  · have hst := h.begun s ((begun_set hn hb).resolve_right (by simp))
    refine hst.mono rfl le_rfl (fun s' now hb => ?_) fun x hx _ => .inl hx
    rcases hs s' now hb with hb | ⟨rfl, _, hwant⟩
    · exact .inl hb
    · obtain ⟨r, hrow, _, hact⟩ := hst.row
      rw [hrow] at hwant
      obtain ⟨ha, hd⟩ := Subscription.due_iff.1 hwant
      exact .inr (le_trans (hact ha) hd)

theorem Follows.renewsAt {s₀ : Option Subscription} {now : Datetime} {s : Subscription}
    (h : Follows g account now s₀ s) (ha : s.status = .active) : now ≤ s.renewsAt := by
  have hlater (p : Plan) : now ≤ now + p.period := Int.le_add_of_nonneg_right p.period_pos.le
  cases s₀ with
  | none =>
      obtain ⟨p, _, rfl⟩ := h
      exact hlater p
  | some r =>
      rcases h with rfl | ⟨p, _, _, rfl⟩
      · cases ha
      · exact hlater p

theorem Race.settle (h : Race account id plan w vs) (hn : vs[n]? = some ⟨q, log, none⟩)
    (hq : renews account q = true) {s : Subscription} (hg : Renewals.guard g account log (.putSubscription s)) :
    Race account id plan { w with store := w.store.putSubscription s }
      (vs.set n ⟨q, ⟨.putSubscription s, .ok s⟩ :: log, none⟩) := by
  obtain ⟨hacc, s₀, now, hh, hf⟩ := hg
  have hself : Settles account vs s₀ now :=
    ⟨_, List.mem_of_getElem? hn, settling_iff.2 ⟨hq, s₀, now, hh⟩, hh⟩
  have hs (s' : Option Subscription) (now : Datetime)
      (hb : Settles account (vs.set n ⟨q, ⟨.putSubscription s, .ok s⟩ :: log, none⟩) s' now) :
      Settles account vs s' now := (settles_set hn hb).resolve_right (by simp)
  refine ⟨fun s now hb => h.past s now (hs s now hb), fun e he hr => granted_set hn (h.granted e he hr),
    fun hb => ?_, fun s₁ hb => ?_⟩
  · exact absurd hself ((h.calm ((paying_set hn hb).resolve_right (by simp))).settles s₀ now)
  · rcases begun_set hn hb with hb | ⟨hq', _⟩
    · have hst := h.begun s₁ hb
      have hle := hst.settles s₀ now hself
      refine ⟨hst.planId, hst.period, ⟨s, hacc ▸ w.store.subscription_put s, ?_, fun ha => ?_⟩,
        fun s' now hb => hst.settles s' now (hs s' now hb), hst.later⟩
      · exact .inr (le_trans hle (h.past s₀ now hself))
      · exact le_trans hle (Follows.renewsAt hf ha)
    · cases q <;> simp_all [renews, confirms]

theorem Race.enter (h : Race account id plan w vs) (hn : vs[n]? = some ⟨q, log, none⟩)
    (hq : renews account q = true) {e : LedgerEntry} (hg : Enters account log e) (a : Except Error LedgerEntry) :
    Race account id plan { w with store := (w.store.append e).2 } (vs.set n ⟨q, ⟨.append e, a⟩ :: log, none⟩) := by
  have hq' : confirms id q = false := by cases q <;> simp_all [renews, confirms]
  have hexp (hk : e.kind = .expiry) : ∃ s, Settles account vs s e.at_ := by
    rcases hg.2 with ⟨_, s, now, hh, hat, _⟩ | ⟨hk', _⟩
    · exact ⟨some s, _, List.mem_of_getElem? hn, settling_iff.2 ⟨hq, some s, now, hh⟩, hat ▸ hh⟩
    · rw [hk] at hk'
      cases hk'
  have href : e.reference ≠ .invoice id := by
    rcases hg.2 with ⟨_, s, _, _, _, hr⟩ | ⟨_, s, _, _, hr⟩ <;>
      simp [hr, Subscription.expiryReference, Subscription.grantReference]
  have hs (s : Option Subscription) (now : Datetime)
      (hb : Settles account (vs.set n ⟨q, ⟨.append e, a⟩ :: log, none⟩) s now) : Settles account vs s now :=
    (settles_set hn hb).resolve_right (by simp)
  refine ⟨fun s now hb => h.past s now (hs s now hb), fun x hx hr => ?_, fun hb => ?_, fun s hb => ?_⟩
  · rcases Store.mem_append_ledger hx with hx | rfl
    · exact granted_set hn (h.granted x hx hr)
    · exact absurd hr href
  · have hcalm := h.calm ((paying_set hn hb).resolve_right (by simp [hq']))
    refine hcalm.mono (fun s now hb => ⟨s, now, hs s now hb⟩) fun x hx hk => ?_
    rcases after_append hx with hx | rfl
    · exact hx
    · obtain ⟨s, hb⟩ := hexp hk
      exact absurd hb (hcalm.settles s _)
  · have hst := h.begun s ((begun_set hn hb).resolve_right (by simp))
    refine hst.mono (w.store.subscription_append e account) le_rfl (fun s' now hb => .inl (hs s' now hb)) fun x hx hk => ?_
    rcases after_append hx with hx | rfl
    · exact .inl hx
    · obtain ⟨s', hb⟩ := hexp hk
      exact .inr (hst.settles s' _ hb)

theorem Race.pay (h : Race account id plan w vs) (hn : vs[n]? = some ⟨q, log, none⟩) (hq : confirms id q = true)
    (hone : AtMostOne (fun v : InProgress => confirms id v.request = true) vs) {e : LedgerEntry}
    (hg : guardConfirm account id plan log (.append e)) (hno : ∀ u ∈ vs, settling account u = false) :
    Race account id plan { w with store := (w.store.append e).2 }
      (vs.set n ⟨q, ⟨.append e, (w.store.append e).1⟩ :: log, none⟩) := by
  obtain ⟨href, hkind, hfirst⟩ := hg
  have hnone : ∀ x ∈ w.store.ledger, x.reference ≠ .invoice id := by
    intro x hx hr
    obtain ⟨v, hv, hqv, y, z, hy⟩ := h.granted x hx hr
    obtain rfl := hone.eq_of_mem hv (List.mem_of_getElem? hn) hqv hq
    exact hfirst y z hy
  have hs (s : Option Subscription) (now : Datetime) :
      ¬ Settles account (vs.set n ⟨q, ⟨.append e, (w.store.append e).1⟩ :: log, none⟩) s now := fun hb => by
    obtain ⟨u, hu, hset, _⟩ := (settles_set hn hb).resolve_right (by simp)
    simp [hno u hu] at hset
  have hl (x : LedgerEntry) (hx : After (w.store.append e).2.ledger (.invoice id) x) : x.kind ≠ .expiry := by
    rcases after_append hx with ⟨P, y, Q, hL, hr, _⟩ | rfl
    · exact absurd hr (hnone y (by simp [hL]))
    · simp [hkind]
  refine ⟨fun s now hb => absurd hb (hs s now), fun x hx hr => ?_, fun _ => ⟨hs, fun x hx _ => hl x hx⟩, fun s hb => ?_⟩
  · refine ⟨_, mem_set_self hn _, hq, ?_⟩
    rcases w.store.append_cases e with ⟨y, hy, hyr, _⟩ | ⟨_, _, _, ha⟩ | ⟨_, _, ha⟩
    · exact absurd (hyr.trans href) (hnone y hy)
    · rw [ha] at hx
      exact absurd hr (hnone x hx)
    · exact ⟨e, e, by simp [ha]⟩
  · have hst := h.begun s ((begun_set hn hb).resolve_right (by simp))
    exact hst.mono (w.store.subscription_append e account) le_rfl (fun s' now hb => absurd hb (hs s' now))
      fun x hx hk => absurd hk (hl x hx)

theorem Race.begin (h : Race account id plan w vs) (hn : vs[n]? = some ⟨q, log, none⟩) (hq : confirms id q = true)
    (hone : AtMostOne (fun v : InProgress => confirms id v.request = true) vs) {s : Subscription}
    (hg : guardConfirm account id plan log (.putSubscription s)) :
    Race account id plan { w with store := w.store.putSubscription s }
      (vs.set n ⟨q, ⟨.putSubscription s, .ok s⟩ :: log, none⟩) := by
  obtain ⟨hd, hacc, hplan, hper, hfirst⟩ := hg
  have hcalm := h.calm ⟨_, List.mem_of_getElem? hn, paying_iff.2 ⟨hq, hd⟩⟩
  have hs (s' : Option Subscription) (now : Datetime) :
      ¬ Settles account (vs.set n ⟨q, ⟨.putSubscription s, .ok s⟩ :: log, none⟩) s' now := fun hb =>
    hcalm.settles s' now ((settles_set hn hb).resolve_right (by simp))
  refine ⟨fun s now hb => absurd hb (hs s now), fun e he hr => granted_set hn (h.granted e he hr),
    fun _ => ⟨hs, hcalm.later⟩, fun s₁ hb => ?_⟩
  rcases begun_set hn hb with ⟨v, hv, hqv, y, hy⟩ | ⟨_, y, hx⟩
  · obtain rfl := hone.eq_of_mem hv (List.mem_of_getElem? hn) hqv hq
    exact absurd hy (hfirst s₁ y)
  · cases hx
    exact ⟨hplan, hper, ⟨s, hacc ▸ w.store.subscription_put s, .inl rfl, fun _ => le_rfl⟩,
      fun s' now hb => absurd hb (hs s' now), fun x hx ha hk => absurd hk (hcalm.later x hx ha)⟩

theorem renews_of_races (h : Races account id q) (hq : confirms id q = false) : renews account q = true :=
  h.resolve_right (by simp [hq])

theorem renews_of_confirms (hq : confirms id q = true) : renews account q = false := by
  cases q <;> simp_all [renews, confirms]

theorem Race.step_confirm {c : Call} {r : Reply} {a : Except Error c.Answer} (h : Race account id plan w vs)
    (hn : vs[n]? = some ⟨q, log, none⟩) (hq : confirms id q = true)
    (hone : AtMostOne (fun v : InProgress => confirms id v.request = true) vs)
    (hg : guardConfirm account id plan log c) (hc : Undisturbed account id w vs ⟨q, log, none⟩ c r)
    (hs : w.step c r = some (a, w')) : Race account id plan w' (vs.set n ⟨q, ⟨c, a⟩ :: log, none⟩) := by
  have hw : renews account q = true → ∀ b s, (⟨c, a⟩ : (c : Call) × Except Error c.Answer) = ⟨.subscription b, .ok s⟩ →
      wanting s (clock log) = false := fun hr => by simp [renews_of_confirms hq] at hr
  cases c with
  | append e =>
      rcases step_append hs with ⟨_, _, rfl, rfl⟩ | ⟨rfl, rfl, rfl⟩
      · exact h.quiet hn le_rfl rfl rfl hw (by simp) (by simp)
      · exact h.pay hn hq hone hg (hc hq)
  | putSubscription s =>
      rcases step_putSubscription hs with ⟨_, _, rfl, rfl⟩ | ⟨_, rfl, rfl⟩
      · exact h.quiet hn le_rfl rfl rfl hw (by simp) (by simp)
      · exact h.begin hn hq hone hg
  | _ =>
      exact h.quiet hn (clock_step hs) (subscription_step (by simp) hs account) (ledger_step (by simp) hs) hw
        (by simp) (by simp)

theorem Race.step_renew {c : Call} {r : Reply} {a : Except Error c.Answer} (h : Race account id plan w vs)
    (hn : vs[n]? = some ⟨q, log, none⟩) (hq : renews account q = true)
    (ht : ∀ t, ⟨.now, .ok t⟩ ∈ log → t ≤ w.clock) (hg : Renewals.guard g account log c)
    (hc : Undisturbed account id w vs ⟨q, log, none⟩ c r) (hs : w.step c r = some (a, w')) :
    Race account id plan w' (vs.set n ⟨q, ⟨c, a⟩ :: log, none⟩) := by
  cases c with
  | subscription b =>
      obtain ⟨rfl, hnow⟩ := hg
      rcases step_subscription hs with ⟨rfl, rfl | ⟨_, _, rfl⟩⟩
      · cases hwant : wanting (w'.store.subscription b) (clock log) with
        | true =>
            cases r <;> cases hs
            exact h.look hn (ht _ hnow) (hc hq hwant) b
        | false =>
            refine h.quiet hn le_rfl rfl rfl (fun _ b' s hx => ?_) (by simp) (by simp)
            obtain rfl : w'.store.subscription b = s := by simpa using (Sigma.mk.inj hx).2
            exact hwant
      · exact h.quiet hn le_rfl rfl rfl (by simp) (by simp) (by simp)
  | putSubscription s =>
      rcases step_putSubscription hs with ⟨_, _, rfl, rfl⟩ | ⟨_, rfl, rfl⟩
      · exact h.quiet hn le_rfl rfl rfl (by simp) (by simp) (by simp)
      · exact h.settle hn hq hg
  | append e =>
      rcases step_append hs with ⟨_, _, rfl, rfl⟩ | ⟨_, rfl, rfl⟩
      · exact h.quiet hn le_rfl rfl rfl (by simp) (by simp) (by simp)
      · exact h.enter hn hq hg _
  | _ =>
      exact h.quiet hn (clock_step hs) (subscription_step (by simp) hs account) (ledger_step (by simp) hs)
        (by simp) (by simp) (by simp)

def guard (g : Gateway) (account id : String) (plan : Plan) (q : Request) : BillingLog → Call → Prop :=
  if confirms id q then guardConfirm account id plan else Renewals.guard g account

def admits (g : Gateway) (id : String) (i : Invoice) (q : Request) :
    BillingLog → (c : Call) → Except Error c.Answer → Prop :=
  if confirms id q then admitsConfirm i else Renewals.admits g

def rule (g : Gateway) (account id : String) : Rule :=
  both (both (Silent g) (OneConfirm id)) (Undisturbed account id)

theorem Inv.step {c : Call} {r : Reply} {a : Except Error c.Answer} (h : Inv account id plan i w vs)
    (hn : vs[n]? = some ⟨q, log, none⟩) (hg : guard g account id plan q log c)
    (hc : rule g account id w vs ⟨q, log, none⟩ c r) (hs : w.step c r = some (a, w')) :
    Inv account id plan i w' (vs.set n ⟨q, ⟨c, a⟩ :: log, none⟩) := by
  have hv := List.mem_of_getElem? hn
  refine ⟨fun v hm => ?_, ?_, fun v hm t hx => ?_, ?_⟩
  · rcases List.mem_or_eq_of_mem_set hm with hm | rfl
    · exact h.requests v hm
    · exact h.requests ⟨q, log, none⟩ hv
  · obtain ⟨k, hk, hik⟩ := h.terms
    obtain ⟨k', hk', hkk⟩ := stored_step hs hk
    exact ⟨k', hk', hik.trans hkk⟩
  · rcases List.mem_or_eq_of_mem_set hm with hm | rfl
    · exact le_trans (h.told v hm t hx) (clock_step hs)
    · rcases List.mem_cons.1 hx with hx | hx
      · cases hx
        obtain ⟨t', _, _, ha, rfl⟩ := step_now hs
        cases ha
        exact le_rfl
      · exact le_trans (h.told _ hv t hx) (clock_step hs)
  · unfold guard at hg
    cases hq : confirms id q with
    | true =>
        rw [hq, if_pos rfl] at hg
        exact h.race.step_confirm hn hq (atMostOne_of_countP hc.1.2) hg hc.2 hs
    | false =>
        rw [hq, if_neg (by simp)] at hg
        exact h.race.step_renew hn (renews_of_races (h.requests _ hv) hq) (h.told _ hv) hg hc.2 hs

theorem Inv.admits {c : Call} {r : Reply} {a : Except Error c.Answer} (h : Inv account id plan i w vs)
    (hg : guard g account id plan q log c) (hc : rule g account id w vs ⟨q, log, none⟩ c r)
    (hs : w.step c r = some (a, w')) : admits g id i q log c a := by
  unfold PaidPlans.admits
  split
  · cases c with
    | now => exact (step_now hs).imp fun t ht => ht.2.2.1
    | entryId => exact (step_entryId hs).2
    | putInvoice k => rcases step_putInvoice hs with ⟨_, _, rfl, _⟩ | ⟨_, rfl, _⟩ <;> simp [admitsConfirm]
    | subscription b =>
        rcases step_subscription hs with ⟨_, rfl | ⟨_, _, rfl⟩⟩
        · exact fun s hs => Store.subscription_account (Except.ok.inj hs)
        · simp [admitsConfirm]
    | invoice id' =>
        obtain rfl : id' = id := by simpa [guard, ‹confirms id q = true›, guardConfirm] using hg
        rcases step_invoice hs with ⟨_, rfl | ⟨_, _, rfl⟩⟩
        · intro k hk
          obtain ⟨k', hk', hik⟩ := h.terms
          obtain rfl : k' = k := Option.some.inj (hk'.symm.trans (Except.ok.inj hk))
          exact hik
        · simp [admitsConfirm]
    | _ => trivial
  · exact admits_step hc.1.1 hs

theorem inv_init (hi : w.store.invoice id = some i) (hno : ∀ e ∈ w.store.ledger, e.reference ≠ .invoice id) :
    Inv account id plan i w [] where
  requests := by simp
  terms := ⟨i, hi, rfl⟩
  told := by simp
  race := ⟨by simp [Settles], fun e he hr => absurd hr (hno e he), by simp, by simp⟩

theorem Inv.arrive (h : Inv account id plan i w vs) (hq : Races account id q) :
    Inv account id plan i w (vs ++ [⟨q, [], none⟩]) := by
  have hs (s : Option Subscription) (now : Datetime) (hb : Settles account (vs ++ [⟨q, [], none⟩]) s now) :
      Settles account vs s now := by simpa [Settles, held] using hb
  refine ⟨fun v hv => ?_, h.terms, fun v hv => ?_, fun s now hb => h.race.past s now (hs s now hb),
    fun e he hr => ?_, fun hb => ?_, fun s hb => ?_⟩
  · rcases List.mem_append.1 hv with hv | hv
    · exact h.requests v hv
    · obtain rfl := List.mem_singleton.1 hv
      exact hq
  · rcases List.mem_append.1 hv with hv | hv
    · exact h.told v hv
    · obtain rfl := List.mem_singleton.1 hv
      simp
  · obtain ⟨v, hv, hg⟩ := h.race.granted e he hr
    exact ⟨v, List.mem_append_left _ hv, hg⟩
  · refine (h.race.calm ?_).mono (fun s now hb => ⟨s, now, hs s now hb⟩) fun x hx _ => hx
    simpa [paying, delivering] using hb
  · refine (h.race.begun s ?_).mono rfl le_rfl (fun s' now hb => .inl (hs s' now hb)) fun x hx _ => .inl hx
    simpa [Begun] using hb

theorem Inv.leave (h : Inv account id plan i w vs) (hn : vs[n]? = some ⟨q, log, none⟩) (o : Except Error Outcome) :
    Inv account id plan i w (vs.set n ⟨q, log, some o⟩) := by
  have hv := List.mem_of_getElem? hn
  have hs (s : Option Subscription) (now : Datetime) (hb : Settles account (vs.set n ⟨q, log, some o⟩) s now) :
      Settles account vs s now := (exists_of_set hb).resolve_left (by simp [settling, holding])
  refine ⟨fun v hm => ?_, h.terms, fun v hm => ?_, fun s now hb => h.race.past s now (hs s now hb),
    fun e he hr => ?_, fun hb => ?_, fun s hb => ?_⟩
  · rcases List.mem_or_eq_of_mem_set hm with hm | rfl
    · exact h.requests v hm
    · exact h.requests ⟨q, log, none⟩ hv
  · rcases List.mem_or_eq_of_mem_set hm with hm | rfl
    · exact h.told v hm
    · exact h.told ⟨q, log, none⟩ hv
  · obtain ⟨v, hm, hg⟩ := h.race.granted e he hr
    rcases mem_set_or_eq hn hm ⟨q, log, some o⟩ with hm | rfl
    · exact ⟨v, hm, hg⟩
    · exact ⟨_, mem_set_self hn _, hg⟩
  · refine (h.race.calm ?_).mono (fun s now hb => ⟨s, now, hs s now hb⟩) fun x hx _ => hx
    exact (exists_of_set hb).resolve_left (by simp [paying])
  · refine (h.race.begun s ?_).mono rfl le_rfl (fun s' now hb => .inl (hs s' now hb)) fun x hx _ => .inl hx
    rcases exists_of_set hb with hb | hb
    · exact ⟨⟨q, log, none⟩, hv, hb⟩
    · exact hb

end Steps

def protocol {g : Gateway} {account id : String} {plan : Plan} {i : Invoice} (hacc : i.account = account)
    (hsku : g.catalog.product i.sku = .ok (.plan plan)) (hid : i.id = id) :
    Protocol (body g) World.step (Races account id) (rule g account id) where
  inv := Inv account id plan i
  guard := guard g account id plan
  admits := admits g id i
  post _ _ _ := True
  arrive hq h := h.arrive hq
  follows {q} hq := by
    unfold guard admits
    cases hc : confirms id q with
    | true =>
        obtain rfl : q = .confirm id := by cases q <;> simp_all [confirms]
        exact keeps_confirm hacc hsku hid
    | false => exact follows (renews_of_races hq hc)
  sound h hn hg hc hs := ⟨h.step hn hg hc hs, h.admits hg hc hs⟩
  leave h hn _ := h.leave hn _

/-- A plan invoice that is confirmed undisturbed begins a period that nothing
which settles the account takes back. -/
theorem paid_plan_kept {g : Gateway} {account id : String} {plan : Plan} {i : Invoice} {w : World}
    (hi : w.store.invoice id = some i) (hacc : i.account = account)
    (hsku : g.catalog.product i.sku = .ok (.plan plan)) (hno : ∀ e ∈ w.store.ledger, e.reference ≠ .invoice id)
    {c : Pool} (h : Reachable g (Races account id) (rule g account id) w c) : Kept account id plan c := by
  intro v hv s hb
  have hinv := (protocol hacc hsku (Store.invoice_id hi)).invariant (inv_init hi hno) h
  have hst := hinv.race.begun s ⟨v, hv, hb⟩
  refine ⟨hst.planId, fun hc => ?_, fun x hx ha hk => hst.period ▸ hst.later x hx ha hk⟩
  obtain ⟨r, hrow, hsame, _⟩ := hst.row
  obtain rfl : r = s := hsame.resolve_right (by rw [hst.period]; exact not_le.2 hc)
  exact hrow

def shop : Gateway := { catalog := defaultCatalog, destination := "GDEST" }

def starter : Plan := ⟨"starter", "Starter", .usd 19, 4000000, .monthly⟩

def invoice : Invoice where
  id := "cz1"
  account := "A"
  sku := "starter"
  tokens := 4000000
  price := .usd 19
  asset := "XLM"
  amount := "190.0000000"
  destination := "GDEST"
  createdAt := MONTH
  expiresAt := MONTH + INVOICE_TTL
  kind := "plan"

/-- A month is over and the next one has been ordered. -/
def ordered : World where
  store := { invoices := [invoice], subscriptions := [⟨"A", "starter", 0, MONTH, .active⟩] }

def confirmed (n : Nat) : List (Event Request Reply) := [
  .start (.confirm "cz1"), .step n .done,
  .step n (.payment (some ⟨"t1", "GPAYER", "GDEST", "XLM", "190.0000000", "cz1", MONTH⟩)), .step n .done,
  .step n (.text "e1"), .step n (.time (MONTH + 1)), .step n .done, .step n (.time (MONTH + 2)), .step n .done,
  .step n .done, .finish n]

def renewal : Subscription := ⟨"A", "starter", MONTH + 2, MONTH + 2 + MONTH, .active⟩

def began (s : Subscription) (c : Pool) : Bool :=
  c.views.any fun v => confirms "cz1" v.request && v.result.isSome && v.log.any fun
    | ⟨.putSubscription s', .ok _⟩ => s' = s
    | _ => false

theorem begun_of_began {s : Subscription} {c : Pool} (h : began s c = true) : ∃ v ∈ c.views, Begun "cz1" v s := by
  obtain ⟨v, hv, hb⟩ := List.any_eq_true.1 h
  simp only [Bool.and_eq_true] at hb
  obtain ⟨x, hx, hm⟩ := List.any_eq_true.1 hb.2
  split at hm
  · obtain rfl := of_decide_eq_true hm
    exact ⟨v, hv, hb.1.1, _, hx⟩
  · cases hm

theorem paid_plan_kept_undisturbed : ∃ c, Reachable shop (Races "A" "cz1") (rule shop "A" "cz1") ordered c ∧
    (∃ v ∈ c.views, Begun "cz1" v renewal) ∧ Kept "A" "cz1" starter c := by
  have hr : (run (body shop) World.step (Races "A" "cz1") (both (both (Silent shop) (OneConfirm "cz1"))
      (Undisturbed "A" "cz1")) ⟨ordered, []⟩ (confirmed 0 ++ [.start (.settlePeriod "A"),
        .step 1 (.time (MONTH + 3)), .step 1 .done, .finish 1])).any (began renewal) = true := by decide +kernel
  obtain ⟨c, h, hb⟩ := reaches_of_run hr
  have hi : ordered.store.invoice "cz1" = some invoice := rfl
  have hsku : shop.catalog.product invoice.sku = .ok (.plan starter) := rfl
  exact ⟨c, h, begun_of_began hb, paid_plan_kept hi rfl hsku (by simp [ordered]) h⟩

/-- The old period is found over before the new one is paid, and settled after:
its expiry takes the new grant, and its row replaces the new one. -/
def settledLate : List (Event Request Reply) :=
  ([.start (.settlePeriod "A"), .step 0 (.time MONTH), .step 0 .done] : List (Event Request Reply)) ++ confirmed 1 ++
    ([.step 0 .done, .step 0 (.text "e2"), .step 0 .done, .step 0 .done, .finish 0] : List (Event Request Reply))

theorem paid_plan_undone : ∃ c,
    Reachable shop (Races "A" "cz1") (both (Silent shop) (OneConfirm "cz1")) ordered c ∧
    (∃ v ∈ c.views, Begun "cz1" v renewal) ∧ c.world.clock < renewal.startedAt + starter.period ∧
    c.world.store.subscription "A" = some ⟨"A", "starter", 0, MONTH, .expired⟩ ∧
    (c.world.store.ledger.map fun e => (e.kind, e.tokens)) = [(.grant, 4000000), (.expiry, -4000000)] ∧
    ¬ Kept "A" "cz1" starter c := by
  have hr : (run (body shop) World.step (Races "A" "cz1") (both (Silent shop) (OneConfirm "cz1"))
      ⟨ordered, []⟩ settledLate).any (fun c => began renewal c &&
        decide (c.world.clock < renewal.startedAt + starter.period) &&
        decide (c.world.store.subscription "A" = some ⟨"A", "starter", 0, MONTH, .expired⟩) &&
        decide ((c.world.store.ledger.map fun e => (e.kind, e.tokens)) =
          [(EntryKind.grant, 4000000), (.expiry, -4000000)])) = true := by decide +kernel
  obtain ⟨c, h, hp⟩ := reaches_of_run hr
  simp only [Bool.and_eq_true, decide_eq_true_eq] at hp
  obtain ⟨⟨⟨hb, hc⟩, hs⟩, hl⟩ := hp
  obtain ⟨v, hv, hb⟩ := begun_of_began hb
  refine ⟨c, h, ⟨v, hv, hb⟩, hc, hs, hl, fun hk => ?_⟩
  have hrow := (hk v hv renewal hb).2.1 hc
  rw [hs] at hrow
  cases hrow

end CodeZard.PaidPlans
