import CodeZard.Histories
import CodeZard.Requests

namespace CodeZard.Accounts

open Amounts Products Ledgers Periods Invoices Storage Programs Ports Interleaving Histories Requests

/-- The accounts of the invoices on record, which no later write can change. -/
def ownerIn (s : Store) (invoiceId : String) : Option String := (s.invoice invoiceId).map Invoice.account

variable (owner : String → Option String)

def about : Request → Option String
  | .settlePeriod account => some account
  | .authorize account _ => some account
  | .charge account _ _ => some account
  | .credit account .. => some account
  | .confirm invoiceId => owner invoiceId
  | _ => none

/-- The operations on a single account. -/
def isOperation : Request → Bool
  | .settlePeriod _ | .authorize .. | .charge .. | .credit .. | .confirm _ => true
  | _ => false

/-- No entry is on record under another account with the id or the reference
of the one to append. -/
def Unclaimed (w : World) : Call → Reply → Prop
  | .append e, .done => ∀ x ∈ w.store.ledger, x.account ≠ e.account →
      x.id ≠ e.id ∧ (x.reference = e.reference → x.reference = .blank)
  | _, _ => True

instance (w : World) (c : Call) (r : Reply) : Decidable (Unclaimed w c r) := by
  rcases c <;> rcases r <;> dsimp only [Unclaimed] <;> infer_instance

def Touches (account : String) : Call → Prop
  | .append e => e.account = account
  | .allEntries a => a = account
  | .putInvoice i => i.account = account ∧ owner i.id = some account
  | .invoice id => ∀ a ∈ owner id, a = account
  | .openInvoices _ => False
  | .putSubscription s => s.account = account
  | .subscription a => a = account
  | _ => True

def Answers : (c : Call) → Except Error c.Answer → Prop
  | .invoice id, a => ∀ i, a = .ok (some i) → i.id = id ∧ owner id = some i.account
  | .putInvoice i, a => ∀ j, a = .ok j → j = i
  | .subscription account, a => ∀ s, a = .ok (some s) → s.account = account
  | _, _ => True

/-- The two worlds are the same for everybody but `absent`, for whom the second
has no more than the first. -/
structure Alike (absent : String) (w v : World) : Prop where
  clock : v.clock ≤ w.clock
  subset : ∀ x ∈ v.store.ledger, x ∈ w.store.ledger
  ledger : (v.store.ledger.filter fun x => x.account ≠ absent) = w.store.ledger.filter fun x => x.account ≠ absent
  rows : ∀ a, a ≠ absent → v.store.subscription a = w.store.subscription a
  invoices : ∀ id, owner id ≠ some absent → v.store.invoice id = w.store.invoice id
  owned : ∀ id i, w.store.invoice id = some i → owner id = some i.account

def Stays (account : String) {α : Type} (p : Billing α) : Prop :=
  Restores (fun _ => Touches owner account) (fun _ => Answers owner) (fun _ => True) p

section Programs

variable {owner} {g : Gateway} {account : String} {α β : Type}

theorem stays_ask {c : Call} (h : Touches owner account c) : Stays owner account (ask c) :=
  restores_perform (fun _ _ => h) fun _ _ _ _ => trivial

theorem stays_ask_bind {c : Call} {f : c.Answer → Billing α} (h : Touches owner account c)
    (hf : ∀ v, Answers owner c (.ok v) → Stays owner account (f v)) : Stays owner account ((ask c).bind f) := by
  refine fun log _ => keeps_perform_bind.2 ⟨h, fun a ha => ?_⟩
  cases a with
  | error e => trivial
  | ok v => exact hf v ha _ trivial

theorem stays_credit (tokens : Int) (kind : EntryKind) (reference : Reference) (amount : Money) (memo : String) :
    Stays owner account (BillingService.credit account tokens kind reference amount memo) := by
  unfold BillingService.credit
  split
  · exact restores_raise _
  · exact stays_ask_bind trivial fun id _ => stays_ask_bind trivial fun now _ => stays_ask rfl

theorem stays_expireGrant (s : Subscription) (now : Datetime) :
    Stays owner account (BillingService.expireGrant account s now) := by
  refine Restores.bind (stays_ask_bind rfl fun entries _ => restores_ret _) fun b => ?_
  split
  · exact restores_ret _
  · exact stays_ask_bind trivial fun id _ => stays_ask_bind rfl fun e _ => restores_ret _

theorem stays_mirrorChain (now : Datetime) : Stays owner account (BillingService.mirrorChain g account now) := by
  have hread : Stays owner account (BillingService.readChain g account) := by
    unfold BillingService.readChain
    split
    · refine Restores.rescue (stays_ask trivial) fun e => ?_
      split
      · exact restores_ret _
      · exact restores_raise _
    · exact restores_ret _
  refine hread.bind fun o => ?_
  cases o with
  | none => exact restores_ret _
  | some o =>
      simp only
      split
      · exact restores_ret _
      · split
        · exact restores_ret _
        · rename_i plan _
          have hm : Stays owner account (BillingService.mirror account plan o) :=
            stays_ask_bind rfl fun _ _ => (stays_credit _ _ _ _ _).bind fun _ => restores_ret _
          exact hm.map _

theorem stays_renew {s : Subscription} (hs : s.account = account) (plan : Plan) :
    Stays owner account ((store.putSubscription s).bind fun s =>
      (BillingService.grant account plan s).bind fun _ => .ret (some s)) :=
  stays_ask_bind hs fun _ _ => (stays_credit _ _ _ _ _).bind fun _ => restores_ret _

theorem stays_settleRow (now : Datetime) : Stays owner account (BillingService.settleRow g account now) := by
  refine stays_ask_bind rfl fun s hs => ?_
  cases s with
  | none =>
      simp only [BillingService.beginFree]
      split
      · exact restores_ret _
      · exact stays_renew rfl _
  | some s =>
      have hacc : s.account = account := hs s rfl
      simp only
      split
      · exact restores_ret _
      · have hend : Stays owner account (store.putSubscription s.ended) := stays_ask hacc
        refine (stays_expireGrant s now).bind fun _ => ?_
        cases g.catalog.plan s.planId with
        | error e => exact hend.map _
        | ok plan =>
            simp only
            split
            · exact stays_renew (s := s.renewed plan now) hacc plan
            · exact hend.map _

theorem stays_settlePeriod : Stays owner account (BillingService.settlePeriod g account) := by
  refine stays_ask_bind trivial fun now _ => (stays_mirrorChain now).bind fun s => ?_
  cases s with
  | none => exact stays_settleRow now
  | some s => exact restores_ret _

theorem stays_authorize (needed : Int) : Stays owner account (BillingService.authorize g account needed) := by
  refine stays_settlePeriod.bind fun _ => Restores.bind (stays_ask_bind rfl fun _ _ => restores_ret _) fun b => ?_
  simp only
  split
  · exact restores_ret _
  · exact restores_raise _

theorem stays_charge (runId : String) (usage : Usage) :
    Stays owner account (BillingService.charge g account runId usage) := by
  refine (restores_ofExcept _).bind fun tokens => ?_
  split
  · exact restores_ret _
  · refine stays_ask_bind trivial fun id _ => stays_ask_bind trivial fun now _ => ?_
    exact Restores.map (stays_ask (c := .append ⟨id, account, _, _, now, _, _, _⟩) rfl) some

theorem stays_subscribe (plan : Plan) : Stays owner account (BillingService.subscribe account plan) := by
  refine stays_ask_bind trivial fun now _ => stays_ask_bind rfl fun s hs => ?_
  cases s with
  | none => exact stays_ask rfl
  | some s =>
      simp only
      split
      · exact stays_ask (show s.account = account from hs s rfl)
      · exact stays_ask rfl

theorem stays_deliver {i : Invoice} (hi : i.account = account) : Stays owner account (BillingService.deliver g i) := by
  subst hi
  refine (restores_ofExcept _).bind fun product => ?_
  cases product with
  | plan p => exact (stays_credit _ _ _ _ _).bind fun _ => (stays_subscribe p).bind fun _ => restores_ret _
  | pack p => exact (stays_credit _ _ _ _ _).bind fun _ => restores_ret _

theorem stays_confirm {id : String} (h : ∀ a ∈ owner id, a = account) :
    Stays owner account (BillingService.confirm g id) := by
  refine stays_ask_bind h fun i hi => ?_
  cases i with
  | none => exact restores_raise _
  | some i =>
      obtain ⟨rfl, hown⟩ := hi i rfl
      have hacc : i.account = account := h _ hown
      rw [hacc] at hown
      simp only
      split
      · exact restores_ret _
      · refine stays_ask_bind trivial fun p _ => ?_
        cases p with
        | none =>
            refine stays_ask_bind trivial fun now _ => ?_
            split
            · exact restores_ret _
            · exact stays_ask ⟨hacc, hown⟩
        | some p =>
            refine (restores_ofExcept _).bind fun settled => ?_
            split
            · refine stays_ask_bind ⟨hacc, hown⟩ fun paid hp => (stays_deliver ?_).bind fun _ => restores_ret _
              obtain rfl := hp paid rfl
              exact hacc
            · exact restores_ret _

theorem stays_body {q : Request} (hop : isOperation q = true) (h : ∀ a ∈ about owner q, a = account) :
    Stays owner account (body g q) := by
  cases q with
  | settlePeriod a =>
      obtain rfl := h a rfl
      exact stays_settlePeriod.map _
  | authorize a needed =>
      obtain rfl := h a rfl
      exact (stays_authorize needed).map _
  | charge a runId usage =>
      obtain rfl := h a rfl
      exact (stays_charge runId usage).map _
  | credit a tokens kind reference amount memo =>
      obtain rfl := h a rfl
      exact (stays_credit _ _ _ _ _).map _
  | confirm id => exact (stays_confirm h).map _
  | _ => cases hop

end Programs

section Steps

variable {owner} {absent account : String} {w w' v : World} {c : Call} {r : Reply} {a : Except Error c.Answer}

theorem answers_step (hown : ∀ id i, w.store.invoice id = some i → owner id = some i.account)
    (hs : w.step c r = some (a, w')) : Answers owner c a := by
  cases c with
  | invoice id =>
      obtain ⟨_, rfl | ⟨x, _, rfl⟩⟩ := step_invoice hs
      · exact fun i hi => ⟨Store.invoice_id (Except.ok.inj hi), hown id i (Except.ok.inj hi)⟩
      · simp [Answers]
  | putInvoice i => rcases step_putInvoice hs with ⟨x, _, rfl, _⟩ | ⟨_, rfl, _⟩ <;> simp [Answers]
  | subscription account =>
      obtain ⟨_, rfl | ⟨x, _, rfl⟩⟩ := step_subscription hs
      · exact fun s hs => Store.subscription_account (Except.ok.inj hs)
      · simp [Answers]
  | _ => trivial

theorem owned_putInvoice {i : Invoice} {s : Store} (ht : Touches owner account (.putInvoice i))
    (h : ∀ id j, s.invoice id = some j → owner id = some j.account) {id : String} {j : Invoice}
    (hj : (s.putInvoice i).invoice id = some j) : owner id = some j.account := by
  by_cases hid : i.id = id
  · subst hid
    rw [Store.invoice_putInvoice_self] at hj
    cases hi : s.invoice i.id with
    | none =>
        rw [hi] at hj
        cases hj
        exact ht.2.trans (congrArg some ht.1.symm)
    | some k =>
        rw [hi] at hj
        cases hj
        exact h i.id k hi
  · rw [Store.invoice_putInvoice_of_ne hid] at hj
    exact h id j hj

theorem find_filter {β : Type} {p q : β → Bool} {l : List β} (h : ∀ x ∈ l, p x = true → q x = true) :
    (l.filter q).find? p = l.find? p := by
  induction l with
  | nil => rfl
  | cons x xs ih =>
      have hxs := ih fun y hy => h y (List.mem_cons_of_mem _ hy)
      cases hq : q x with
      | true => rw [List.filter_cons_of_pos hq, List.find?_cons, List.find?_cons, hxs]
      | false =>
          have hp : p x = false := by
            by_contra hp
            rw [h x List.mem_cons_self (by simpa using hp)] at hq
            cases hq
          rw [List.filter_cons_of_neg (by simp [hq]), List.find?_cons, hp, hxs]

theorem Alike.append {e : LedgerEntry} (h : Alike owner absent w v) (hne : e.account ≠ absent)
    (hu : Unclaimed w (.append e) .done) :
    (v.store.append e).1 = (w.store.append e).1 ∧
      (((v.store.append e).2 = v.store ∧ (w.store.append e).2 = w.store) ∨
        ((v.store.append e).2 = { v.store with ledger := v.store.ledger ++ [e] } ∧
          (w.store.append e).2 = { w.store with ledger := w.store.ledger ++ [e] })) := by
  have hfind {p : LedgerEntry → Bool} (hp : ∀ x ∈ w.store.ledger, p x = true → x.account = e.account) :
      v.store.ledger.find? p = w.store.ledger.find? p := by
    have hq (x : LedgerEntry) (hx : x ∈ w.store.ledger) (hpx : p x = true) : decide (x.account ≠ absent) = true := by
      simpa [hp x hx hpx] using hne
    rw [← find_filter hq, ← find_filter fun x hx => hq x (h.subset x hx), h.ledger]
  have hrec : v.store.recorded e.reference = w.store.recorded e.reference := by
    refine hfind fun x hx hpx => ?_
    by_contra hacc
    simp only [Bool.and_eq_true, decide_eq_true_eq] at hpx
    exact hpx.2 ((hu x hx hacc).2 hpx.1)
  have hany : (v.store.ledger.any fun x => x.id = e.id) = w.store.ledger.any fun x => x.id = e.id := by
    have hid := hfind (p := fun x => x.id = e.id) fun x hx hpx => by
      by_contra hacc
      exact (hu x hx hacc).1 (of_decide_eq_true hpx)
    rw [← List.isSome_find?, ← List.isSome_find?, hid]
  simp only [Store.append, hrec, hany]
  cases w.store.recorded e.reference with
  | some x => exact ⟨rfl, .inl ⟨rfl, rfl⟩⟩
  | none =>
      simp only
      split
      · exact ⟨rfl, .inl ⟨rfl, rfl⟩⟩
      · exact ⟨rfl, .inr ⟨rfl, rfl⟩⟩

theorem Alike.allEntries (h : Alike owner absent w v) (hne : account ≠ absent) :
    v.store.allEntries account = w.store.allEntries account := by
  have hf (L : List LedgerEntry) : L.filter (fun x => x.account = account) =
      (L.filter fun x => x.account ≠ absent).filter fun x => x.account = account := by
    rw [List.filter_filter]
    refine List.filter_congr fun x _ => ?_
    by_cases hx : x.account = account <;> simp [hx, hne]
  rw [Store.allEntries, Store.allEntries, hf, h.ledger, ← hf]

theorem Alike.writes {s t : Store} (h : Alike owner absent w v) (hl : t.ledger = v.store.ledger)
    (hl' : s.ledger = w.store.ledger) (hr : ∀ a, a ≠ absent → t.subscription a = s.subscription a)
    (hi : ∀ id, owner id ≠ some absent → t.invoice id = s.invoice id)
    (ho : ∀ id i, s.invoice id = some i → owner id = some i.account) :
    Alike owner absent { w with store := s } { v with store := t } where
  clock := h.clock
  subset := by
    rw [hl, hl']
    exact h.subset
  ledger := by
    rw [hl, hl']
    exact h.ledger
  rows := hr
  invoices := hi
  owned := ho

theorem Alike.lockstep (h : Alike owner absent w v) (hne : account ≠ absent) (ht : Touches owner account c)
    (hu : Unclaimed w c r) (hs : w.step c r = some (a, w')) :
    ∃ v', v.step c r = some (a, v') ∧ Alike owner absent w' v' := by
  cases c with
  | now =>
      obtain ⟨t, rfl, hle, rfl, rfl⟩ := step_now hs
      exact ⟨{ v with clock := t }, if_pos (le_trans h.clock hle),
        ⟨le_rfl, h.subset, h.ledger, h.rows, h.invoices, h.owned⟩⟩
  | append e =>
      rcases step_append hs with ⟨x, rfl, rfl, rfl⟩ | ⟨rfl, rfl, rfl⟩
      · exact ⟨v, rfl, h⟩
      · have he : e.account ≠ absent := fun he => hne (ht.symm.trans he)
        obtain ⟨hans, ⟨hv, hw⟩ | ⟨hv, hw⟩⟩ := h.append he hu
        · exact ⟨v, by rw [← hans, World.step, hv], by rwa [hw]⟩
        · refine ⟨{ v with store := { v.store with ledger := v.store.ledger ++ [e] } },
            by rw [← hans, World.step, hv], ?_⟩
          rw [hw]
          refine ⟨h.clock, fun x hx => ?_, ?_, h.rows, h.invoices, h.owned⟩
          · rcases List.mem_append.1 hx with hx | hx
            · exact List.mem_append_left _ (h.subset x hx)
            · exact List.mem_append_right _ hx
          · rw [List.filter_append, List.filter_append, h.ledger]
  | allEntries account' =>
      obtain rfl := ht
      cases r with
      | raised x => cases hs; exact ⟨v, rfl, h⟩
      | done => cases hs; exact ⟨v, by rw [← h.allEntries hne]; rfl, h⟩
      | _ => cases hs
  | putInvoice i =>
      rcases step_putInvoice hs with ⟨x, rfl, rfl, rfl⟩ | ⟨rfl, rfl, rfl⟩
      · exact ⟨v, rfl, h⟩
      · refine ⟨_, rfl, h.writes rfl rfl h.rows (fun id hid => ?_) fun id j => owned_putInvoice ht h.owned⟩
        by_cases heq : i.id = id
        · subst heq
          rw [Store.invoice_putInvoice_self, Store.invoice_putInvoice_self, h.invoices _ hid]
        · rw [Store.invoice_putInvoice_of_ne heq, Store.invoice_putInvoice_of_ne heq, h.invoices _ hid]
  | invoice id =>
      have hid : owner id ≠ some absent := fun ha => hne (ht absent ha).symm
      cases r with
      | raised x => cases hs; exact ⟨v, rfl, h⟩
      | done => cases hs; exact ⟨v, by rw [← h.invoices id hid]; rfl, h⟩
      | _ => cases hs
  | openInvoices limit => exact ht.elim
  | putSubscription s =>
      rcases step_putSubscription hs with ⟨x, rfl, rfl, rfl⟩ | ⟨rfl, rfl, rfl⟩
      · exact ⟨v, rfl, h⟩
      · refine ⟨_, rfl, h.writes rfl rfl (fun a ha => ?_) h.invoices h.owned⟩
        by_cases heq : s.account = a
        · subst heq
          rw [Store.subscription_put, Store.subscription_put]
        · rw [Store.subscription_put_of_ne heq, Store.subscription_put_of_ne heq, h.rows a ha]
  | subscription account' =>
      obtain rfl := ht
      cases r with
      | raised x => cases hs; exact ⟨v, rfl, h⟩
      | done => cases hs; exact ⟨v, by rw [← h.rows account' hne]; rfl, h⟩
      | _ => cases hs
  | _ => cases r <;> cases hs <;> exact ⟨v, rfl, h⟩

theorem Alike.frame (h : Alike owner absent w v) (ht : Touches owner absent c) (hs : w.step c r = some (a, w')) :
    Alike owner absent w' v := by
  cases c with
  | now =>
      obtain ⟨t, rfl, hle, rfl, rfl⟩ := step_now hs
      exact ⟨le_trans h.clock hle, h.subset, h.ledger, h.rows, h.invoices, h.owned⟩
  | append e =>
      rcases step_append hs with ⟨x, rfl, rfl, rfl⟩ | ⟨rfl, rfl, rfl⟩
      · exact h
      · rcases w.store.append_cases e with ⟨_, _, _, ha⟩ | ⟨_, _, _, ha⟩ | ⟨_, _, ha⟩ <;> rw [ha]
        · exact h
        · exact h
        · refine ⟨h.clock, fun x hx => List.mem_append_left _ (h.subset x hx), ?_, h.rows, h.invoices, h.owned⟩
          have he : e.account = absent := ht
          rw [List.filter_append, h.ledger]
          simp [he]
  | putInvoice i =>
      rcases step_putInvoice hs with ⟨x, rfl, rfl, rfl⟩ | ⟨rfl, rfl, rfl⟩
      · exact h
      · refine h.writes (t := v.store) rfl rfl h.rows (fun id hid => ?_) fun id j => owned_putInvoice ht h.owned
        have hne : i.id ≠ id := fun heq => hid (heq ▸ ht.2)
        rw [Store.invoice_putInvoice_of_ne hne, h.invoices _ hid]
  | putSubscription s =>
      rcases step_putSubscription hs with ⟨x, rfl, rfl, rfl⟩ | ⟨rfl, rfl, rfl⟩
      · exact h
      · refine h.writes (t := v.store) rfl rfl (fun a ha => ?_) h.invoices h.owned
        have hne : s.account ≠ a := fun heq => ha (heq ▸ ht)
        rw [Store.subscription_put_of_ne hne, h.rows a ha]
  | _ => cases r <;> cases hs <;> exact h

end Steps

/-- The history without the operations on one account. -/
def without (owner : String → Option String) (absent : String) (h : List (Request × List Reply)) :
    List (Request × List Reply) :=
  h.filter fun p => about owner p.1 ≠ some absent

theorem alike_refl (absent : String) (w : World) : Alike (ownerIn w.store) absent w w where
  clock := le_rfl
  subset := fun _ h => h
  ledger := rfl
  rows := fun _ _ => rfl
  invoices := fun _ _ => rfl
  owned := fun id i hi => by rw [ownerIn, hi]; rfl

theorem replay_without {g : Gateway} {owner : String → Option String} {absent : String} (account : String)
    (hne : account ≠ absent) {h : List (Request × List Reply)} (hop : ∀ p ∈ h, isOperation p.1 = true)
    {w w' v : World} (hr : replay (body g) (restrict Unclaimed World.step) w h = some w')
    (ha : Alike owner absent w v) :
    ∃ v', replay (body g) World.step v (without owner absent h) = some v' ∧ Alike owner absent w' v' := by
  refine replay_filter (fun q => decide (about owner q ≠ some absent)) ?_ ?_ hr ha
  · intro q rs w v o w' hm hk ha he
    obtain ⟨b, hb, hown⟩ : ∃ b, b ≠ absent ∧ ∀ a ∈ about owner q, a = b := by
      cases hq : about owner q with
      | none => exact ⟨account, hne, by simp⟩
      | some b => exact ⟨b, by simpa [hq] using hk, by simp⟩
    refine exec_lockstep (fun log w v c r a w' ha ht hs => ?_) (stays_body (hop _ hm) hown [] trivial) he ha
    obtain ⟨hu, hs⟩ := restrict_eq_some.1 hs
    exact ⟨answers_step ha.owned hs, ha.lockstep hb ht hu hs⟩
  · intro q rs w v o w' hm hk ha he
    have hown : ∀ a ∈ about owner q, a = absent := by
      have hq : about owner q = some absent := by simpa using hk
      simp [hq]
    refine exec_invariant (fun w => Alike owner absent w v) (fun log w c r a w' ha ht hs => ?_)
      (stays_body (hop _ hm) hown [] trivial) he ha
    have hs := (restrict_eq_some.1 hs).2
    exact ⟨answers_step ha.owned hs, ha.frame ht hs⟩

theorem accounts_apart (g : Gateway) (A B : String) (hne : A ≠ B) (h : List (Request × List Reply))
    (hop : ∀ p ∈ h, isOperation p.1 = true) (w w' : World)
    (hr : replay (body g) (restrict Unclaimed World.step) w h = some w') :
    ∃ v, replay (body g) World.step w (without (ownerIn w.store) B h) = some v ∧
      v.store.allEntries A = w'.store.allEntries A ∧
      balanceOf A (v.store.allEntries A) = balanceOf A (w'.store.allEntries A) ∧
      v.store.subscription A = w'.store.subscription A := by
  obtain ⟨v, hv, ha⟩ := replay_without A hne hop hr (alike_refl B w)
  have he := ha.allEntries hne
  exact ⟨v, hv, he, by rw [he], ha.rows A hne⟩

def gateway : Gateway := { catalog := defaultCatalog, chainAvailable := true }

/-- A first read of the contract for an account, which finds a month that began
at `started`. -/
def mirroring (account entryId : String) (started now : Datetime) : Request × List Reply :=
  (.settlePeriod account, [.time now, .onChain (some ⟨"starter", started, started + MONTH, 1⟩), .done,
    .text entryId, .time now, .done])

theorem accounts_apart_subscribed : ∃ w',
    replay (body gateway) (restrict Unclaimed World.step) {}
      [mirroring "B" "e1" 0 0, mirroring "A" "e2" SECOND SECOND] = some w' ∧
    w'.store.ledger.map LedgerEntry.account = ["B", "A"] ∧
    ∃ v, replay (body gateway) World.step {} (without (ownerIn {}) "B"
        [mirroring "B" "e1" 0 0, mirroring "A" "e2" SECOND SECOND]) = some v ∧
      v.store.allEntries "A" = w'.store.allEntries "A" ∧
      balanceOf "A" (v.store.allEntries "A") = balanceOf "A" (w'.store.allEntries "A") ∧
      v.store.subscription "A" = w'.store.subscription "A" := by
  have hr : (replay (body gateway) (restrict Unclaimed World.step) {}
      [mirroring "B" "e1" 0 0, mirroring "A" "e2" SECOND SECOND]).any
        (fun w => w.store.ledger.map LedgerEntry.account = ["B", "A"]) = true := by decide +kernel
  obtain ⟨w', hw', hl⟩ := (Option.any_eq_true _ _).1 hr
  exact ⟨w', hw', of_decide_eq_true hl,
    accounts_apart gateway "A" "B" (by decide) _ (by simp [mirroring, isOperation]) _ _ hw'⟩

/-- Two accounts subscribe on chain to the same plan in the same second. The
second to be read finds its reference taken, and is granted nothing. -/
theorem same_second_ungranted :
    ∃ w', replay (body gateway) World.step {} [mirroring "B" "e1" 0 0, mirroring "A" "e2" 0 0] = some w' ∧
      w'.store.allEntries "A" = [] ∧
      ∃ v, replay (body gateway) World.step {} (without (ownerIn {}) "B"
          [mirroring "B" "e1" 0 0, mirroring "A" "e2" 0 0]) = some v ∧
        (v.store.allEntries "A").map (fun e => (e.kind, e.tokens)) = [(.grant, 4000000)] ∧
        v.store.allEntries "A" ≠ w'.store.allEntries "A" := by
  have hr : (replay (body gateway) World.step {} [mirroring "B" "e1" 0 0, mirroring "A" "e2" 0 0]).any
      (fun w => w.store.allEntries "A" = []) = true := by decide +kernel
  have hv : (replay (body gateway) World.step {} (without (ownerIn {}) "B"
      [mirroring "B" "e1" 0 0, mirroring "A" "e2" 0 0])).any
        (fun v => (v.store.allEntries "A").map (fun e => (e.kind, e.tokens)) = [(EntryKind.grant, 4000000)]) = true := by
    decide +kernel
  obtain ⟨w', hw', hl⟩ := (Option.any_eq_true _ _).1 hr
  obtain ⟨v, hv, hg⟩ := (Option.any_eq_true _ _).1 hv
  have hl := of_decide_eq_true hl
  have hg := of_decide_eq_true hg
  refine ⟨w', hw', hl, v, hv, hg, fun he => ?_⟩
  rw [he, hl] at hg
  cases hg

end CodeZard.Accounts
