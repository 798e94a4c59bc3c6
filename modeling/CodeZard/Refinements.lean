import CodeZard.Namings
import CodeZard.Requests
import CodeZard.Simulations

namespace CodeZard.Refinements

open Calendars Chronology Interleaving Namings Products Programs Simulations StoredRows Tables Timestamps Values
open Amounts (Error)
open SqliteStore (Database InvoiceRow SubscriptionRow invoiceRow subscriptionRow fits)

/-- A `datetime` in UTC. -/
def Utc (s : Stamp) : Prop := s.offset = 0

def timeUp (s : Stamp) : Datetime := instant s - EPOCH

def entryDown (e : Ledgers.LedgerEntry) : Option SqliteStore.LedgerEntry := do
  let at_ ← stampOf e.at_
  let reference ← textOf e.reference
  return ⟨e.id, e.account, e.kind, e.tokens, at_, e.amount, reference, e.memo⟩

def entryUp (x : SqliteStore.LedgerEntry) : Option Ledgers.LedgerEntry :=
  (referenceOf x.reference).map fun reference =>
    ⟨x.id, x.account, x.kind, x.tokens, timeUp x.at_, x.amount, reference, x.memo⟩

def invoiceDown (i : Invoices.Invoice) : Option SqliteStore.Invoice := do
  let createdAt ← stampOf i.createdAt
  let expiresAt ← stampOf i.expiresAt
  return ⟨i.id, i.account, i.sku, i.tokens, i.price, i.asset, i.amount, i.destination, createdAt, expiresAt, i.status,
    i.kind, i.txHash, i.payer⟩

def invoiceUp (x : SqliteStore.Invoice) : Invoices.Invoice :=
  ⟨x.id, x.account, x.sku, x.tokens, x.price, x.asset, x.amount, x.destination, timeUp x.createdAt, timeUp x.expiresAt,
    x.status, x.kind, x.txHash, x.payer⟩

def subscriptionDown (s : Periods.Subscription) : Option SqliteStore.Subscription := do
  let startedAt ← stampOf s.startedAt
  let renewsAt ← stampOf s.renewsAt
  return ⟨s.account, s.planId, startedAt, renewsAt, s.status⟩

def subscriptionUp (x : SqliteStore.Subscription) : Periods.Subscription :=
  ⟨x.account, x.planId, timeUp x.startedAt, timeUp x.renewsAt, x.status⟩

def raisedOf : Failure → Error
  | .exception name message => if name = "IntegrityError" then .integrity else .failed message
  | _ => .cancelled

/-- The tables, and the clock of the process. -/
structure World where
  db : Database := {}
  clock : Datetime := 0

def answered {α β : Type} (up : α → Option β) : Except Failure α → Option (Except Error β)
  | .ok a => (up a).map .ok
  | .error f => some (.error (raisedOf f))

/-- One call, where the store is the tables. A time that no `datetime` can say
is never handed to it. -/
def World.step : Step Ports.Call Ports.Call.Answer Error World Ports.Reply
  | w, .append e, .done => do
      let x ← entryDown e
      let a ← answered entryUp (w.db.append x).1
      return (a, { w with db := (w.db.append x).2 })
  | w, .allEntries account, .done =>
      (answered (fun xs => xs.mapM entryUp) (w.db.allEntries account)).map fun a => (a, w)
  | w, .putInvoice i, .done => do
      let x ← invoiceDown i
      let a ← answered (fun x => some (invoiceUp x)) (w.db.putInvoice x).1
      return (a, { w with db := (w.db.putInvoice x).2 })
  | w, .invoice invoiceId, .done =>
      (answered (fun found => some (found.map invoiceUp)) (w.db.invoice invoiceId)).map fun a => (a, w)
  | w, .openInvoices limit, .done =>
      (answered (fun found => some (found.map invoiceUp)) (w.db.openInvoices limit)).map fun a => (a, w)
  | w, .putSubscription s, .done => do
      let x ← subscriptionDown s
      return (.ok (subscriptionUp (w.db.putSubscription x).1), { w with db := (w.db.putSubscription x).2 })
  | w, .subscription account, .done =>
      (answered (fun found => some (found.map subscriptionUp)) (w.db.subscription account)).map fun a => (a, w)
  | w, c, r => (Ports.World.step { clock := w.clock } c r).map fun s => (s.1, { w with clock := s.2.clock })

section Translations

theorem timeUp_of_stampOf {t : Datetime} {s : Stamp} (h : stampOf t = some s) : timeUp s = t := by
  rw [timeUp, (stampOf_sound h).2, Int.add_sub_cancel]

theorem entryDown_eq_some {e : Ledgers.LedgerEntry} {x : SqliteStore.LedgerEntry} (h : entryDown e = some x) :
    ∃ at_ reference, stampOf e.at_ = some at_ ∧ textOf e.reference = some reference ∧
      x = ⟨e.id, e.account, e.kind, e.tokens, at_, e.amount, reference, e.memo⟩ := by
  obtain ⟨at_, hat, h⟩ := Option.bind_eq_some_iff.1 h
  obtain ⟨reference, hreference, h⟩ := Option.bind_eq_some_iff.1 h
  cases h
  exact ⟨at_, reference, hat, hreference, rfl⟩

theorem entryUp_of_down {e : Ledgers.LedgerEntry} {x : SqliteStore.LedgerEntry} (h : entryDown e = some x) :
    entryUp x = some e := by
  obtain ⟨at_, reference, hat, hreference, rfl⟩ := entryDown_eq_some h
  rw [entryUp, referenceOf_textOf hreference, Option.map_some, timeUp_of_stampOf hat]

theorem invoice_of_down {i : Invoices.Invoice} {x : SqliteStore.Invoice} (h : invoiceDown i = some x) :
    invoiceUp x = i ∧ Utc x.createdAt := by
  obtain ⟨createdAt, hcreated, h⟩ := Option.bind_eq_some_iff.1 h
  obtain ⟨expiresAt, hexpires, h⟩ := Option.bind_eq_some_iff.1 h
  cases h
  refine ⟨?_, (stampOf_sound hcreated).1⟩
  rw [invoiceUp, timeUp_of_stampOf hcreated, timeUp_of_stampOf hexpires]

theorem subscriptionUp_of_down {s : Periods.Subscription} {x : SqliteStore.Subscription}
    (h : subscriptionDown s = some x) : subscriptionUp x = s := by
  obtain ⟨startedAt, hstarted, h⟩ := Option.bind_eq_some_iff.1 h
  obtain ⟨renewsAt, hrenews, h⟩ := Option.bind_eq_some_iff.1 h
  cases h
  rw [subscriptionUp, timeUp_of_stampOf hstarted, timeUp_of_stampOf hrenews]

end Translations

/-- The tables hold what the store of the services holds. -/
structure Stands (w : World) (v : Ports.World) : Prop where
  clock : v.clock = w.clock
  ledger : ∃ ledger, List.Forall₂ (fun e x => entryDown e = some x) v.store.ledger ledger ∧ Holds ledger w.db
  invoices : ∃ stored : List SqliteStore.Invoice, w.db.invoices = stored.map invoiceRow ∧ (∀ x ∈ stored, Utc x.createdAt) ∧
    v.store.invoices = stored.map invoiceUp
  subscriptions : ∃ stored : List SqliteStore.Subscription, w.db.subscriptions = stored.map subscriptionRow ∧
    v.store.subscriptions = stored.map subscriptionUp

theorem stands_empty : Stands {} {} where
  clock := rfl
  ledger := ⟨[], .nil, holds_empty⟩
  invoices := ⟨[], rfl, by simp, rfl⟩
  subscriptions := ⟨[], rfl, rfl⟩

section Ledger

variable {es : List Ledgers.LedgerEntry} {xs : List SqliteStore.LedgerEntry}

theorem exists_down (h : List.Forall₂ (fun e x => entryDown e = some x) es xs) {e : Ledgers.LedgerEntry} (he : e ∈ es) :
    ∃ x ∈ xs, entryDown e = some x := by
  induction h with
  | nil => cases he
  | cons hx _ ih =>
      rcases List.mem_cons.1 he with rfl | he
      · exact ⟨_, List.mem_cons_self, hx⟩
      · obtain ⟨x, hmem, hx⟩ := ih he
        exact ⟨x, List.mem_cons_of_mem _ hmem, hx⟩

theorem exists_up (h : List.Forall₂ (fun e x => entryDown e = some x) es xs) {x : SqliteStore.LedgerEntry} (hx : x ∈ xs) :
    ∃ e ∈ es, entryDown e = some x := by
  induction h with
  | nil => cases hx
  | cons he _ ih =>
      rcases List.mem_cons.1 hx with rfl | hx
      · exact ⟨_, List.mem_cons_self, he⟩
      · obtain ⟨e, hmem, he⟩ := ih hx
        exact ⟨e, List.mem_cons_of_mem _ hmem, he⟩

theorem mapM_entryUp (h : List.Forall₂ (fun e x => entryDown e = some x) es xs) : xs.mapM entryUp = some es := by
  induction h with
  | nil => rfl
  | cons hx _ ih =>
      rw [List.mapM_cons, entryUp_of_down hx, ih]
      rfl

theorem down_account (account : String) (h : List.Forall₂ (fun e x => entryDown e = some x) es xs) :
    List.Forall₂ (fun e x => entryDown e = some x) (es.filter fun e => e.account = account) (entriesOf account xs) := by
  induction h with
  | nil => exact .nil
  | @cons e x es xs hx _ ih =>
      obtain ⟨at_, reference, _, _, rfl⟩ := entryDown_eq_some hx
      rw [entriesOf, List.filter_cons, List.filter_cons]
      dsimp only
      split
      · exact .cons hx ih
      · exact ih

end Ledger

section Reads

variable {w : World} {v : Ports.World}

@[simp] theorem subscriptionStatus_value (status : Periods.SubscriptionStatus) :
    SqliteStore.subscriptionStatus (SqliteStore.subscriptionStatusValue status) = .ok status := by
  cases status <;> simp [SqliteStore.subscriptionStatus, SqliteStore.member, SqliteStore.subscriptionStatusValue]

theorem subscriptionOf_subscriptionRow (x : SqliteStore.Subscription) :
    SqliteStore.subscriptionOf (subscriptionRow x) = .ok x := by
  simp only [SqliteStore.subscriptionOf, subscriptionRow, subscriptionStatus_value, time_isoformat]
  rfl

/-- What the services read of the tables. -/
structure Agree (w : World) (v : Ports.World) : Prop where
  allEntries : ∀ account, answered (fun xs => xs.mapM entryUp) (w.db.allEntries account) =
    some (.ok (v.store.allEntries account))
  entries : ∀ account limit, fits (max 1 limit) = true →
    answered (fun xs => xs.mapM entryUp) (w.db.entries account limit) = some (.ok (v.store.entries account limit))
  invoice : ∀ invoiceId, answered (fun found => some (found.map invoiceUp)) (w.db.invoice invoiceId) =
    some (.ok (v.store.invoice invoiceId))
  openInvoices : ∀ limit, fits (max 1 limit) = true →
    answered (fun found => some (found.map invoiceUp)) (w.db.openInvoices limit) = some (.ok (v.store.openInvoices limit))
  subscription : ∀ account, answered (fun found => some (found.map subscriptionUp)) (w.db.subscription account) =
    some (.ok (v.store.subscription account))

theorem invoice_up {stored : List SqliteStore.Invoice} (hrows : w.db.invoices = stored.map invoiceRow)
    (hstore : v.store.invoices = stored.map invoiceUp) (invoiceId : String) :
    answered (fun found => some (found.map invoiceUp)) (w.db.invoice invoiceId) = some (.ok (v.store.invoice invoiceId)) := by
  have hrow : row InvoiceRow.id invoiceId (stored.map invoiceRow) =
      (row SqliteStore.Invoice.id invoiceId stored).map invoiceRow := row_map (fun _ => rfl) _ _
  have hup : row Invoices.Invoice.id invoiceId (stored.map invoiceUp) =
      (row SqliteStore.Invoice.id invoiceId stored).map invoiceUp := row_map (fun _ => rfl) _ _
  rw [Database.invoice, hrows, Storage.Store.invoice, hstore, hrow, hup]
  cases row SqliteStore.Invoice.id invoiceId stored with
  | none => rfl
  | some x =>
      rw [Option.map_some]
      dsimp only
      rw [invoiceOf_invoiceRow]
      rfl

theorem subscription_up {stored : List SqliteStore.Subscription} (hrows : w.db.subscriptions = stored.map subscriptionRow)
    (hstore : v.store.subscriptions = stored.map subscriptionUp) (account : String) :
    answered (fun found => some (found.map subscriptionUp)) (w.db.subscription account) =
      some (.ok (v.store.subscription account)) := by
  have hrow : row SubscriptionRow.account account (stored.map subscriptionRow) =
      (row SqliteStore.Subscription.account account stored).map subscriptionRow := row_map (fun _ => rfl) _ _
  have hup : row Periods.Subscription.account account (stored.map subscriptionUp) =
      (row SqliteStore.Subscription.account account stored).map subscriptionUp := row_map (fun _ => rfl) _ _
  rw [Database.subscription, hrows, Storage.Store.subscription, hstore, hrow, hup]
  cases row SqliteStore.Subscription.account account stored with
  | none => rfl
  | some x =>
      rw [Option.map_some]
      dsimp only
      rw [subscriptionOf_subscriptionRow]
      rfl

theorem openInvoices_up {stored : List SqliteStore.Invoice} (hrows : w.db.invoices = stored.map invoiceRow)
    (hutc : ∀ x ∈ stored, Utc x.createdAt) (hstore : v.store.invoices = stored.map invoiceUp) {limit : Int}
    (hlimit : fits (max 1 limit) = true) :
    answered (fun found => some (found.map invoiceUp)) (w.db.openInvoices limit) =
      some (.ok (v.store.openInvoices limit)) := by
  have hfilter : ((stored.map invoiceUp).filter fun i => i.status = .pending) =
      (stored.filter fun x => x.status = .pending).map invoiceUp := by
    rw [List.filter_map]
    rfl
  have hsort : ((stored.filter fun x => x.status = .pending).map invoiceUp).insertionSort
      (fun i j => i.createdAt ≤ j.createdAt) = ((stored.filter fun x => x.status = .pending).insertionSort byText).map
        invoiceUp := by
    refine (List.map_insertionSort _ _ invoiceUp _ fun x hx y hy => ?_).symm
    have hx := hutc x (List.mem_of_mem_filter hx)
    have hy := hutc y (List.mem_of_mem_filter hy)
    rw [byText, isoformat_le hx hy]
    exact (Int.sub_le_sub_right_iff (c := EPOCH)).symm
  rw [openInvoices_eq hrows hlimit, Storage.Store.openInvoices, hstore, hfilter, hsort, ← List.map_take]
  rfl

theorem Stands.agree (h : Stands w v) : Agree w v := by
  obtain ⟨ledger, hdown, hholds⟩ := h.ledger
  obtain ⟨invoices, hinvoices, hutc, hstored⟩ := h.invoices
  obtain ⟨subscriptions, hsubscriptions, hheld⟩ := h.subscriptions
  constructor
  · intro account
    rw [Database.allEntries, Database.ledgerOf, Indexes.ascending_eq (hholds.increasing.filter _),
      mapM_entryOf (records_account account hholds.records), answered, mapM_entryUp (down_account account hdown)]
    rfl
  · intro account limit hlimit
    have hrows := records_account account hholds.records
    have hlast := List.rel_reverse (List.forall₂_take (max 1 limit).toNat (List.rel_reverse (down_account account hdown)))
    rw [Database.entries, Database.ledgerOf, Indexes.latest_eq (hholds.increasing.filter _), hlimit]
    simp only [Bool.not_true, Bool.false_eq_true, if_false]
    rw [mapM_entryOf (List.rel_reverse (List.forall₂_take _ (List.rel_reverse hrows))), answered, mapM_entryUp hlast]
    rfl
  · exact invoice_up hinvoices hstored
  · exact fun limit => openInvoices_up hinvoices hutc hstored
  · exact subscription_up hsubscriptions hheld

end Reads

section Appends

variable {db : Database} {ledger : List SqliteStore.LedgerEntry} {x : SqliteStore.LedgerEntry}

theorem append_overflows (h : storable x = false) : db.append x = (.error SqliteStore.overflowError, db) := by
  have hfit : (fits x.tokens && fits x.amount.micros) = false := h
  rw [Database.append, Database.insertEntry]
  simp only [hfit]
  rfl

theorem append_repeated (h : Holds ledger db) (hs : storable x = true) (hid : ∃ y ∈ ledger, y.id = x.id)
    (hr : x.reference ≠ "" → ∀ y ∈ ledger, y.reference ≠ x.reference) :
    ∃ column, db.append x = (.error (SqliteStore.integrityError column), db) := by
  have hfit : (fits x.tokens && fits x.amount.micros) = true := hs
  have ha : accepts ledger x = false := by
    rw [← Bool.not_eq_true, accepts_iff]
    exact fun hacc => hacc.2.1 hid
  have hnone : db.referenced x.reference = none := by
    refine List.find?_eq_none.2 fun row hrow hc => ?_
    simp only [Bool.and_eq_true, decide_eq_true_eq] at hc
    obtain ⟨href, hne⟩ := hc
    rw [href] at hne
    have hkey : SqliteStore.byReference row = some x.reference := by simp [SqliteStore.byReference, href, hne]
    obtain ⟨y, hy, hyr⟩ := (mem_byReference hne h.records).1 (List.mem_filterMap.2 ⟨row, hrow, hkey⟩)
    exact hr hne y hy hyr
  have herr : ∃ column, db.insertEntry x = .error (SqliteStore.integrityError column) := by
    simp only [Database.insertEntry, hfit, insert_entry h hs, ha]
    exact ⟨_, rfl⟩
  obtain ⟨column, hcol⟩ := herr
  have hint : SqliteStore.Failure.isIntegrity (SqliteStore.integrityError column) = true := by
    simp [SqliteStore.Failure.isIntegrity, SqliteStore.integrityError]
  refine ⟨column, ?_⟩
  rw [Database.append, hcol]
  simp only [hint, hnone, if_true]

end Appends

section Writes

variable {w : World} {v : Ports.World}

def Reflects (r s : Ports.Reply) : Prop := s = r ∨ r = .done ∧ ∃ f, s = .raised (raisedOf f)

def Followed (v : Ports.World) (c : Ports.Call) (a : Except Error c.Answer) (w' : World) (r : Ports.Reply) : Prop :=
  ∃ s v', Reflects r s ∧ v.step c s = some (a, v') ∧ Stands w' v'

section Appending

variable {e : Ledgers.LedgerEntry} {x : SqliteStore.LedgerEntry} {ledger : List SqliteStore.LedgerEntry}
  {a : Except Error Ledgers.LedgerEntry}

theorem down_same (hx : entryDown e = some x) {y : Ledgers.LedgerEntry} {y' : SqliteStore.LedgerEntry}
    (hy : entryDown y = some y') : (y'.id = x.id ↔ y.id = e.id) ∧ (y'.reference = x.reference ↔ y.reference = e.reference) := by
  obtain ⟨_, reference, _, href, rfl⟩ := entryDown_eq_some hx
  obtain ⟨_, reference', _, href', rfl⟩ := entryDown_eq_some hy
  refine ⟨Iff.rfl, ?_⟩
  dsimp only
  constructor
  · rintro rfl
    exact textOf_inj href' href
  · intro hr
    rw [hr, href] at href'
    exact (Option.some.inj href').symm

theorem down_blank (hx : entryDown e = some x) : x.reference = "" ↔ e.reference = .blank := by
  obtain ⟨_, reference, _, href, rfl⟩ := entryDown_eq_some hx
  exact textOf_empty href

theorem followed_recorded (h : Stands w v) (hdown : List.Forall₂ (fun e x => entryDown e = some x) v.store.ledger ledger)
    (hholds : Holds ledger w.db) (hx : entryDown e = some x) (hs : storable x = true) {y : Ledgers.LedgerEntry}
    (hr : v.store.recorded e.reference = some y) (ha : answered entryUp (w.db.append x).1 = some a) :
    Followed v (.append e) a { w with db := (w.db.append x).2 } .done := by
  have hfound := List.find?_some hr
  simp only [Bool.and_eq_true, decide_eq_true_eq] at hfound
  obtain ⟨y', hy', hdowny⟩ := exists_down hdown (List.mem_of_find?_eq_some hr)
  have hne : x.reference ≠ "" := fun hempty => hfound.2 (hfound.1.trans ((down_blank hx).1 hempty))
  rw [append_recorded hholds hs hne hy' ((down_same hx hdowny).2.2 hfound.1)] at ha ⊢
  rw [answered, entryUp_of_down hdowny] at ha
  cases ha
  refine ⟨.done, v, .inl rfl, ?_, h⟩
  rw [Ports.World.step, Storage.Store.append, hr]

theorem followed_repeated (h : Stands w v) (hdown : List.Forall₂ (fun e x => entryDown e = some x) v.store.ledger ledger)
    (hholds : Holds ledger w.db) (hx : entryDown e = some x) (hs : storable x = true)
    (hr : v.store.recorded e.reference = none) (hfresh : x.reference ≠ "" → ∀ y ∈ ledger, y.reference ≠ x.reference)
    {y : Ledgers.LedgerEntry} (hy : y ∈ v.store.ledger) (hid : y.id = e.id)
    (ha : answered entryUp (w.db.append x).1 = some a) :
    Followed v (.append e) a { w with db := (w.db.append x).2 } .done := by
  obtain ⟨y', hy', hdowny⟩ := exists_down hdown hy
  obtain ⟨column, happend⟩ := append_repeated hholds hs ⟨y', hy', (down_same hx hdowny).1.2 hid⟩ hfresh
  rw [happend] at ha ⊢
  cases ha
  refine ⟨.done, v, .inl rfl, ?_, h⟩
  have hany : (v.store.ledger.any fun x => x.id = e.id) = true := List.any_eq_true.2 ⟨y, hy, decide_eq_true hid⟩
  rw [Ports.World.step, Storage.Store.append, hr, hany]
  rfl

theorem followed_accepted (h : Stands w v) (hdown : List.Forall₂ (fun e x => entryDown e = some x) v.store.ledger ledger)
    (hholds : Holds ledger w.db) (hx : entryDown e = some x) (hacc : accepts ledger x = true)
    (hr : v.store.recorded e.reference = none) (hnew : ∀ y ∈ v.store.ledger, y.id ≠ e.id)
    (ha : answered entryUp (w.db.append x).1 = some a) :
    Followed v (.append e) a { w with db := (w.db.append x).2 } .done := by
  have hmore := holds_append hholds x
  rw [accept, if_pos hacc] at hmore
  rw [append_accepts hholds hacc] at ha hmore ⊢
  rw [answered, entryUp_of_down hx] at ha
  cases ha
  have hany : (v.store.ledger.any fun x => x.id = e.id) = false := by
    rw [List.any_eq_false]
    exact fun y hy hc => hnew y hy (of_decide_eq_true hc)
  refine ⟨.done, { v with store := { v.store with ledger := v.store.ledger ++ [e] } }, .inl rfl, ?_, ?_⟩
  · rw [Ports.World.step, Storage.Store.append, hr, hany]
    rfl
  · exact ⟨h.clock, ⟨ledger ++ [x], List.rel_append hdown (.cons hx .nil), hmore⟩, h.invoices, h.subscriptions⟩

theorem followed_append (h : Stands w v) (hx : entryDown e = some x) (ha : answered entryUp (w.db.append x).1 = some a) :
    Followed v (.append e) a { w with db := (w.db.append x).2 } .done := by
  obtain ⟨ledger, hdown, hholds⟩ := h.ledger
  cases hs : storable x with
  | false =>
      rw [append_overflows hs] at ha ⊢
      cases ha
      exact ⟨.raised (raisedOf SqliteStore.overflowError), v, .inr ⟨rfl, _, rfl⟩, rfl, h⟩
  | true =>
      cases hr : v.store.recorded e.reference with
      | some y => exact followed_recorded h hdown hholds hx hs hr ha
      | none =>
          have hfresh : x.reference ≠ "" → ∀ y ∈ ledger, y.reference ≠ x.reference := by
            intro hne y' hy' hyr
            obtain ⟨y, hy, hdowny⟩ := exists_up hdown hy'
            have hblank : e.reference ≠ .blank := fun hb => hne ((down_blank hx).2 hb)
            exact Storage.Store.recorded_none hr hblank y hy ((down_same hx hdowny).2.1 hyr)
          by_cases hany : ∃ y ∈ v.store.ledger, y.id = e.id
          · obtain ⟨y, hy, hid⟩ := hany
            exact followed_repeated h hdown hholds hx hs hr hfresh hy hid ha
          · push Not at hany
            have hacc : accepts ledger x = true := by
              refine accepts_iff.2 ⟨hs, ?_, fun hc => ?_⟩
              · rintro ⟨y', hy', hid⟩
                obtain ⟨y, hy, hdowny⟩ := exists_up hdown hy'
                exact hany y hy ((down_same hx hdowny).1.1 hid)
              · obtain ⟨hne, y', hy', hyr⟩ := hc
                exact hfresh hne y' hy' hyr
            exact followed_accepted h hdown hholds hx hacc hr hany ha

end Appending

def settledAs (old new : SqliteStore.Invoice) : SqliteStore.Invoice :=
  { old with status := new.status, txHash := new.txHash, payer := new.payer }

theorem followed_putInvoice (h : Stands w v) {i : Invoices.Invoice} {x : SqliteStore.Invoice} (hx : invoiceDown i = some x)
    {a : Except Error Invoices.Invoice} (ha : answered (fun x => some (invoiceUp x)) (w.db.putInvoice x).1 = some a) :
    Followed v (.putInvoice i) a { w with db := (w.db.putInvoice x).2 } .done := by
  obtain ⟨hup, hcreated⟩ := invoice_of_down hx
  rw [Database.putInvoice] at ha ⊢
  split at ha
  · rw [if_pos ‹_›]
    cases ha
    exact ⟨.raised (raisedOf SqliteStore.overflowError), v, .inr ⟨rfl, _, rfl⟩, rfl, h⟩
  · rw [if_neg ‹_›]
    cases ha
    obtain ⟨stored, hrows, hutc, hstore⟩ := h.invoices
    refine ⟨.done, { v with store := v.store.putInvoice i }, .inl rfl, ?_, ?_⟩
    · rw [Ports.World.step, hup]
    · refine ⟨h.clock, ?_, ⟨upsert SqliteStore.Invoice.id settledAs x stored, ?_, ?_, ?_⟩, h.subscriptions⟩
      · obtain ⟨ledger, hdown, hholds⟩ := h.ledger
        exact ⟨ledger, hdown, ⟨hholds.records, hholds.increasing, hholds.bounded, hholds.references⟩⟩
      · rw [hrows]
        exact upsert_map (fun _ => rfl) (fun _ _ => rfl) stored
      · intro y hy
        rcases mem_upsert hy with hy | rfl | ⟨old, hold, rfl⟩
        · exact hutc y hy
        · exact hcreated
        · exact hutc old hold
      · rw [Storage.Store.putInvoice, hstore, ← hup]
        exact upsert_map (fun _ => rfl) (fun _ _ => rfl) stored

theorem followed_putSubscription (h : Stands w v) {s : Periods.Subscription} {x : SqliteStore.Subscription}
    (hx : subscriptionDown s = some x) : Followed v (.putSubscription s) (.ok (subscriptionUp x))
      { w with db := (w.db.putSubscription x).2 } .done := by
  have hup := subscriptionUp_of_down hx
  obtain ⟨stored, hrows, hstore⟩ := h.subscriptions
  refine ⟨.done, { v with store := v.store.putSubscription s }, .inl rfl, ?_, ?_⟩
  · rw [Ports.World.step, hup]
  · refine ⟨h.clock, ?_, h.invoices, ⟨upsert SqliteStore.Subscription.account (fun _ new => new) x stored, ?_, ?_⟩⟩
    · obtain ⟨ledger, hdown, hholds⟩ := h.ledger
      exact ⟨ledger, hdown, ⟨hholds.records, hholds.increasing, hholds.bounded, hholds.references⟩⟩
    · rw [Database.putSubscription, hrows]
      refine upsert_map (fun _ => rfl) (fun old hold => ?_) stored
      have haccount : old.account = x.account := hold
      simp only [SqliteStore.SubscriptionRow.updated, subscriptionRow, haccount]
    · rw [Storage.Store.putSubscription, hstore, ← hup]
      exact upsert_map (fun _ => rfl) (fun _ _ => rfl) stored

theorem step_elsewhere {t : Datetime} {c : Ports.Call} {r : Ports.Reply} (hr : r ≠ .done) {a : Except Error c.Answer}
    {u : Ports.World} (hs : Ports.World.step { clock := t } c r = some (a, u)) (s : Storage.Store) :
    Ports.World.step { store := s, clock := t } c r = some (a, { store := s, clock := u.clock }) := by
  cases c with
  | now =>
      obtain ⟨t', rfl, hle, rfl, rfl⟩ := Ports.step_now hs
      exact if_pos hle
  | _ =>
      cases r with
      | done => exact absurd rfl hr
      | _ =>
          first
            | cases hs
              rfl
            | cases hs

theorem followed_elsewhere (h : Stands w v) {c : Ports.Call} {r : Ports.Reply} (hr : r ≠ .done)
    {a : Except Error c.Answer} {u : Ports.World} (hs : Ports.World.step { clock := w.clock } c r = some (a, u)) :
    Followed v c a { w with clock := u.clock } r := by
  have hv : v = { store := v.store, clock := w.clock } := by rw [← h.clock]
  refine ⟨r, { store := v.store, clock := u.clock }, .inl rfl, ?_, rfl, h.ledger, h.invoices, h.subscriptions⟩
  rw [hv]
  exact step_elsewhere hr hs v.store

theorem read_followed {α β : Type} {up : α → Option β} {answer : Except Failure α} {b : β}
    (hb : answered up answer = some (.ok b)) {a : Except Error β} {w' : World}
    (hs : (answered up answer).map (fun a => (a, w)) = some (a, w')) : a = .ok b ∧ w' = w := by
  rw [hb] at hs
  cases hs
  exact ⟨rfl, rfl⟩

theorem followed_step (h : Stands w v) {c : Ports.Call} {r : Ports.Reply} {a : Except Error c.Answer} {w' : World}
    (hs : w.step c r = some (a, w')) : Followed v c a w' r := by
  by_cases hr : r = .done
  swap
  · have hother : (Ports.World.step { clock := w.clock } c r).map (fun s => (s.1, { w with clock := s.2.clock })) =
        some (a, w') := by
      cases r with
      | done => exact absurd rfl hr
      | _ => cases c <;> exact hs
    obtain ⟨⟨b, u⟩, hstep, hb⟩ := Option.map_eq_some_iff.1 hother
    cases hb
    exact followed_elsewhere h hr hstep
  subst hr
  cases c with
  | append e =>
      obtain ⟨x, hx, hs⟩ := Option.bind_eq_some_iff.1 hs
      obtain ⟨b, hb, hs⟩ := Option.bind_eq_some_iff.1 hs
      cases hs
      exact followed_append h hx hb
  | putInvoice i =>
      obtain ⟨x, hx, hs⟩ := Option.bind_eq_some_iff.1 hs
      obtain ⟨b, hb, hs⟩ := Option.bind_eq_some_iff.1 hs
      cases hs
      exact followed_putInvoice h hx hb
  | putSubscription s =>
      obtain ⟨x, hx, hs⟩ := Option.bind_eq_some_iff.1 hs
      cases hs
      exact followed_putSubscription h hx
  | allEntries account =>
      obtain ⟨rfl, rfl⟩ := read_followed (h.agree.allEntries account) hs
      exact ⟨.done, v, .inl rfl, rfl, h⟩
  | invoice invoiceId =>
      obtain ⟨rfl, rfl⟩ := read_followed (h.agree.invoice invoiceId) hs
      exact ⟨.done, v, .inl rfl, rfl, h⟩
  | subscription account =>
      obtain ⟨rfl, rfl⟩ := read_followed (h.agree.subscription account) hs
      exact ⟨.done, v, .inl rfl, rfl, h⟩
  | openInvoices limit =>
      cases hlimit : fits (max 1 limit) with
      | true =>
          obtain ⟨rfl, rfl⟩ := read_followed (h.agree.openInvoices limit hlimit) hs
          exact ⟨.done, v, .inl rfl, rfl, h⟩
      | false =>
          have hoverflow : w.db.openInvoices limit = .error SqliteStore.overflowError := by
            rw [Database.openInvoices, hlimit]
            rfl
          rw [World.step, hoverflow] at hs
          cases hs
          exact ⟨.raised (raisedOf SqliteStore.overflowError), v, .inr ⟨rfl, _, rfl⟩, rfl, h⟩
  | now | entryId | newInvoiceId | paymentFor | quote | verify | settle | onChain => cases hs

end Writes

section Runs

variable {Q α : Type} {body : Q → Ports.Billing α} {starts : Q → Prop}

/-- The condition on the steps of the services, over tables that stand for their store. -/
def Above (cond : Condition World Q Ports.Call Ports.Call.Answer Error α Ports.Reply) :
    Condition Ports.World Q Ports.Call Ports.Call.Answer Error α Ports.Reply :=
  fun v vs u c s => ∃ w r, Stands w v ∧ cond w vs u c r ∧ Reflects r s

theorem simulates (cond : Condition World Q Ports.Call Ports.Call.Answer Error α Ports.Reply) :
    Simulates World.step Ports.World.step cond (Above cond) Stands := by
  intro w v vs u c r a w' h hcond hs
  obtain ⟨s, v', hreflects, hstep, hstands⟩ := followed_step h hs
  exact ⟨s, v', ⟨w, r, h, hcond, hreflects⟩, hstep, hstands⟩

/-- Whatever the services do over the tables, they do over the store that they
are verified with: the same requests make the same calls, are answered the same
and end the same, and what the tables hold in the end is what the store does. -/
theorem tables_stand {cond : Condition World Q Ports.Call Ports.Call.Answer Error α Ports.Reply}
    {c : Config World Q Ports.Call Ports.Call.Answer Error α} (h : Reaches body World.step starts cond {} c) :
    ∃ d, Reaches body Ports.World.step starts (Above cond) {} d ∧ d.threads = c.threads ∧
      d.world.clock = c.world.clock ∧ Agree c.world d.world := by
  obtain ⟨d, hd, hthreads, hstands⟩ := reaches_of_simulates (simulates cond) stands_empty h
  exact ⟨d, hd, hthreads, hstands.clock, hstands.agree⟩

end Runs

def noon : Datetime := 1767268800000000

def shop : Ports.Gateway := { catalog := Products.defaultCatalog }

def credited : Requests.Request := .credit "GPAYER" 500000 .purchase (.invoice "cz1") (.usd 5) "a pack"

def twice : List (Event Requests.Request Ports.Reply) := [
  .start credited, .step 0 (.text "e1"), .step 0 (.time noon), .start credited, .step 1 (.text "e2"), .step 0 .done,
  .finish 0, .step 1 (.time (noon + 500000)), .step 1 .done, .finish 1]

theorem tables_stand_twice : ∃ (c : Config World Requests.Request Ports.Call Ports.Call.Answer Error Requests.Outcome)
    (d : Config Ports.World Requests.Request Ports.Call Ports.Call.Answer Error Requests.Outcome),
    Reaches (Requests.body shop) World.step anyRequest anyStep {} c ∧
    Reaches (Requests.body shop) Ports.World.step anyRequest (Above anyStep) {} d ∧ d.threads = c.threads ∧
      Agree c.world d.world ∧ c.world.db.ledger.map SqliteStore.LedgerRow.at_ = ["2026-01-01T12:00:00+00:00"] := by
  have hrun : (run (Requests.body shop) World.step anyRequest anyStep ⟨{}, []⟩ twice).any (fun c =>
      c.world.db.ledger.map SqliteStore.LedgerRow.at_ = ["2026-01-01T12:00:00+00:00"]) = true := by
    decide +kernel
  obtain ⟨c, hc, hp⟩ := reaches_of_run hrun
  obtain ⟨d, hd, hthreads, _, hagree⟩ := tables_stand hc
  exact ⟨c, d, hc, hd, hthreads, hagree, of_decide_eq_true hp⟩

end CodeZard.Refinements
