import CodeZard.Stellar
import CodeZard.Sweeps

namespace CodeZard.Pages

open Amounts Invoices Products Programs Ports BillingService Stellar Sweeps Values

section Firsts

variable {α β : Type} {f : α → Option β} {P : β → Prop} {xs : List α}

theorem findSome_good_iff (hgood : ∃ x ∈ xs, ∃ b, f x = some b ∧ P b) :
    (∃ b, xs.findSome? f = some b ∧ P b) ↔
      ∀ pre x post b, xs = pre ++ x :: post → f x = some b → ¬ P b → ∃ y ∈ pre, ∃ c, f y = some c ∧ P c := by
  constructor
  · rintro ⟨b, hb, hp⟩ pre x post c rfl hc hbad
    rw [List.findSome?_append] at hb
    cases hpre : pre.findSome? f with
    | none =>
        simp only [hpre, List.findSome?_cons, hc, Option.none_or, Option.some.injEq] at hb
        exact absurd (hb ▸ hp) hbad
    | some d =>
        rw [hpre] at hb
        cases hb
        obtain ⟨y, hy, hf⟩ := List.exists_of_findSome?_eq_some hpre
        exact ⟨y, hy, _, hf, hp⟩
  · intro h
    obtain ⟨x, hx, c, hc, _⟩ := hgood
    cases hb : xs.findSome? f with
    | none =>
        rw [List.findSome?_eq_none_iff.1 hb x hx] at hc
        cases hc
    | some b =>
        refine ⟨b, rfl, ?_⟩
        obtain ⟨pre, y, post, hsplit, hy, hnone⟩ := List.findSome?_eq_some_iff.1 hb
        by_contra hbad
        obtain ⟨z, hz, d, hd, _⟩ := h pre y post b hsplit hy hbad
        rw [hnone z hz] at hd
        cases hd

end Firsts

variable {g : Gateway} {out : Outside} {i : Invoice}

/-- A record that settles an invoice. -/
def Settling (out : Outside) (i : Invoice) (record : Fields) : Prop :=
  ∃ p, payment out.time record = some p ∧ p.settles i = .ok true

/-- A record that has the memo of an invoice and does not settle it. -/
def Spoiling (out : Outside) (i : Invoice) (record : Fields) : Prop :=
  ∃ p, payment out.time record = some p ∧ p.memo = i.memo ∧ p.settles i ≠ .ok true

def carried (out : Outside) (i : Invoice) (record : Fields) : Option ObservedPayment :=
  (payment out.time record).filter fun p => p.memo = i.memo

theorem carried_eq_some {record : Fields} {p : ObservedPayment} :
    carried out i record = some p ↔ payment out.time record = some p ∧ p.memo = i.memo := by
  simp [carried, Option.filter_eq_some_iff]

theorem settling_iff {record : Fields} :
    Settling out i record ↔ ∃ p, carried out i record = some p ∧ p.settles i = .ok true := by
  constructor
  · rintro ⟨p, hp, hs⟩
    exact ⟨p, carried_eq_some.2 ⟨hp, (ObservedPayment.settles_ok hs).1.1⟩, hs⟩
  · rintro ⟨p, hp, hs⟩
    exact ⟨p, (carried_eq_some.1 hp).1, hs⟩

theorem paymentFor_page {status : Nat} (body : Json) (hstatus : status < 400) :
    paymentFor out i (.response status (.ok body)) = .ok ((records body).findSome? (carried out i)) := by
  have hfound : status ≠ 404 := by omega
  simp only [paymentFor, if_neg hfound, if_neg (not_le.2 hstatus)]
  rfl

theorem settling_found_iff {status : Nat} {body : Json} (hstatus : status < 400)
    (hsettling : ∃ record ∈ records body, Settling out i record) :
    (∃ p, paymentFor out i (.response status (.ok body)) = .ok (some p) ∧ p.settles i = .ok true) ↔
      ∀ pre record post, records body = pre ++ record :: post → Spoiling out i record →
        ∃ newer ∈ pre, Settling out i newer := by
  simp only [settling_iff] at hsettling ⊢
  have hfirst := findSome_good_iff (f := carried out i) (P := fun p => p.settles i = .ok true) hsettling
  rw [paymentFor_page body hstatus]
  simp only [Except.ok.injEq]
  rw [hfirst]
  constructor
  · rintro h pre record post hsplit ⟨p, hp, hmemo, hs⟩
    exact h pre record post p hsplit (carried_eq_some.2 ⟨hp, hmemo⟩) hs
  · intro h pre record post p hsplit hp hs
    exact h pre record post hsplit ⟨p, (carried_eq_some.1 hp).1, (carried_eq_some.1 hp).2, hs⟩

/-- A paid invoice is found and marked, whatever else carries its memo, if
nothing newer than what pays it carries the memo and does not pay. -/
theorem paid_found_iff {pages : Invoice → Answer} {status : Nat} {body : Json} {w w' : World} {id : String}
    {rs : List Reply} {o : Except Error Invoice} (hi : w.store.invoice id = some i)
    (hpage : pages i = .response status (.ok body)) (hstatus : status < 400)
    (hsettling : ∃ record ∈ records body, Settling out i record)
    (he : exec (answering fun j => paymentFor out j (pages j)) (confirm g id) w rs = some (o, w')) :
    ((∃ p, paymentFor out i (pages i) = .ok (some p) ∧ p.settles i = .ok true) ∧
        ∃ j, w'.store.invoice id = some j ∧ j.status = .paid) ↔
      ∀ pre record post, records body = pre ++ record :: post → Spoiling out i record →
        ∃ newer ∈ pre, Settling out i newer := by
  obtain rfl : i.id = id := Storage.Store.invoice_id hi
  rw [hpage, ← settling_found_iff hstatus hsettling]
  apply and_iff_left_of_imp
  rintro ⟨p, hp, hs⟩
  have hfound : paymentFor out i (pages i) = .ok (some p) := by rw [hpage, hp]
  have hc := (always_confirm (g := g) hi (by simp [hfound])).exec he
  obtain ⟨now, _, hleft⟩ := hc.status
  have hmarked : leaves (fun j => paymentFor out j (pages j)) i now = .paid := by
    by_cases hpaid : i.status = .paid <;> simp [leaves, hpaid, hfound, hs]
  rw [hmarked] at hleft
  exact Option.map_eq_some_iff.1 hleft

/-- A payment in the native asset, as Horizon records it. -/
def record (amount memo : String) : Fields := [
  ("type", .str "payment"), ("transaction", .dict [("memo_type", .str "text"), ("memo", .str memo)]),
  ("transaction_hash", .str "T"), ("from", .str "GPAYER"), ("to", .str "GDEST"), ("asset_type", .str "native"),
  ("amount", .str amount)]

def page (records : List Fields) : Json := .dict [("_embedded", .dict [("records", .list (records.map .dict))])]

def ordered : World := ⟨{ invoices := [order] }, 1⟩

/-- Somebody sent one stroop before the payer paid, and the payer somebody else
afterwards. -/
def older : List Fields := [record "3" "cz2", record "80" "cz1", record "0.0000001" "cz1"]

/-- Somebody sent one stroop after the payer had paid. -/
def newer : List Fields := [record "0.0000001" "cz1", record "80" "cz1"]

def paidInFull : ObservedPayment := ⟨"T", "GPAYER", "GDEST", "XLM", "80", "cz1", 0⟩

def onPage (records : List Fields) (_ : Invoice) : Answer := .response 200 (.ok (page records))

theorem settling_paid : Settling {} order (record "80" "cz1") := ⟨paidInFull, by decide +kernel, by decide +kernel⟩

theorem paid_found_over_dust : ∃ o w',
    exec (answering fun j => paymentFor {} j (onPage older j)) (confirm shop "cz1") ordered
      [.done, .payment (some paidInFull), .done, .text "e1", .time 2, .done] = some (o, w') ∧
    ∃ j, w'.store.invoice "cz1" = some j ∧ j.status = .paid := by
  have he : (exec (answering fun j => paymentFor {} j (onPage older j)) (confirm shop "cz1") ordered
      [.done, .payment (some paidInFull), .done, .text "e1", .time 2, .done]).isSome = true := by decide +kernel
  obtain ⟨⟨o, w'⟩, he⟩ := Option.isSome_iff_exists.1 he
  have hiff := paid_found_iff (i := order) rfl rfl (by decide)
    ⟨_, List.mem_cons_of_mem _ List.mem_cons_self, settling_paid⟩ he
  refine ⟨o, w', he, (hiff.2 ?_).2⟩
  intro pre r post hsplit hspoils
  obtain ⟨p, hp, hmemo, hs⟩ := hspoils
  rcases pre with _ | ⟨first, _ | ⟨second, pre⟩⟩
  · cases hsplit
    cases hp
    exact absurd hmemo (by decide)
  · cases hsplit
    cases hp
    exact absurd (by decide +kernel) hs
  · obtain rfl := (List.cons.inj (List.cons.inj hsplit).2).1
    exact ⟨_, List.mem_cons_of_mem _ List.mem_cons_self, settling_paid⟩

/-- The payer has paid in full, and is not found to have. -/
theorem paid_hidden_by_dust : (∃ r ∈ records (page newer), Settling {} order r) ∧
    (∀ p, paymentFor {} order (onPage newer order) = .ok (some p) → p.settles order ≠ .ok true) ∧
    (exec (answering fun j => paymentFor {} j (onPage newer j)) (confirm shop "cz1") ordered
      [.done, .payment (some ⟨"T", "GPAYER", "GDEST", "XLM", "0.0000001", "cz1", 0⟩)]).map (fun x => x.2.store) =
        some { invoices := [order] } := by
  refine ⟨⟨_, List.mem_cons_of_mem _ List.mem_cons_self, settling_paid⟩, ?_, by decide +kernel⟩
  intro p hp
  cases hp
  decide +kernel

end CodeZard.Pages
