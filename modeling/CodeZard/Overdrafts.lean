import CodeZard.Ledgers
import Mathlib.Data.List.Induction

namespace CodeZard.Overdrafts

open Ledgers

/-- A row that the services may write after `L`: credits are not negative, runs
are not positive, and an expiry takes what the balance shows as granted. -/
def RowAfter (account : String) (L : List LedgerEntry) (e : LedgerEntry) : Prop :=
  match e.kind with
  | .grant | .purchase | .refund => 0 ≤ e.tokens
  | .usage => e.tokens ≤ 0
  | .adjustment => True
  | .expiry => e.tokens = -(balanceOf account L).granted

inductive Written (account : String) : List LedgerEntry → Prop
  | nil : Written account []
  | snoc {L : List LedgerEntry} {e : LedgerEntry} (h : Written account L) (hr : RowAfter account L e) :
      Written account (L ++ [e])

def bought (L : List LedgerEntry) : Int :=
  tokensOf (L.filter fun e => e.kind = .purchase || e.kind = .refund)

/-- At no earlier point was the account overdrawn by more than what has been
bought or refunded since. -/
def Covered (L : List LedgerEntry) : Prop := ∀ P Q, L = P ++ Q → 0 ≤ tokensOf P + bought Q

@[simp] theorem bought_nil : bought [] = 0 := rfl

theorem bought_append (L M : List LedgerEntry) : bought (L ++ M) = bought L + bought M := by
  simp [bought]

theorem bought_singleton (e : LedgerEntry) :
    bought [e] = if e.kind = .purchase ∨ e.kind = .refund then e.tokens else 0 := by
  by_cases h : e.kind = .purchase ∨ e.kind = .refund <;> simp [bought, h]

theorem pools_after {account : String} {L : List LedgerEntry} (h : Written account L) :
    0 ≤ (Pools.after L).granted ∧ (Pools.after L).granted + (Pools.after L).purchased = tokensOf L := by
  induction h with
  | nil => decide
  | @snoc L e _ hr ih =>
      have hg := granted_eq account L
      simp only [Pools.after_append_singleton, tokensOf_append, tokensOf_cons, tokensOf_nil, Pools.replay]
      cases hk : e.kind <;> simp only [RowAfter, hk] at hr ⊢ <;> omega

theorem forall_split_snoc {L : List LedgerEntry} {e : LedgerEntry} {p : List LedgerEntry → List LedgerEntry → Prop} :
    (∀ P Q, L ++ [e] = P ++ Q → p P Q) ↔ p (L ++ [e]) [] ∧ ∀ P Q, L = P ++ Q → p P (Q ++ [e]) := by
  constructor
  · intro h
    refine ⟨h _ _ (by simp), ?_⟩
    rintro P Q rfl
    exact h _ _ (by simp)
  · rintro ⟨h₀, h⟩ P Q hPQ
    rcases List.eq_nil_or_concat' Q with rfl | ⟨Q', x, rfl⟩
    · rw [List.append_nil] at hPQ
      exact hPQ ▸ h₀
    · rw [← List.append_assoc] at hPQ
      obtain ⟨hL, hx⟩ := List.append_inj' hPQ rfl
      cases hx
      exact h P Q' hL

/-- The purchased pool carries the deepest overdraft not yet bought back. The
allowance `k` is what the rows still to come will buy. -/
theorem purchased_nonneg_iff {account : String} {L : List LedgerEntry} (h : Written account L) (k : Int)
    (hk : 0 ≤ k) :
    0 ≤ (Pools.after L).purchased + k ↔ ∀ P Q, L = P ++ Q → 0 ≤ tokensOf P + bought Q + k := by
  induction h generalizing k with
  | nil =>
      refine ⟨fun _ P Q hPQ => ?_, fun _ => by simpa using hk⟩
      obtain ⟨rfl, rfl⟩ := List.append_eq_nil_iff.1 hPQ.symm
      simpa using hk
  | @snoc L e hL hr ih =>
      have hg := granted_eq account L
      obtain ⟨h₀, hs⟩ := pools_after hL
      have hw := (pools_after (hL.snoc hr)).2
      have hall (x : Int) (hx : 0 ≤ k + x) : (∀ P Q, L = P ++ Q → 0 ≤ tokensOf P + (bought Q + x) + k) ↔
          0 ≤ (Pools.after L).purchased + (k + x) := by
        rw [ih (k + x) hx]
        refine forall_congr' fun P => forall_congr' fun Q => forall_congr' fun _ => ?_
        rw [add_assoc, add_assoc, add_comm x, add_assoc]
      rw [forall_split_snoc (p := fun P Q => 0 ≤ tokensOf P + bought Q + k), ← hw]
      simp only [bought_append, bought_singleton, bought_nil, Pools.after_append_singleton, Pools.replay]
      cases hkind : e.kind with
      | purchase | refund =>
          simp only [RowAfter, hkind] at hr
          simp only [reduceCtorEq, or_true, or_false, if_true, hall e.tokens (by omega)]
          omega
      | grant | usage | adjustment | expiry =>
          simp only [RowAfter, hkind] at hr
          simp only [reduceCtorEq, or_self, if_false, hall 0 (by omega)]
          omega

theorem covered_iff {account : String} {L : List LedgerEntry} (h : Written account L) :
    Covered L ↔ 0 ≤ (Pools.after L).purchased := by
  simpa [Covered] using (purchased_nonneg_iff h 0 le_rfl).symm

theorem written_credit_nonneg {account : String} {L : List LedgerEntry} (h : Written account L) :
    ∀ e ∈ L, e.kind = .purchase ∨ e.kind = .refund → 0 ≤ e.tokens := by
  induction h with
  | nil => simp
  | @snoc L x _ hr ih =>
      intro e he hk
      rcases List.mem_append.1 he with he | he
      · exact ih e he hk
      · obtain rfl := List.mem_singleton.1 he
        rcases hk with hk | hk <;> simpa only [RowAfter, hk] using hr

theorem bought_nonneg {M : List LedgerEntry}
    (h : ∀ e ∈ M, e.kind = .purchase ∨ e.kind = .refund → 0 ≤ e.tokens) : 0 ≤ bought M := by
  refine List.sum_nonneg fun n hn => ?_
  obtain ⟨e, he, rfl⟩ := List.mem_map.1 hn
  obtain ⟨hm, hk⟩ := List.mem_filter.1 he
  exact h e hm (by simpa using hk)

theorem purchased_append {L M : List LedgerEntry}
    (h : ∀ e ∈ M, e.kind ≠ .usage ∧ e.kind ≠ .adjustment) :
    (Pools.after (L ++ M)).purchased = (Pools.after L).purchased + bought M := by
  induction M using List.reverseRecOn with
  | nil => simp
  | append_singleton M e ih =>
      have hM := ih fun x hx => h x (by simp [hx])
      have he := h e (by simp)
      rw [← List.append_assoc, Pools.after_append_singleton, bought_append, bought_singleton, ← add_assoc, ← hM]
      cases hk : e.kind <;> simp_all [Pools.replay]

/-- A purchase adds to the purchased pool alone, and nothing but a debit takes
it away again: not the grants and the expiries of later periods. -/
def Kept (account : String) (L : List LedgerEntry) (e : LedgerEntry) : Prop :=
  (balanceOf account (L ++ [e])).granted = (balanceOf account L).granted ∧
  (balanceOf account (L ++ [e])).purchased = (balanceOf account L).purchased + e.tokens ∧
  ∀ M, Written account (L ++ e :: M) → (∀ x ∈ M, x.kind ≠ .usage ∧ x.kind ≠ .adjustment) →
    (balanceOf account (L ++ e :: M)).purchased = (balanceOf account L).purchased + e.tokens + bought M

theorem kept_of_covered {account : String} {L : List LedgerEntry} {e : LedgerEntry}
    (h : 0 ≤ (Pools.after L).purchased) (hk : e.kind = .purchase) (he : 0 ≤ e.tokens) :
    Kept account L e := by
  refine ⟨?_, ?_, fun M hM hd => ?_⟩
  · rw [granted_eq, granted_eq]
    simp only [Pools.after_append_singleton, Pools.replay, hk]
    omega
  · rw [purchased_eq, purchased_eq]
    simp only [Pools.after_append_singleton, Pools.replay, hk]
    omega
  · have hb : 0 ≤ bought M := bought_nonneg fun x hx => written_credit_nonneg hM x (by simp [hx])
    have hp := purchased_append (L := L) (M := e :: M) (by
      simp only [List.mem_cons, forall_eq_or_imp]
      exact ⟨by simp [hk], hd⟩)
    have hc : bought (e :: M) = e.tokens + bought M := by simp [bought, hk]
    rw [purchased_eq, purchased_eq, hp, hc]
    omega

theorem covered_of_kept {account : String} {L : List LedgerEntry} {e : LedgerEntry}
    (hk : e.kind = .purchase) (he : e.tokens = 1) (h : Kept account L e) :
    0 ≤ (Pools.after L).purchased := by
  have hp := h.2.1
  rw [purchased_eq, purchased_eq] at hp
  simp only [Pools.after_append_singleton, Pools.replay, hk] at hp
  omega

theorem purchases_kept_iff_covered (account : String) (L : List LedgerEntry) (h : Written account L) :
    (∀ e : LedgerEntry, e.kind = .purchase → 0 ≤ e.tokens → Kept account L e) ↔ Covered L := by
  rw [covered_iff h]
  constructor
  · intro hall
    exact covered_of_kept (e := ⟨"", account, .purchase, 1, 0, {}, .blank, ""⟩) rfl rfl
      (hall _ rfl Int.one_nonneg)
  · exact fun hp e hk he => kept_of_covered hp hk he

def row (kind : EntryKind) (tokens : Int) : LedgerEntry := ⟨"", "A", kind, tokens, 0, {}, .blank, ""⟩

theorem purchases_kept_after_refill :
    Written "A" [row .usage (-400), row .purchase 500] ∧
      ((∀ e : LedgerEntry, e.kind = .purchase → 0 ≤ e.tokens →
        Kept "A" [row .usage (-400), row .purchase 500] e) ↔
          Covered [row .usage (-400), row .purchase 500]) := by
  have h : Written "A" [row .usage (-400), row .purchase 500] :=
    (Written.nil.snoc (e := row .usage (-400)) (show (-400 : Int) ≤ 0 by decide)).snoc
      (e := row .purchase 500) (show (0 : Int) ≤ 500 by decide)
  exact ⟨h, purchases_kept_iff_covered "A" _ h⟩

/-- A run that overspent by 400 and a grant of 1000 leave 600 granted. A pack of
100 then shows as granted, and the next expiry takes it. -/
theorem purchase_shown_as_granted :
    Written "A" [row .usage (-400), row .grant 1000] ∧
      0 ≤ tokensOf [row .usage (-400), row .grant 1000] ∧
      (balanceOf "A" [row .usage (-400), row .grant 1000]).granted = 600 ∧
      (balanceOf "A" [row .usage (-400), row .grant 1000, row .purchase 100]).granted = 700 ∧
      (balanceOf "A" [row .usage (-400), row .grant 1000, row .purchase 100, row .expiry (-700)]).total = 0 ∧
      ¬ Kept "A" [row .usage (-400), row .grant 1000] (row .purchase 100) := by
  refine ⟨?_, by decide, by decide, by decide, by decide, fun h => absurd h.1 (by decide)⟩
  exact (Written.nil.snoc (e := row .usage (-400)) (show (-400 : Int) ≤ 0 by decide)).snoc
    (e := row .grant 1000) (show (0 : Int) ≤ 1000 by decide)

end CodeZard.Overdrafts
