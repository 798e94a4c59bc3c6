import CodeZard.Overdrafts

namespace CodeZard.Balances

open Ledgers Overdrafts

/-- By how much the debits went beyond both pools, which a balance shows as
nothing at all. -/
def overspend (L : List LedgerEntry) : Int := max 0 (-((Pools.after L).granted + (Pools.after L).purchased))

variable {account : String} {L : List LedgerEntry}

theorem total_eq (h : Written account L) : (balanceOf account L).total = max 0 (tokensOf L) := by
  obtain ⟨hg, hsum⟩ := pools_after h
  rw [Balance.total, granted_eq, purchased_eq]
  omega

theorem overspend_eq (h : Written account L) : overspend L = max 0 (-tokensOf L) := by
  rw [overspend, (pools_after h).2]

theorem rowAfter_credit {e : LedgerEntry} (hc : e.kind.isCredit = true) (ht : 0 ≤ e.tokens) : RowAfter account L e := by
  cases hk : e.kind with
  | grant | purchase | refund => simpa only [RowAfter, hk] using ht
  | usage | adjustment | expiry =>
      rw [hk] at hc
      cases hc

/-- A balance is the sum of what happened: what was overspent is taken from
whatever is credited next, in full, and is then no longer owed. -/
theorem balance_is_sum (h : Written account L) :
    (balanceOf account L).total = max 0 (tokensOf L) ∧
      0 ≤ (balanceOf account L).granted ∧ 0 ≤ (balanceOf account L).purchased ∧
      ∀ e : LedgerEntry, e.kind.isCredit = true → 0 ≤ e.tokens →
        (balanceOf account (L ++ [e])).total =
            (balanceOf account L).total + (e.tokens - min e.tokens (overspend L)) ∧
          overspend (L ++ [e]) = overspend L - min e.tokens (overspend L) := by
  refine ⟨total_eq h, granted_nonneg account L, purchased_nonneg account L, fun e hc ht => ?_⟩
  have he := h.snoc (rowAfter_credit hc ht)
  rw [total_eq he, total_eq h, overspend_eq he, overspend_eq h, tokensOf_append, tokensOf_cons, tokensOf_nil]
  omega

theorem balance_is_sum_overspent :
    Written "A" [row .grant 1000, row .usage (-1400)] ∧
      overspend [row .grant 1000, row .usage (-1400)] = 400 ∧
      (balanceOf "A" [row .grant 1000, row .usage (-1400), row .grant 1000]).total = 600 ∧
      overspend [row .grant 1000, row .usage (-1400), row .grant 1000] = 0 := by
  have h : Written "A" [row .grant 1000, row .usage (-1400)] :=
    (Written.nil.snoc (e := row .grant 1000) (show (0 : Int) ≤ 1000 by decide)).snoc
      (e := row .usage (-1400)) (show (-1400 : Int) ≤ 0 by decide)
  obtain ⟨_, _, _, hcredit⟩ := balance_is_sum h
  have hgrant := hcredit (row .grant 1000) rfl (by decide)
  exact ⟨h, by decide, hgrant.1, hgrant.2⟩

section Steps

variable {e : LedgerEntry}

theorem after_usage (hk : e.kind = .usage) :
    Pools.after (L ++ [e]) =
      ⟨(Pools.after L).granted - min (Pools.after L).granted (-e.tokens),
        (Pools.after L).purchased - (-e.tokens - min (Pools.after L).granted (-e.tokens))⟩ := by
  rw [Pools.after_append_singleton, Pools.replay, hk]

theorem balance_ext {b b' : Balance} (ha : b.account = b'.account) (hg : b.granted = b'.granted)
    (hp : b.purchased = b'.purchased) : b = b' := by
  cases b
  cases b'
  simp_all

theorem usage_covered (h : Written account L) (hk : e.kind = .usage) (h₀ : 0 ≤ -e.tokens)
    (hu : -e.tokens ≤ (balanceOf account L).total) :
    balanceOf account (L ++ [e]) =
      ⟨account, (balanceOf account L).granted - min (balanceOf account L).granted (-e.tokens),
        (balanceOf account L).purchased - (-e.tokens - min (balanceOf account L).granted (-e.tokens))⟩ := by
  obtain ⟨hg, -⟩ := pools_after h
  rw [Balance.total, granted_eq, purchased_eq] at hu
  apply balance_ext
  · rfl
  · simp only [granted_eq, after_usage hk]
    omega
  · simp only [granted_eq, purchased_eq, after_usage hk]
    omega

theorem usage_beyond (h : Written account L) (hk : e.kind = .usage)
    (hu : (balanceOf account L).total < -e.tokens) : (balanceOf account (L ++ [e])).total = 0 := by
  rw [total_eq h] at hu
  have ht : e.tokens ≤ 0 := by omega
  have he := h.snoc (show RowAfter account L e by simpa only [RowAfter, hk] using ht)
  rw [total_eq he, tokensOf_append, tokensOf_cons, tokensOf_nil]
  omega

theorem expiry_spends_grant (h : Written account L) (hk : e.kind = .expiry)
    (ht : e.tokens = -(balanceOf account L).granted) :
    balanceOf account (L ++ [e]) = ⟨account, 0, (balanceOf account L).purchased⟩ := by
  obtain ⟨hg, -⟩ := pools_after h
  rw [granted_eq] at ht
  apply balance_ext
  · rfl
  · simp only [granted_eq, Pools.after_append_singleton, Pools.replay, hk]
    omega
  · simp only [purchased_eq, Pools.after_append_singleton, Pools.replay, hk]

end Steps

/-- Debits spend the grant first, and an expiry takes the grant alone. -/
theorem debits_spend_grant_first (h : Written account L) :
    (∀ (e : LedgerEntry) (u : Int), e.kind = .usage → e.tokens = -u → 0 ≤ u →
        (u ≤ (balanceOf account L).total → balanceOf account (L ++ [e]) =
          ⟨account, (balanceOf account L).granted - min (balanceOf account L).granted u,
            (balanceOf account L).purchased - (u - min (balanceOf account L).granted u)⟩) ∧
        ((balanceOf account L).total < u → (balanceOf account (L ++ [e])).total = 0)) ∧
      ∀ e : LedgerEntry, e.kind = .expiry → e.tokens = -(balanceOf account L).granted →
        balanceOf account (L ++ [e]) = ⟨account, 0, (balanceOf account L).purchased⟩ := by
  refine ⟨fun e u hk ht h₀ => ?_, fun e hk ht => expiry_spends_grant h hk ht⟩
  obtain rfl : u = -e.tokens := by omega
  exact ⟨usage_covered h hk h₀, usage_beyond h hk⟩

theorem debits_spend_grant_first_owing :
    Written "A" [row .usage (-400), row .grant 1000] ∧
      balanceOf "A" [row .usage (-400), row .grant 1000] = ⟨"A", 600, 0⟩ ∧
      balanceOf "A" [row .usage (-400), row .grant 1000, row .usage (-500)] = ⟨"A", 100, 0⟩ ∧
      (balanceOf "A" [row .usage (-400), row .grant 1000, row .usage (-900)]).total = 0 ∧
      balanceOf "A" [row .usage (-400), row .grant 1000, row .expiry (-600)] = ⟨"A", 0, 0⟩ := by
  have h : Written "A" [row .usage (-400), row .grant 1000] :=
    (Written.nil.snoc (e := row .usage (-400)) (show (-400 : Int) ≤ 0 by decide)).snoc
      (e := row .grant 1000) (show (0 : Int) ≤ 1000 by decide)
  obtain ⟨husage, hexpiry⟩ := debits_spend_grant_first h
  exact ⟨h, by decide, (husage (row .usage (-500)) 500 rfl rfl (by decide)).1 (by decide),
    (husage (row .usage (-900)) 900 rfl rfl (by decide)).2 (by decide), hexpiry (row .expiry (-600)) rfl (by decide)⟩

end CodeZard.Balances
