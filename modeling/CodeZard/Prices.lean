import CodeZard.Amounts
import Mathlib.Order.Bounds.Basic

namespace CodeZard.Prices

open Amounts

/-- Adding amounts of money. -/
instance : Add Money := ⟨fun m n => ⟨m.micros + n.micros⟩⟩

instance : Zero Money := ⟨{}⟩

section Floors

variable {k m n d : Int}

theorem le_fdiv (hd : 0 < d) : k ≤ n.fdiv d ↔ k * d ≤ n := by
  rw [Int.fdiv_eq_ediv_of_nonneg n hd.le, Int.le_ediv_iff_mul_le hd]

theorem fdiv_mul_le (n : Int) (hd : 0 < d) : n.fdiv d * d ≤ n := (le_fdiv hd).1 le_rfl

theorem fdiv_mono (hd : 0 < d) (h : m ≤ n) : m.fdiv d ≤ n.fdiv d :=
  (le_fdiv hd).2 (le_trans (fdiv_mul_le m hd) h)

end Floors

section Amounts

variable {p : Pricing} {a b : Money} {t : Int}

theorem le_tokensFor (hp : 0 < p.perMillion.micros) (ha : 0 ≤ a.micros) :
    t ≤ p.tokensFor a ↔ p.perMillion.micros * t ≤ a.micros * PER_MILLION := by
  have hfloor : 0 ≤ (a.micros * PER_MILLION).fdiv p.perMillion.micros :=
    Int.fdiv_nonneg (Int.mul_nonneg ha (by decide)) hp.le
  rw [Pricing.tokensFor, if_neg (not_le.2 hp), max_eq_right hfloor, le_fdiv hp, mul_comm]

theorem tokensFor_nonneg (p : Pricing) (a : Money) : 0 ≤ p.tokensFor a := by
  unfold Pricing.tokensFor
  split
  · exact le_rfl
  · exact le_max_left _ _

theorem tokensFor_paid (hp : 0 < p.perMillion.micros) (ha : 0 ≤ a.micros) :
    p.perMillion.micros * p.tokensFor a ≤ a.micros * PER_MILLION := (le_tokensFor hp ha).1 le_rfl

theorem lt_tokensFor_succ (hp : 0 < p.perMillion.micros) (ha : 0 ≤ a.micros) :
    a.micros * PER_MILLION < p.perMillion.micros * (p.tokensFor a + 1) := by
  by_contra h
  have := (le_tokensFor hp ha).2 (not_lt.1 h)
  omega

theorem tokensFor_mono (hp : 0 < p.perMillion.micros) (ha : 0 ≤ a.micros) (h : a.micros ≤ b.micros) :
    p.tokensFor a ≤ p.tokensFor b := by
  apply (le_tokensFor hp (le_trans ha h)).2
  exact le_trans (tokensFor_paid hp ha) (Int.mul_le_mul_of_nonneg_right h (by decide))

theorem costOf_eq (p : Pricing) (ht : 0 ≤ t) :
    p.costOf t = .ok ⟨(p.perMillion.micros * t + 500000).fdiv PER_MILLION⟩ := by
  rw [Pricing.costOf, max_eq_right ht]
  rfl

theorem costOf_le (ht : 0 ≤ t) (h : p.perMillion.micros * t ≤ a.micros * PER_MILLION) :
    ∃ m, p.costOf t = .ok m ∧ m.micros ≤ a.micros := by
  refine ⟨_, costOf_eq p ht, ?_⟩
  have hcost := fdiv_mul_le (p.perMillion.micros * t + 500000) (show 0 < PER_MILLION by decide)
  simp only [PER_MILLION] at h hcost ⊢
  omega

theorem sum_nonneg {amounts : List Money} (h : ∀ b ∈ amounts, 0 ≤ b.micros) : 0 ≤ amounts.sum.micros := by
  induction amounts with
  | nil => exact le_rfl
  | cons b amounts ih =>
      rw [List.sum_cons]
      exact Int.add_nonneg (h b List.mem_cons_self) (ih fun c hc => h c (List.mem_cons_of_mem b hc))

theorem sum_tokensFor_le (hp : 0 < p.perMillion.micros) {amounts : List Money} (h : ∀ b ∈ amounts, 0 ≤ b.micros) :
    (amounts.map p.tokensFor).sum ≤ p.tokensFor amounts.sum := by
  induction amounts with
  | nil => exact tokensFor_nonneg p _
  | cons b amounts ih =>
      have hb := h b List.mem_cons_self
      have hrest : ∀ c ∈ amounts, 0 ≤ c.micros := fun c hc => h c (List.mem_cons_of_mem b hc)
      have hsum := sum_nonneg hrest
      rw [List.map_cons, List.sum_cons, List.sum_cons]
      apply le_trans (Int.add_le_add_left (ih hrest) _)
      apply (le_tokensFor hp (show 0 ≤ (b + amounts.sum).micros from Int.add_nonneg hb hsum)).2
      calc p.perMillion.micros * (p.tokensFor b + p.tokensFor amounts.sum)
          = p.perMillion.micros * p.tokensFor b + p.perMillion.micros * p.tokensFor amounts.sum := Int.mul_add _ _ _
        _ ≤ b.micros * PER_MILLION + amounts.sum.micros * PER_MILLION :=
            Int.add_le_add (tokensFor_paid hp hb) (tokensFor_paid hp hsum)
        _ = (b + amounts.sum).micros * PER_MILLION := (Int.add_mul _ _ _).symm

end Amounts

/-- What an amount buys costs no more than the amount, one token more would, and
an amount paid in parts buys no more than in one. -/
theorem never_undersold (p : Pricing) (hp : 0 < p.perMillion.micros) (a : Money) (ha : 0 ≤ a.micros)
    (amounts : List Money) (hs : ∀ b ∈ amounts, 0 ≤ b.micros) :
    (∃ m, p.costOf (p.tokensFor a) = .ok m ∧ m.micros ≤ a.micros) ∧
      IsGreatest {t : Int | p.perMillion.micros * t ≤ a.micros * PER_MILLION} (p.tokensFor a) ∧
      (amounts.map p.tokensFor).sum ≤ p.tokensFor amounts.sum :=
  ⟨costOf_le (tokensFor_nonneg p a) (tokensFor_paid hp ha),
    ⟨tokensFor_paid hp ha, fun _ ht => (le_tokensFor hp ha).2 ht⟩, sum_tokensFor_le hp hs⟩

theorem never_undersold_seven :
    (∃ m, ({ perMillion := ⟨7⟩ } : Pricing).costOf 1428571428 = .ok m ∧ m.micros ≤ 10000) ∧
      ([⟨5000⟩, ⟨5000⟩].map ({ perMillion := ⟨7⟩ } : Pricing).tokensFor).sum ≤ 1428571428 := by
  have h := never_undersold { perMillion := ⟨7⟩ } (by decide) ⟨10000⟩ (by decide) [⟨5000⟩, ⟨5000⟩] (by decide)
  exact ⟨h.1, h.2.2⟩

/-- Real work was done, and the provider charged for it. -/
structure Owes (usage : Usage) : Prop where
  real : usage.simulated = false
  worked : usage.isEmpty = false
  cost : 0 < usage.cost.micros

instance (usage : Usage) : Decidable (Owes usage) :=
  decidable_of_iff (usage.simulated = false ∧ usage.isEmpty = false ∧ 0 < usage.cost.micros)
    ⟨fun h => ⟨h.1, h.2.1, h.2.2⟩, fun h => ⟨h.real, h.worked, h.cost⟩⟩

def markedUp (p : Pricing) (cost : Money) : Money :=
  ⟨(cost.micros * (10000 + p.marginBps) + 5000).fdiv 10000⟩

section Usages

variable {p : Pricing} {u v : Usage}

theorem scaled_eq (p : Pricing) (cost : Money) : cost.scaled (10000 + p.marginBps) 10000 = .ok (markedUp p cost) := rfl

theorem billable_owed (p : Pricing) (h : Owes u) :
    p.billable u = .ok (max p.minimumCharge (p.tokensFor (markedUp p u.cost))) := by
  have hcost : u.cost.isZero = false := decide_eq_false h.cost.ne'
  rw [Pricing.billable, h.real, h.worked, hcost, scaled_eq]
  rfl

theorem le_markedUp (hm : 0 ≤ p.marginBps) {cost : Money} (hc : 0 ≤ cost.micros) :
    cost.micros ≤ (markedUp p cost).micros := by
  apply (le_fdiv (by decide)).2
  have hmargin := Int.mul_nonneg hc hm
  rw [Int.mul_add]
  omega

theorem markedUp_mono (hm : 0 ≤ p.marginBps) (h : u.cost.micros ≤ v.cost.micros) :
    (markedUp p u.cost).micros ≤ (markedUp p v.cost).micros := by
  apply fdiv_mono (by decide)
  have hrate : 0 ≤ 10000 + p.marginBps := by omega
  have := Int.mul_le_mul_of_nonneg_right h hrate
  omega

theorem billable_mono (hp : 0 < p.perMillion.micros) (hm : 0 ≤ p.marginBps) (hu : Owes u)
    (h : u.cost.micros ≤ v.cost.micros) :
    max p.minimumCharge (p.tokensFor (markedUp p u.cost)) ≤ max p.minimumCharge (p.tokensFor (markedUp p v.cost)) := by
  have hpaid : 0 ≤ (markedUp p u.cost).micros := le_trans hu.cost.le (le_markedUp hm hu.cost.le)
  exact max_le_max le_rfl (tokensFor_mono hp hpaid (markedUp_mono hm h))

theorem costOf_shipped {t : Int} (ht : 0 ≤ t) : ({} : Pricing).costOf t = .ok ⟨6 * t⟩ := by
  rw [costOf_eq _ ht]
  congr 2
  have hrate : ({} : Pricing).perMillion.micros = 6000000 := rfl
  rw [hrate, PER_MILLION, Int.fdiv_eq_ediv_of_nonneg _ (by decide)]
  omega

theorem shipped_covers (hs : u.simulated = false) (he : u.isEmpty = false) :
    ∃ t, ({} : Pricing).billable u = .ok t ∧ 0 ≤ t ∧ u.cost.micros ≤ 6 * t := by
  have hminimum : ({} : Pricing).minimumCharge = 1000 := rfl
  by_cases hcost : 0 < u.cost.micros
  · refine ⟨_, billable_owed {} ⟨hs, he, hcost⟩, ?_, ?_⟩
    · exact le_trans (by decide) (le_max_left _ _)
    · have hpaid : 0 ≤ (markedUp {} u.cost).micros := le_trans hcost.le (le_markedUp (by decide) hcost.le)
      have htokens := lt_tokensFor_succ (p := {}) (by decide) hpaid
      have hmarked : (markedUp {} u.cost).micros = (u.cost.micros * 13000 + 5000) / 10000 :=
        Int.fdiv_eq_ediv_of_nonneg _ (by decide)
      have hrate : ({} : Pricing).perMillion.micros = 6000000 := rfl
      rw [hrate, hmarked, PER_MILLION] at htokens
      rw [hminimum]
      omega
  · by_cases hzero : u.cost.micros = 0
    · refine ⟨max 1000 u.tokens, ?_, le_trans (by decide) (le_max_left _ _), ?_⟩
      · rw [Pricing.billable, hs, he, Money.isZero, decide_eq_true hzero]
        rfl
      · omega
    · have hnot : u.cost.isZero = false := decide_eq_false hzero
      refine ⟨max 1000 (({} : Pricing).tokensFor (markedUp {} u.cost)), ?_, ?_, ?_⟩
      · rw [Pricing.billable, hs, he, hnot, scaled_eq]
        rfl
      · exact le_trans (by decide) (le_max_left _ _)
      · omega

end Usages

/-- A run is never billed below its cost at the shipped prices. At any prices,
what real work is billed grows with its cost, is no less than the minimum and
falls short of the marked-up cost by less than a token. -/
theorem cost_covered :
    (∀ u : Usage, u.simulated = false → u.isEmpty = false →
      ∃ t m, ({} : Pricing).billable u = .ok t ∧ ({} : Pricing).costOf t = .ok m ∧ u.cost.micros ≤ m.micros) ∧
    ∀ p : Pricing, 0 < p.perMillion.micros → 0 ≤ p.marginBps →
      (∀ u, Owes u → ∃ t m, p.billable u = .ok t ∧ u.cost.scaled (10000 + p.marginBps) 10000 = .ok m ∧
        p.minimumCharge ≤ t ∧ m.micros * PER_MILLION < p.perMillion.micros * (t + 1)) ∧
      ∀ u v, Owes u → Owes v → u.cost.micros ≤ v.cost.micros →
        ∃ t t', p.billable u = .ok t ∧ p.billable v = .ok t' ∧ t ≤ t' := by
  constructor
  · intro u hs he
    obtain ⟨t, ht, hnonneg, hle⟩ := shipped_covers hs he
    exact ⟨t, ⟨6 * t⟩, ht, costOf_shipped hnonneg, hle⟩
  · intro p hp hm
    constructor
    · intro u hu
      refine ⟨_, _, billable_owed p hu, scaled_eq p u.cost, le_max_left _ _, ?_⟩
      have hpaid : 0 ≤ (markedUp p u.cost).micros := le_trans hu.cost.le (le_markedUp hm hu.cost.le)
      apply lt_of_lt_of_le (lt_tokensFor_succ hp hpaid)
      exact Int.mul_le_mul_of_nonneg_left (Int.add_le_add_right (le_max_right _ _) 1) hp.le
    · intro u v hu hv h
      exact ⟨_, _, billable_owed p hu, billable_owed p hv, billable_mono hp hm hu h⟩

theorem cost_covered_cent :
    Owes { tokens := 5, calls := 1, cost := ⟨10000⟩ } ∧
      (∃ t t', ({} : Pricing).billable { tokens := 5, calls := 1, cost := ⟨5000⟩ } = .ok t ∧
        ({} : Pricing).billable { tokens := 5, calls := 1, cost := ⟨10000⟩ } = .ok t' ∧ t ≤ t') ∧
      ∃ t m, ({} : Pricing).billable { tokens := 5, calls := 1, cost := ⟨10000⟩ } = .ok t ∧
        ({} : Pricing).costOf t = .ok m ∧ 10000 ≤ m.micros :=
  ⟨by decide, (cost_covered.2 {} (by decide) (by decide)).2 _ _ (by decide) (by decide) (by decide),
    cost_covered.1 { tokens := 5, calls := 1, cost := ⟨10000⟩ } rfl rfl⟩

/-- A simulated run owes nothing, whatever it is said to have cost. -/
theorem simulated_unbilled :
    ¬ ∀ p : Pricing, 0 < p.perMillion.micros → 0 ≤ p.marginBps →
      ∀ u : Usage, 0 < u.cost.micros → ∃ t, p.billable u = .ok t ∧ p.minimumCharge ≤ t := by
  intro h
  obtain ⟨t, ht, hle⟩ := h {} (by decide) (by decide) { tokens := 1, calls := 1, cost := ⟨1⟩, simulated := true } (by decide)
  cases ht
  exact absurd hle (by decide)

end CodeZard.Prices
