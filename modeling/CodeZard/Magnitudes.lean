import CodeZard.Stroops
import Mathlib.Algebra.Order.Field.Power
import Mathlib.Algebra.Order.Field.Rat
import Mathlib.Tactic.Positivity

namespace CodeZard.Magnitudes

open Decimals Stroops

/-- The number that a decimal stands for, and zero where it stands for none. -/
def value : Decimal → ℚ
  | .finite negative coeff exp => signed negative coeff * 10 ^ exp
  | _ => 0

section Orders

variable {s t : Bool} {c d n : Nat} {e f : Int}

theorem signed_mul (s : Bool) (c k : Nat) : signed s (c * k) = signed s c * k := by
  cases s with
  | false => simp [signed]
  | true => simp [signed]

theorem value_scaled (s : Bool) (c : Nat) {e m : Int} (h : m ≤ e) :
    value (.finite s c e) = (signed s (c * 10 ^ (e - m).toNat) : ℤ) * 10 ^ m := by
  have hexp : (10 : ℚ) ^ e = 10 ^ (e - m).toNat * 10 ^ m := by
    rw [← zpow_natCast, ← zpow_add₀ (by norm_num), Int.toNat_of_nonneg (Int.sub_nonneg.2 h), Int.sub_add_cancel]
  rw [value, signed_mul, hexp]
  push_cast
  rw [mul_assoc]

theorem le_finite (s t : Bool) (c d : Nat) (e f : Int) :
    le (.finite s c e) (.finite t d f) = .ok (decide (value (.finite s c e) ≤ value (.finite t d f))) := by
  have hpos : (0 : ℚ) < 10 ^ min e f := by positivity
  rw [le, value_scaled s c (min_le_left e f), value_scaled t d (min_le_right e f)]
  congr 1
  rw [decide_eq_decide, mul_le_mul_iff_of_pos_right hpos, Int.cast_le]

theorem digitCount_add_le {k m : Nat} (hc : c ≠ 0) (h : c * 10 ^ k < 10 ^ m) : digitCount c + k ≤ m := by
  have hk : k < m := by
    by_contra hk
    have hpow : 10 ^ m ≤ 10 ^ k := Nat.pow_le_pow_right (by decide) (not_lt.1 hk)
    have hmul : 10 ^ k ≤ c * 10 ^ k := Nat.le_mul_of_pos_left _ (Nat.pos_of_ne_zero hc)
    omega
  have hsplit : c * 10 ^ k < 10 ^ (m - k) * 10 ^ k := by
    rw [← pow_add, Nat.sub_add_cancel hk.le]
    exact h
  have hlt : c < 10 ^ (m - k) := Nat.lt_of_mul_lt_mul_right hsplit
  have hdigits := (digitCount_le (Nat.sub_pos_of_lt hk)).2 hlt
  omega

theorem quantizeStroops_of_lt (he : STROOPS ≤ e) (h : c * 10 ^ (e - STROOPS).toNat < 10 ^ precision) :
    quantizeStroops (.finite s c e) = .ok (.finite s (c * 10 ^ (e - STROOPS).toNat) STROOPS) := by
  have hfits : ¬ (c ≠ 0 ∧ (precision : Int) < digitCount c + e - STROOPS) := by
    rintro ⟨hc, hlong⟩
    have hdigits := digitCount_add_le hc h
    omega
  have hkept : ¬ precision < digitCount (c * 10 ^ (e - STROOPS).toNat) :=
    not_lt.2 ((digitCount_le (by decide)).2 h)
  simp only [quantizeStroops, if_neg hfits, if_pos he, if_neg hkept]

end Orders

section Positives

variable {s t : Bool} {c d n k : Nat} {e f : Int} {q : Decimal}

theorem lt_digitCount (hn : 0 < n) : k < digitCount n ↔ 10 ^ k ≤ n := by
  cases k with
  | zero => exact iff_of_true Nat.length_toDigits_pos hn
  | succ k => rw [← not_le, digitCount_le (Nat.succ_pos k), not_lt]

theorem digitCount_mono {m : Nat} (hn : 0 < n) (h : n ≤ m) : digitCount n ≤ digitCount m := by
  by_contra hlt
  have hm := (lt_digitCount hn).1 (not_le.1 hlt)
  exact absurd ((lt_digitCount (lt_of_lt_of_le hn h)).2 (le_trans hm h)) (lt_irrefl _)

theorem digitCount_div (hn : 0 < n) (hk : k < digitCount n) :
    0 < n / 10 ^ k ∧ digitCount n ≤ k + digitCount (n / 10 ^ k) := by
  have hpow : 0 < 10 ^ k := Nat.pos_of_ne_zero (by positivity)
  have hpos : 0 < n / 10 ^ k := Nat.div_pos ((lt_digitCount hn).1 hk) hpow
  refine ⟨hpos, ?_⟩
  have hmost : 10 ^ (digitCount n - 1) ≤ n := (lt_digitCount hn).1 (by omega)
  have hrest : 10 ^ (digitCount n - 1 - k) ≤ n / 10 ^ k := by
    rw [Nat.le_div_iff_mul_le hpow, ← pow_add]
    rwa [Nat.sub_add_cancel (by omega)]
  have hcount := (lt_digitCount hpos).2 hrest
  omega

theorem roundHalfEven_ge (c k : Nat) : c / 10 ^ k ≤ roundHalfEven c k := by
  unfold roundHalfEven
  dsimp only
  split
  · exact Nat.le_succ _
  · split
    · exact Nat.le_add_right _ _
    · exact le_rfl

theorem trimmed_pos (hn : 0 < n) (e : Int) {m : Nat} {f : Int}
    (h : (if precision < digitCount n then (n / 10, e + 1) else (n, e)) = (m, f)) :
    0 < m ∧ e + digitCount n ≤ f + digitCount m := by
  split at h
  · rename_i hlong
    obtain ⟨hpos, hcount⟩ := digitCount_div (k := 1) hn (lt_trans (by decide) hlong)
    rw [pow_one] at hpos hcount
    cases h
    exact ⟨hpos, by omega⟩
  · cases h
    exact ⟨hn, le_rfl⟩

/-- A positive result stays positive when it is rounded, unless it falls below
the range of exponents. -/
theorem finalize_pos (hc : 0 < c) (he : etiny < e + digitCount c) (h : finalize s c e = .ok q) :
    ∃ n f, q = .finite s n f ∧ 0 < n ∧ e + digitCount c ≤ f + digitCount n := by
  unfold finalize at h
  rw [if_neg hc.ne'] at h
  dsimp only at h
  generalize hdrop : max ((digitCount c : Int) - precision) (etiny - e) = drop at h
  have hprecision : (precision : Int) = 28 := rfl
  have hpos : 0 < digitCount c := Nat.length_toDigits_pos
  have hrounded : ∃ n, 0 < n ∧ (if 0 < drop then roundHalfEven c drop.toNat else c) = n ∧
      e + digitCount c ≤ (if 0 < drop then e + drop else e) + digitCount n := by
    by_cases hd : 0 < drop
    · obtain ⟨hleft, hcount⟩ := digitCount_div (k := drop.toNat) hc (by omega)
      have hge := roundHalfEven_ge c drop.toNat
      have hmono := digitCount_mono hleft hge
      refine ⟨_, lt_of_lt_of_le hleft hge, if_pos hd, ?_⟩
      rw [if_pos hd]
      omega
    · exact ⟨c, hc, if_neg hd, by rw [if_neg hd]⟩
  obtain ⟨n, hn, heq, hcount⟩ := hrounded
  rw [heq] at h
  generalize htrim : (if precision < digitCount n then (n / 10, (if 0 < drop then e + drop else e) + 1)
    else (n, if 0 < drop then e + drop else e)) = trimmed at h
  obtain ⟨m, f⟩ := trimmed
  obtain ⟨hm, hrest⟩ := trimmed_pos hn _ htrim
  dsimp only at h
  split at h
  · cases h
  · cases h
    exact ⟨m, f, rfl, hm, le_trans hcount hrest⟩

theorem reduceTo_pos (ideal : Int) (fuel : Nat) (hc : 0 < c) (e : Int) :
    0 < (reduceTo ideal c e fuel).1 ∧ e + digitCount c ≤ (reduceTo ideal c e fuel).2 + digitCount (reduceTo ideal c e fuel).1 := by
  induction fuel generalizing c e with
  | zero => exact ⟨hc, le_rfl⟩
  | succ fuel ih =>
      unfold reduceTo
      split
      · rename_i hzero
        have hten : 10 ≤ c := by omega
        obtain ⟨hpos, hcount⟩ := digitCount_div (k := 1) hc ((lt_digitCount hc).2 (by omega))
        rw [pow_one] at hpos hcount
        obtain ⟨hrest, hle⟩ := ih hpos (e + 1)
        exact ⟨hrest, by omega⟩
      · exact ⟨hc, le_rfl⟩

theorem quotient_digits {shift : Int} (hc : 0 < c) (hd : 0 < d)
    (hshift : (digitCount d : Int) - digitCount c + precision + 1 = shift) :
    10 ^ 28 ≤ c * 10 ^ shift.toNat / (d * 10 ^ (-shift).toNat) := by
  have hprecision : (precision : Int) = 28 := rfl
  have hdivisor : 0 < d * 10 ^ (-shift).toNat := Nat.mul_pos hd (Nat.pos_of_ne_zero (by positivity))
  have hpos : 0 < digitCount c := Nat.length_toDigits_pos
  have hmost : 10 ^ (digitCount c - 1) ≤ c := (lt_digitCount hc).1 (by omega)
  have hleast : d < 10 ^ digitCount d := (digitCount_le Nat.length_toDigits_pos).1 le_rfl
  have hexp : 28 + digitCount d + (-shift).toNat = digitCount c - 1 + shift.toNat := by omega
  rw [Nat.le_div_iff_mul_le hdivisor]
  calc 10 ^ 28 * (d * 10 ^ (-shift).toNat)
      ≤ 10 ^ 28 * (10 ^ digitCount d * 10 ^ (-shift).toNat) := by gcongr
    _ = 10 ^ (digitCount c - 1) * 10 ^ shift.toNat := by rw [← pow_add, ← pow_add, ← pow_add, ← hexp, add_assoc]
    _ ≤ c * 10 ^ shift.toNat := by gcongr

theorem div_pos (hc : 0 < c) (hd : 0 < d) (he : etiny < e + digitCount c - (f + digitCount d))
    (h : div (.finite s c e) (.finite t d f) = .ok q) :
    ∃ n k, q = .finite (s != t) n k ∧ 0 < n ∧ e + digitCount c - (f + digitCount d) ≤ k + digitCount n := by
  simp only [div, if_neg hd.ne', if_neg hc.ne'] at h
  generalize hshift : (digitCount d : Int) - digitCount c + precision + 1 = shift at h
  have hprecision : (precision : Int) = 28 := rfl
  have hdivisor : 0 < d * 10 ^ (-shift).toNat := Nat.mul_pos hd (Nat.pos_of_ne_zero (by positivity))
  have hquotient := quotient_digits hc hd hshift
  have hcount : 28 < digitCount (c * 10 ^ shift.toNat / (d * 10 ^ (-shift).toNat)) :=
    (lt_digitCount (by omega)).2 hquotient
  generalize c * 10 ^ shift.toNat / (d * 10 ^ (-shift).toNat) = n at h hquotient hcount
  split at h
  · have hge : n ≤ (if n % 5 = 0 then n + 1 else n) := by split <;> omega
    have hmono := digitCount_mono (by omega) hge
    obtain ⟨m, k, rfl, hm, hk⟩ := finalize_pos (by omega) (by omega) h
    exact ⟨m, k, rfl, hm, by omega⟩
  · obtain ⟨hpos, hle⟩ := reduceTo_pos (e - f) shift.toNat (show 0 < n by omega) (e - f - shift)
    obtain ⟨m, k, rfl, hm, hk⟩ := finalize_pos hpos (by omega) h
    exact ⟨m, k, rfl, hm, by omega⟩

theorem quantizeStroops_pos (hc : 0 < c) (h : quantizeStroops (.finite s c e) = .ok q) :
    ∃ n, q = .finite s n STROOPS ∧ 0 < n ∧ digitCount n ≤ precision := by
  have hn : 0 < (if STROOPS ≤ e then c * 10 ^ (e - STROOPS).toNat else roundUp c (STROOPS - e).toNat) := by
    split
    · positivity
    · unfold roundUp
      split
      · rename_i hwhole
        exact Nat.div_pos (Nat.le_of_dvd hc (Nat.dvd_of_mod_eq_zero hwhole)) (by positivity)
      · exact Nat.succ_pos _
  simp only [quantizeStroops] at h
  generalize (if STROOPS ≤ e then c * 10 ^ (e - STROOPS).toNat else roundUp c (STROOPS - e).toNat) = n at h hn
  split at h
  · cases h
  · split at h
    · cases h
    · cases h
      exact ⟨n, rfl, hn, not_lt.1 ‹_›⟩

end Positives

end CodeZard.Magnitudes
