import CodeZard.Magnitudes
import Mathlib.Tactic.FieldSimp
import Mathlib.Tactic.Linarith
import Mathlib.Tactic.Ring

namespace CodeZard.Roundings

open Decimals Stroops Magnitudes

/-- A whole number next to a number, and the even one where two are as near. -/
structure HalfEven (t : ℚ) (n : ℕ) : Prop where
  low : 2 * t ≤ 2 * n + 1
  high : 2 * n ≤ 2 * t + 1
  even : 2 * t = 2 * n + 1 ∨ 2 * n = 2 * t + 1 → n % 2 = 0

section Naturals

variable {a b c k n s : ℕ} {t : ℚ}

theorem HalfEven.le (h : HalfEven t n) {z : ℕ} (hz : t ≤ z) : n ≤ z := by
  have hlt : (n : ℚ) < z + 1 := by linarith [h.high]
  exact_mod_cast Nat.lt_succ_iff.1 (by exact_mod_cast hlt)

theorem HalfEven.ge (h : HalfEven t n) {z : ℕ} (hz : z ≤ t) : z ≤ n := by
  have hlt : (z : ℚ) < n + 1 := by linarith [h.low]
  exact_mod_cast Nat.lt_succ_iff.1 (by exact_mod_cast hlt)

theorem halfEven_natCast (n : ℕ) : HalfEven n n where
  low := by linarith
  high := by linarith
  even h := by rcases h with h | h <;> linarith

theorem roundHalfEven_cases (c k : ℕ) :
    2 * c ≤ (2 * roundHalfEven c k + 1) * 10 ^ k ∧ 2 * roundHalfEven c k * 10 ^ k ≤ 2 * c + 10 ^ k ∧
      (2 * c = (2 * roundHalfEven c k + 1) * 10 ^ k ∨ 2 * roundHalfEven c k * 10 ^ k = 2 * c + 10 ^ k →
        roundHalfEven c k % 2 = 0) := by
  have hpow : 0 < 10 ^ k := Nat.pos_of_ne_zero (by positivity)
  have hsplit := Nat.div_add_mod c (10 ^ k)
  have hrest := Nat.mod_lt c hpow
  unfold roundHalfEven
  dsimp only
  generalize c / 10 ^ k = q at hsplit ⊢
  generalize c % 10 ^ k = r at hsplit hrest ⊢
  generalize 10 ^ k = d at hpow hsplit hrest ⊢
  subst hsplit
  have hexpand (x : ℕ) : 2 * x * d = 2 * (d * x) := by rw [mul_assoc, mul_comm x d]
  split
  · rw [add_mul, hexpand, mul_add d q 1]
    omega
  · split
    · rcases Nat.mod_two_eq_zero_or_one q with hq | hq
      · have hkept : q + q % 2 = q := by omega
        rw [hkept, add_mul, hexpand]
        omega
      · have hnext : q + q % 2 = q + 1 := by omega
        rw [hnext, add_mul, hexpand, mul_add d q 1]
        omega
    · rw [add_mul, hexpand]
      omega

theorem halfEven_div (hb : 0 < b) (hlow : 2 * a ≤ (2 * n + 1) * b) (hhigh : 2 * n * b ≤ 2 * a + b)
    (heven : 2 * a = (2 * n + 1) * b ∨ 2 * n * b = 2 * a + b → n % 2 = 0) : HalfEven ((a : ℚ) / b) n := by
  have hpos : (0 : ℚ) < b := by exact_mod_cast hb
  have hlow' : (2 * a : ℚ) ≤ (2 * n + 1) * b := by exact_mod_cast hlow
  have hhigh' : (2 * n * b : ℚ) ≤ 2 * a + b := by exact_mod_cast hhigh
  constructor
  · rw [← mul_div_assoc, div_le_iff₀ hpos]
    exact hlow'
  · rw [← mul_div_assoc, div_add_one hpos.ne', le_div_iff₀ hpos]
    exact hhigh'
  · intro h
    apply heven
    rw [← mul_div_assoc, div_add_one hpos.ne', div_eq_iff hpos.ne', eq_div_iff hpos.ne'] at h
    exact_mod_cast h

theorem halfEven_pow (c k : ℕ) : HalfEven ((c : ℚ) / (10 ^ k : ℕ)) (roundHalfEven c k) := by
  obtain ⟨hlow, hhigh, heven⟩ := roundHalfEven_cases c k
  exact halfEven_div (Nat.pos_of_ne_zero (by positivity)) hlow hhigh heven

/-- A whole number that lies as another number does, above or below, next to
every multiple of five. -/
structure Stands (a b s : ℕ) : Prop where
  above : ∀ m, 5 ∣ m → (a ≤ m * b ↔ s ≤ m)
  below : ∀ m, 5 ∣ m → (m * b ≤ a ↔ m ≤ s)

theorem stands_self (s : ℕ) : Stands s 1 s := ⟨fun m _ => by rw [mul_one], fun m _ => by rw [mul_one]⟩

theorem stands_sticky (hb : 0 < b) (h : a % b ≠ 0) : Stands a b (if a / b % 5 = 0 then a / b + 1 else a / b) := by
  have hne (m : ℕ) : a ≠ m * b := by
    rintro rfl
    exact h (Nat.mul_mod_left m b)
  have habove (m : ℕ) : a ≤ m * b ↔ a / b < m := by
    rw [Nat.div_lt_iff_lt_mul hb]
    exact ⟨fun hle => lt_of_le_of_ne hle (hne m), le_of_lt⟩
  constructor
  · intro m hm
    rw [habove]
    split <;> omega
  · intro m hm
    rw [← Nat.le_div_iff_mul_le hb]
    split <;> omega

theorem halfEven_stands (hb : 0 < b) (hk : 0 < k) (h : Stands a b s) :
    HalfEven ((a : ℚ) / (b * 10 ^ k : ℕ)) (roundHalfEven s k) := by
  obtain ⟨hlow, hhigh, heven⟩ := roundHalfEven_cases s k
  generalize roundHalfEven s k = n at *
  obtain ⟨j, rfl⟩ : ∃ j, k = j + 1 := ⟨k - 1, by omega⟩
  have hten : 10 ^ (j + 1) = 2 * (5 * 10 ^ j) := by
    rw [pow_succ]
    omega
  have hfive (x : ℕ) : 5 ∣ x * (5 * 10 ^ j) := (Dvd.intro _ rfl : 5 ∣ 5 * 10 ^ j).mul_left x
  have hu : 0 < 5 * 10 ^ j := by positivity
  rw [hten] at hlow hhigh heven ⊢
  generalize 5 * 10 ^ j = u at *
  have hends (x : ℕ) : x * (b * (2 * u)) = 2 * (x * u * b) := by ring
  have hends' (x : ℕ) : x * (2 * u) = 2 * (x * u) := by ring
  rw [hends'] at hlow heven
  have habove := h.above ((2 * n + 1) * u) (hfive _)
  have hbelow := h.below ((2 * n + 1) * u) (hfive _)
  cases n with
  | zero =>
      refine halfEven_div (Nat.mul_pos hb (by omega)) ?_ (by omega) fun _ => rfl
      rw [hends]
      have hle := habove.2 (by omega)
      omega
  | succ m =>
      have habove' := h.above ((2 * m + 1) * u) (hfive _)
      have hbelow' := h.below ((2 * m + 1) * u) (hfive _)
      have hprev (v : ℕ) : 2 * (m + 1) * v = (2 * m + 1) * v + v := by ring
      rw [hprev, hends'] at hhigh heven
      have hle := habove.2 (by omega)
      have hge := hbelow'.2 (by omega)
      refine halfEven_div (Nat.mul_pos hb (by omega)) ?_ ?_ fun heq => heven ?_
      · rw [hends]
        omega
      · rw [hprev, hends]
        omega
      · rw [hprev, hends, hends] at heq
        rcases heq with heq | heq
        · have := hbelow.1 (by omega)
          omega
        · have := habove'.1 (by omega)
          omega

end Naturals

/-- A positive number rounded to 28 digits, of which the last counts `10 ^ k`. -/
structure Rounded (x y : ℚ) (k : ℤ) (n : ℕ) : Prop where
  least : 10 ^ 27 * 10 ^ k ≤ x
  most : x < 10 ^ 28 * 10 ^ k
  nearest : HalfEven (x / 10 ^ k) n
  value : y = n * 10 ^ k

section Ranges

variable {x y : ℚ} {j k l : ℤ} {m n z : ℕ}

theorem ten_zpow_pos (k : ℤ) : (0 : ℚ) < 10 ^ k := by positivity

theorem zpow_eq_div (k : ℤ) : (10 : ℚ) ^ k = 10 ^ k.toNat / 10 ^ (-k).toNat := by
  rw [eq_div_iff (by positivity), ← zpow_natCast, ← zpow_natCast, ← zpow_add₀ (by norm_num)]
  congr 1
  omega

theorem scaled_eq (z : ℕ) (h : k ≤ l) : (z : ℚ) * 10 ^ l = (z * 10 ^ (l - k).toNat : ℕ) * 10 ^ k := by
  have hexp : (10 : ℚ) ^ l = 10 ^ (l - k).toNat * 10 ^ k := by
    rw [← zpow_natCast, ← zpow_add₀ (by norm_num), Int.toNat_of_nonneg (Int.sub_nonneg.2 h), Int.sub_add_cancel]
  rw [hexp]
  push_cast
  rw [mul_assoc]

theorem pow_le_value (hm : 0 < m) (l : ℤ) : (10 : ℚ) ^ (l + digitCount m - 1) ≤ m * 10 ^ l := by
  have hdigits : 0 < digitCount m := Nat.length_toDigits_pos
  have hleast : 10 ^ (digitCount m - 1) ≤ m := (lt_digitCount hm).1 (by omega)
  have hsplit : l + (digitCount m : ℤ) - 1 = ((digitCount m - 1 : ℕ) : ℤ) + l := by omega
  rw [hsplit, zpow_add₀ (by norm_num), zpow_natCast]
  exact mul_le_mul_of_nonneg_right (by exact_mod_cast hleast) (ten_zpow_pos l).le

theorem value_lt_pow (m : ℕ) (l : ℤ) : (m : ℚ) * 10 ^ l < 10 ^ (l + digitCount m) := by
  have hmost : m < 10 ^ digitCount m := (digitCount_le Nat.length_toDigits_pos).1 le_rfl
  rw [add_comm, zpow_add₀ (by norm_num), zpow_natCast]
  exact mul_lt_mul_of_pos_right (by exact_mod_cast hmost) (ten_zpow_pos l)

theorem digits_le (hm : 0 < m) (h : (m : ℚ) * 10 ^ l < 10 ^ j) : l + digitCount m ≤ j := by
  have hlt := (zpow_lt_zpow_iff_right₀ (by norm_num : (1 : ℚ) < 10)).1 (lt_of_le_of_lt (pow_le_value hm l) h)
  omega

theorem lt_digits (h : 10 ^ j ≤ (m : ℚ) * 10 ^ l) : j < l + digitCount m :=
  (zpow_lt_zpow_iff_right₀ (by norm_num : (1 : ℚ) < 10)).1 (lt_of_le_of_lt h (value_lt_pow m l))

theorem below_least (hz : z ≤ 10 ^ 28) (h : l < k) : (z : ℚ) * 10 ^ l ≤ 10 ^ 27 * 10 ^ k := by
  have hz' : (z : ℚ) ≤ 10 ^ 28 := by exact_mod_cast hz
  have hone : (10 : ℚ) * 10 ^ l ≤ 10 ^ k := by
    rw [← zpow_one_add₀ (by norm_num)]
    exact zpow_le_zpow_right₀ (by norm_num) (by omega)
  calc (z : ℚ) * 10 ^ l ≤ 10 ^ 28 * 10 ^ l := mul_le_mul_of_nonneg_right hz' (ten_zpow_pos l).le
    _ = 10 ^ 27 * (10 * 10 ^ l) := by ring
    _ ≤ 10 ^ 27 * 10 ^ k := mul_le_mul_of_nonneg_left hone (by norm_num)

namespace Rounded

theorem digits (h : Rounded x y k n) : 10 ^ 27 ≤ n ∧ n ≤ 10 ^ 28 := by
  constructor
  · apply h.nearest.ge
    rw [le_div_iff₀ (ten_zpow_pos k)]
    exact_mod_cast h.least
  · apply h.nearest.le
    rw [div_le_iff₀ (ten_zpow_pos k)]
    exact_mod_cast h.most.le

theorem le (h : Rounded x y k n) (hz : z ≤ 10 ^ 28) (hx : x ≤ z * 10 ^ l) : y ≤ z * 10 ^ l := by
  rw [h.value]
  rcases le_or_gt k l with hkl | hkl
  · rw [scaled_eq z hkl] at hx ⊢
    rw [mul_le_mul_iff_of_pos_right (ten_zpow_pos k), Nat.cast_le]
    exact h.nearest.le ((div_le_iff₀ (ten_zpow_pos k)).2 hx)
  · have hleast : (n : ℚ) ≤ (10 ^ 27 : ℕ) := by
      rw [Nat.cast_le]
      apply h.nearest.le
      rw [div_le_iff₀ (ten_zpow_pos k)]
      exact_mod_cast le_trans hx (below_least hz hkl)
    calc (n : ℚ) * 10 ^ k ≤ (10 ^ 27 : ℕ) * 10 ^ k := mul_le_mul_of_nonneg_right hleast (ten_zpow_pos k).le
      _ ≤ x := by exact_mod_cast h.least
      _ ≤ z * 10 ^ l := hx

theorem ge (h : Rounded x y k n) (hz : z ≤ 10 ^ 28) (hx : z * 10 ^ l ≤ x) : z * 10 ^ l ≤ y := by
  rw [h.value]
  rcases le_or_gt k l with hkl | hkl
  · rw [scaled_eq z hkl] at hx ⊢
    rw [mul_le_mul_iff_of_pos_right (ten_zpow_pos k), Nat.cast_le]
    exact h.nearest.ge ((le_div_iff₀ (ten_zpow_pos k)).2 hx)
  · apply le_trans (below_least hz hkl)
    apply mul_le_mul_of_nonneg_right _ (ten_zpow_pos k).le
    exact_mod_cast h.digits.1

theorem near (h : Rounded x y k n) : 2 * x ≤ 2 * y + 10 ^ k := by
  have hlow := h.nearest.low
  rw [← mul_div_assoc, div_le_iff₀ (ten_zpow_pos k)] at hlow
  rw [h.value]
  linarith

end Rounded

theorem rounded_self {c : ℕ} (hc : 0 < c) (hd : digitCount c ≤ precision) (e : ℤ) :
    Rounded (c * 10 ^ e) (c * 10 ^ e) (e - (precision - digitCount c : ℕ)) (c * 10 ^ (precision - digitCount c)) := by
  have hprecision : precision = 28 := rfl
  have hdigits : 0 < digitCount c := Nat.length_toDigits_pos
  have hk : e - ((precision - digitCount c : ℕ) : ℤ) ≤ e := by omega
  have hshift : (e - (e - ((precision - digitCount c : ℕ) : ℤ))).toNat = precision - digitCount c := by omega
  have heq := scaled_eq c hk
  rw [hshift] at heq
  have hmost := (digitCount_le (n := c) hdigits).1 le_rfl
  have hleast : 10 ^ (digitCount c - 1) ≤ c := (lt_digitCount hc).1 (by omega)
  generalize hj : precision - digitCount c = j at *
  have hhigh : c * 10 ^ j < 10 ^ 28 := by
    have hsplit : 10 ^ 28 = 10 ^ digitCount c * 10 ^ j := by rw [← pow_add]; congr 1; omega
    rw [hsplit]
    exact Nat.mul_lt_mul_of_pos_right hmost (by positivity)
  have hlow : 10 ^ 27 ≤ c * 10 ^ j := by
    have hsplit : 10 ^ 27 = 10 ^ (digitCount c - 1) * 10 ^ j := by rw [← pow_add]; congr 1; omega
    rw [hsplit]
    exact Nat.mul_le_mul_right _ hleast
  have hpos := ten_zpow_pos (e - (j : ℤ))
  rw [heq]
  constructor
  · rw [mul_le_mul_iff_of_pos_right hpos]
    exact_mod_cast hlow
  · rw [mul_lt_mul_iff_of_pos_right hpos]
    exact_mod_cast hhigh
  · rw [mul_div_cancel_right₀ _ hpos.ne']
    exact halfEven_natCast _
  · rfl

theorem rounded_of_stands {a b s : ℕ} (hb : 0 < b) (h : Stands a b s) (hd : precision < digitCount s) (e : ℤ) :
    Rounded ((a : ℚ) / b * 10 ^ e) (roundHalfEven s (digitCount s - precision) * 10 ^ (e + (digitCount s - precision : ℕ)))
      (e + (digitCount s - precision : ℕ)) (roundHalfEven s (digitCount s - precision)) := by
  have hprecision : precision = 28 := rfl
  have hs : 0 < s := Nat.pos_of_ne_zero (by rintro rfl; exact absurd hd (by decide))
  have hmost : s < 10 ^ digitCount s := (digitCount_le Nat.length_toDigits_pos).1 le_rfl
  have hleast : 10 ^ (digitCount s - 1) ≤ s := (lt_digitCount hs).1 (by omega)
  generalize hj : digitCount s - precision = j
  have hlow : 10 ^ 27 * 10 ^ j ≤ s := by
    rw [← pow_add]
    exact le_trans (Nat.pow_le_pow_right (by decide) (by omega)) hleast
  have hhigh : s < 10 ^ 28 * 10 ^ j := by
    rw [← pow_add]
    exact lt_of_lt_of_le hmost (Nat.pow_le_pow_right (by decide) (by omega))
  have hfive (i : ℕ) : 5 ∣ 10 ^ (i + 1) * 10 ^ j := by
    rw [pow_succ, mul_assoc]
    exact (Dvd.intro 2 rfl : 5 ∣ 10).mul_right _ |>.mul_left _
  have habove := (h.below _ (hfive 26)).2 hlow
  have hbelow := mt (h.below _ (hfive 27)).1 (not_le.2 hhigh)
  have hsplit : (10 : ℚ) ^ (e + (j : ℤ)) = 10 ^ j * 10 ^ e := by
    rw [zpow_add₀ (by norm_num), zpow_natCast, mul_comm]
  have hpos := ten_zpow_pos e
  have hb' : (0 : ℚ) < b := by exact_mod_cast hb
  constructor
  · rw [hsplit, ← mul_assoc, mul_le_mul_iff_of_pos_right hpos, le_div_iff₀ hb']
    exact_mod_cast habove
  · rw [hsplit, ← mul_assoc, mul_lt_mul_iff_of_pos_right hpos, div_lt_iff₀ hb']
    exact_mod_cast not_le.1 hbelow
  · have hratio : (a : ℚ) / b * 10 ^ e / 10 ^ (e + (j : ℤ)) = (a : ℚ) / (b * 10 ^ j : ℕ) := by
      rw [hsplit]
      push_cast
      field_simp
    rw [hratio]
    exact halfEven_stands hb (by omega) h
  · rfl

end Ranges

section Results

variable {s t : Bool} {c d : ℕ} {e f : ℤ}

/-- A result of too many digits is rounded, and nothing else happens to it
unless it is out of range. -/
theorem finalize_digits (hc : 0 < c) (he : etiny + precision ≤ e + digitCount c) :
    ∃ m l, (finalize s c e = .ok (.finite s m l) ∨ finalize s c e = .error .overflow ∧ emax < l + digitCount m - 1) ∧
      0 < m ∧ (m : ℚ) * 10 ^ l =
        roundHalfEven c (digitCount c - precision) * 10 ^ (e + (digitCount c - precision : ℕ)) := by
  have hprecision : precision = 28 := rfl
  generalize hj : digitCount c - precision = j
  have hpow : 0 < 10 ^ j := Nat.pos_of_ne_zero (by positivity)
  have hmost : c < 10 ^ digitCount c := (digitCount_le Nat.length_toDigits_pos).1 le_rfl
  have hrounded : (if 0 < max ((digitCount c : ℤ) - precision) (etiny - e) then
      roundHalfEven c (max ((digitCount c : ℤ) - precision) (etiny - e)).toNat else c) = roundHalfEven c j := by
    by_cases hlong : 0 < j
    · have hdrop : max ((digitCount c : ℤ) - precision) (etiny - e) = j := by omega
      rw [hdrop, if_pos (by omega), Int.toNat_natCast]
    · have hdrop : ¬ 0 < max ((digitCount c : ℤ) - precision) (etiny - e) := by omega
      have hzero : j = 0 := by omega
      rw [if_neg hdrop, hzero]
      simp [roundHalfEven, Nat.mod_one]
  have hshifted : (if 0 < max ((digitCount c : ℤ) - precision) (etiny - e) then
      e + max ((digitCount c : ℤ) - precision) (etiny - e) else e) = e + j := by
    split <;> omega
  unfold finalize
  rw [if_neg hc.ne']
  simp only [hrounded, hshifted]
  have hceiling : roundHalfEven c j ≤ 10 ^ 28 := by
    apply (halfEven_pow c j).le
    rw [div_le_iff₀ (by exact_mod_cast hpow)]
    have hle : c ≤ 10 ^ 28 * 10 ^ j := by
      rw [← pow_add]
      exact le_trans hmost.le (Nat.pow_le_pow_right (by decide) (by omega))
    exact_mod_cast hle
  have hfloor : 0 < roundHalfEven c j := by
    have hpos : 0 < digitCount c := Nat.length_toDigits_pos
    exact lt_of_lt_of_le (digitCount_div hc (by omega)).1 (roundHalfEven_ge c j)
  generalize roundHalfEven c j = n at *
  have hends (m : ℕ) (l : ℤ) : (if emax < l + digitCount m - 1 then .error .overflow else .ok (.finite s m l)) =
      (.ok (.finite s m l) : Except Signal Decimal) ∨
      (if emax < l + digitCount m - 1 then .error .overflow else .ok (.finite s m l)) =
        (.error .overflow : Except Signal Decimal) ∧ emax < l + digitCount m - 1 := by
    by_cases hover : emax < l + digitCount m - 1
    · exact .inr ⟨if_pos hover, hover⟩
    · exact .inl (if_neg hover)
  by_cases htrim : precision < digitCount n
  · have hn : n = 10 ^ 28 := le_antisymm hceiling ((lt_digitCount hfloor).1 htrim)
    rw [if_pos htrim]
    refine ⟨n / 10, e + j + 1, hends _ _, ?_, ?_⟩
    · rw [hn]
      decide
    · rw [hn, zpow_add_one₀ (by norm_num)]
      norm_num
      ring
  · rw [if_neg htrim]
    exact ⟨n, e + j, hends _ _, hfloor, rfl⟩

theorem finalize_rounded (hc : 0 < c) (he : etiny + precision ≤ e + digitCount c) :
    ∃ m l k n, (finalize s c e = .ok (.finite s m l) ∨ finalize s c e = .error .overflow ∧ emax < l + digitCount m - 1) ∧
      0 < m ∧ Rounded (c * 10 ^ e) (m * 10 ^ l) k n := by
  have hprecision : precision = 28 := rfl
  obtain ⟨m, l, hresult, hm, hvalue⟩ := finalize_digits (s := s) hc he
  by_cases hlong : digitCount c ≤ precision
  · have hzero : digitCount c - precision = 0 := by omega
    have hkept : roundHalfEven c 0 = c := by simp [roundHalfEven, Nat.mod_one]
    rw [hzero, hkept, Nat.cast_zero, add_zero] at hvalue
    have hrounded := rounded_self hc hlong e
    rw [← hvalue] at hrounded ⊢
    exact ⟨m, l, _, _, hresult, hm, hrounded⟩
  · have hrounded := rounded_of_stands Nat.one_pos (stands_self c) (not_le.1 hlong) e
    rw [← hvalue, Nat.cast_one, div_one] at hrounded
    exact ⟨m, l, _, _, hresult, hm, hrounded⟩

theorem reduceTo_value (ideal : ℤ) (fuel : ℕ) (c : ℕ) (e : ℤ) :
    ((reduceTo ideal c e fuel).1 : ℚ) * 10 ^ (reduceTo ideal c e fuel).2 = c * 10 ^ e := by
  induction fuel generalizing c e with
  | zero => rfl
  | succ fuel ih =>
      unfold reduceTo
      split
      · rename_i hzero
        have hten : ((c / 10 : ℕ) : ℚ) * 10 = c := by exact_mod_cast Nat.div_mul_cancel (Nat.dvd_of_mod_eq_zero hzero.2)
        rw [ih, zpow_add_one₀ (by norm_num), mul_comm (_ ^ e) _, ← mul_assoc, hten]
      · rfl

/-- The quotient of positive numbers, of which the digits beyond the precision
are only looked at. -/
theorem div_rounded (hc : 0 < c) (hd : 0 < d) (he : etiny + precision ≤ e + digitCount c - (f + digitCount d)) :
    ∃ m l k n, (div (.finite s c e) (.finite t d f) = .ok (.finite (s != t) m l) ∨
        div (.finite s c e) (.finite t d f) = .error .overflow ∧ emax < l + digitCount m - 1) ∧
      0 < m ∧ Rounded (c * 10 ^ e / (d * 10 ^ f)) (m * 10 ^ l) k n := by
  have hprecision : precision = 28 := rfl
  simp only [div, if_neg hd.ne', if_neg hc.ne']
  generalize hshift : (digitCount d : ℤ) - digitCount c + precision + 1 = shift
  have hdivisor : 0 < d * 10 ^ (-shift).toNat := Nat.mul_pos hd (Nat.pos_of_ne_zero (by positivity))
  have hquotient := quotient_digits hc hd hshift
  have hratio : (c : ℚ) * 10 ^ e / (d * 10 ^ f) =
      ((c * 10 ^ shift.toNat : ℕ) : ℚ) / (d * 10 ^ (-shift).toNat : ℕ) * 10 ^ (e - f - shift) := by
    have hd' : (d : ℚ) ≠ 0 := by exact_mod_cast hd.ne'
    rw [zpow_sub₀ (by norm_num), zpow_sub₀ (by norm_num), zpow_eq_div shift]
    push_cast
    field_simp
  rw [hratio]
  generalize c * 10 ^ shift.toNat = a at *
  generalize d * 10 ^ (-shift).toNat = b at *
  have hcount : 28 < digitCount (a / b) := (lt_digitCount (by omega)).2 hquotient
  split
  · rename_i hrest
    have hstands := stands_sticky hdivisor hrest
    have hlonger : digitCount (a / b) ≤ digitCount (if a / b % 5 = 0 then a / b + 1 else a / b) := by
      apply digitCount_mono (by omega)
      split <;> omega
    generalize (if a / b % 5 = 0 then a / b + 1 else a / b) = q at *
    have hq : 0 < q := Nat.pos_of_ne_zero (by rintro rfl; exact absurd (lt_of_lt_of_le hcount hlonger) (by decide))
    obtain ⟨m, l, hresult, hm, hvalue⟩ := finalize_digits (s := s != t) (e := e - f - shift) hq (by omega)
    have hrounded := rounded_of_stands hdivisor hstands (by omega) (e - f - shift)
    rw [← hvalue] at hrounded
    exact ⟨m, l, _, _, hresult, hm, hrounded⟩
  · rename_i hrest
    obtain ⟨hpos, hle⟩ := reduceTo_pos (e - f) shift.toNat (show 0 < a / b by omega) (e - f - shift)
    have hvalue := reduceTo_value (e - f) shift.toNat (a / b) (e - f - shift)
    obtain ⟨m, l, k, n, hresult, hm, hrounded⟩ := finalize_rounded (s := s != t) hpos
      (e := (reduceTo (e - f) (a / b) (e - f - shift) shift.toNat).2) (by omega)
    refine ⟨m, l, k, n, hresult, hm, ?_⟩
    have hexact : ((a / b : ℕ) : ℚ) = a / b := by
      rw [eq_div_iff (by exact_mod_cast hdivisor.ne')]
      exact_mod_cast Nat.div_mul_cancel (Nat.dvd_of_mod_eq_zero (not_not.1 hrest))
    rwa [hvalue, hexact] at hrounded

end Results

end CodeZard.Roundings
