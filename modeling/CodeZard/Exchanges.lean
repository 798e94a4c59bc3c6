import CodeZard.Numerals
import CodeZard.Roundings
import CodeZard.Stellar

namespace CodeZard.Exchanges

open Amounts Decimals Invoices Magnitudes Roundings Stellar Stroops

/-- What an amount of USD is worth in dollars. -/
def dollars (m : Money) : ℚ := m.micros / 10 ^ 6

section Powers

variable {m k z : ℕ} {l j : ℤ}

theorem roundUp_le (m k z : ℕ) : roundUp m k ≤ z ↔ m ≤ z * 10 ^ k := by
  have hpow : 0 < 10 ^ k := Nat.pos_of_ne_zero (by positivity)
  have hsplit := Nat.div_add_mod m (10 ^ k)
  unfold roundUp
  split
  · rename_i hzero
    exact Nat.div_le_iff_le_mul_of_dvd hpow.ne' (Nat.dvd_of_mod_eq_zero hzero)
  · rename_i hrest
    rw [Nat.add_one_le_iff, Nat.div_lt_iff_lt_mul hpow]
    refine ⟨le_of_lt, fun hle => lt_of_le_of_ne hle ?_⟩
    rintro rfl
    exact hrest (Nat.mul_mod_left z _)

def stroops (m : ℕ) (l : ℤ) : ℕ :=
  if STROOPS ≤ l then m * 10 ^ (l - STROOPS).toNat else roundUp m (STROOPS - l).toNat

theorem stroops_le (m : ℕ) (l : ℤ) (z : ℕ) : stroops m l ≤ z ↔ (m : ℚ) * 10 ^ l ≤ z * 10 ^ STROOPS := by
  unfold stroops
  split
  · rename_i hl
    rw [scaled_eq m hl, mul_le_mul_iff_of_pos_right (ten_zpow_pos _), Nat.cast_le]
  · rename_i hl
    rw [roundUp_le, scaled_eq z (not_le.1 hl).le, mul_le_mul_iff_of_pos_right (ten_zpow_pos _), Nat.cast_le]

theorem stroops_small (h : (m : ℚ) * 10 ^ l < 10 ^ (20 : ℤ)) : stroops m l ≤ 10 ^ 27 := by
  rw [stroops_le]
  refine le_trans h.le (le_of_eq ?_)
  norm_num [STROOPS]

theorem quantizeStroops_eq (hm : 0 < m) (h : (m : ℚ) * 10 ^ l < 10 ^ (20 : ℤ)) :
    quantizeStroops (.finite false m l) = .ok (.finite false (stroops m l) STROOPS) := by
  have hprecision : precision = 28 := rfl
  have hstroops : STROOPS = -7 := rfl
  have hdigits := digits_le hm h
  have hfits : ¬ (m ≠ 0 ∧ (precision : ℤ) < digitCount m + l - STROOPS) := by omega
  have hkept : ¬ precision < digitCount (stroops m l) :=
    not_lt.2 ((digitCount_le (by decide)).2 (lt_of_le_of_lt (stroops_small h) (by decide)))
  exact (if_neg hfits).trans (if_neg hkept)

end Powers

section Quotients

variable {s t : Bool} {c d m : ℕ} {e f l j : ℤ} {x y : ℚ} {k : ℤ} {n : ℕ}

theorem in_range (hm : 0 < m) (hj : j ≤ emax) (h : (m : ℚ) * 10 ^ l < 10 ^ j) : ¬ emax < l + digitCount m - 1 := by
  have hdigits := digits_le hm h
  omega

theorem div_eq (hc : 0 < c) (hd : 0 < d) (he : etiny + precision ≤ e + digitCount c - (f + digitCount d))
    (hx : (c : ℚ) * 10 ^ e / (d * 10 ^ f) < 10 ^ (20 : ℤ)) :
    ∃ m l k n, div (.finite s c e) (.finite t d f) = .ok (.finite (s != t) m l) ∧ 0 < m ∧
      Rounded (c * 10 ^ e / (d * 10 ^ f)) (m * 10 ^ l) k n := by
  obtain ⟨m, l, k, n, hresult | ⟨_, hover⟩, hm, hrounded⟩ := div_rounded (s := s) (t := t) hc hd he
  · exact ⟨m, l, k, n, hresult, hm, hrounded⟩
  · have hle : (m : ℚ) * 10 ^ l ≤ (1 : ℕ) * 10 ^ (20 : ℤ) := by
      apply hrounded.le (by decide)
      rw [Nat.cast_one, one_mul]
      exact hx.le
    have hlt : (m : ℚ) * 10 ^ l < 10 ^ (21 : ℤ) := lt_of_le_of_lt hle (by norm_num)
    exact absurd hover (in_range hm (by decide) hlt)

theorem div_million {p : ℕ} (hp : 0 < p) (hmax : p ≤ 2 ^ 63) :
    ∃ m l, div (.finite s p 0) (.finite false MICROS.toNat 0) = .ok (.finite s m l) ∧ 0 < m ∧
      (m : ℚ) * 10 ^ l = p * 10 ^ (-6 : ℤ) := by
  have hmillion : digitCount MICROS.toNat = 7 := by decide +kernel
  have hdigits : 0 < digitCount p := Nat.length_toDigits_pos
  have hetiny : etiny = -1000026 := rfl
  have hprecision : precision = 28 := rfl
  have hexact : (p : ℚ) * 10 ^ (0 : ℤ) / (MICROS.toNat * 10 ^ (0 : ℤ)) = p * 10 ^ (-6 : ℤ) := by
    have hmicros : MICROS.toNat = 1000000 := rfl
    rw [hmicros]
    norm_num
    ring
  have hsmall : (p : ℚ) ≤ 10 ^ 19 := by
    have hp : p ≤ 10 ^ 19 := by omega
    exact_mod_cast hp
  have hbound : (p : ℚ) * 10 ^ (0 : ℤ) / (MICROS.toNat * 10 ^ (0 : ℤ)) < 10 ^ (20 : ℤ) := by
    rw [hexact]
    norm_num
    linarith
  obtain ⟨m, l, k, n, hresult, hm, hrounded⟩ := div_eq (s := s) (t := false) hp (show 0 < MICROS.toNat by decide)
    (by omega) hbound
  have hfits : p ≤ 10 ^ 28 := by omega
  rw [hexact] at hrounded
  refine ⟨m, l, ?_, hm, le_antisymm (hrounded.le hfits le_rfl) (hrounded.ge hfits le_rfl)⟩
  rw [hresult, Bool.bne_false]

theorem decimal_eq {price : Money} (hp : 0 < price.micros) (hmax : price.micros < 2 ^ 63) :
    ∃ m l, decimal price = .ok (.finite false m l) ∧ 0 < m ∧ (m : ℚ) * 10 ^ l = dollars price := by
  obtain ⟨p, hprice⟩ : ∃ p : ℕ, price.micros = p := ⟨price.micros.toNat, by omega⟩
  obtain ⟨m, l, hresult, hm, hvalue⟩ := div_million (s := false) (p := p) (by omega) (by omega)
  have hsign : decide (price.micros < 0) = false := decide_eq_false (not_lt.2 hp.le)
  have habs : price.micros.natAbs = p := by omega
  refine ⟨m, l, ?_, hm, ?_⟩
  · rw [decimal, hsign, habs]
    exact hresult
  · rw [hvalue, dollars, hprice]
    norm_num
    ring

theorem crosses {p r : ℕ} (hr : 0 < r) (hp : p < 2 ^ 63) (hx : x = 10 * p / r) (h : Rounded x y k n) (z : ℕ) :
    y ≤ z * 10 ^ STROOPS ↔ x ≤ z * 10 ^ STROOPS := by
  have hstroops : (10 : ℚ) ^ STROOPS = 1 / 10 ^ 7 := by norm_num [STROOPS]
  have hr' : (0 : ℚ) < r := by exact_mod_cast hr
  have hp' : (p : ℚ) ≤ 10 ^ 19 := by exact_mod_cast (show p ≤ 10 ^ 19 by omega)
  constructor
  · intro hy
    by_contra hlt
    -- the price in stroops is a fraction of the rate, so it is above by a part of it
    have habove : z * r + 1 ≤ 10 ^ 8 * p := by
      have hz : (z : ℚ) * r < 10 ^ 8 * p := by
        rw [not_le, hx, hstroops, lt_div_iff₀ hr'] at hlt
        linarith
      exact_mod_cast hz
    have hgap : (z : ℚ) * r + 1 ≤ 10 ^ 8 * p := by exact_mod_cast habove
    have hxr : x * r = 10 * p := by rw [hx, div_mul_cancel₀ _ hr'.ne']
    have hnear := h.near
    have hleast := h.least
    have hy' : (10 : ℚ) ^ 7 * y ≤ z := by
      rw [hstroops] at hy
      linarith
    -- multiplied by the rate, rounding takes away half of it
    have hyr : (10 : ℚ) ^ 7 * y * r ≤ z * r := mul_le_mul_of_nonneg_right hy' hr'.le
    have hnearr := mul_le_mul_of_nonneg_right hnear hr'.le
    have hleastr := mul_le_mul_of_nonneg_right hleast hr'.le
    generalize (10 : ℚ) ^ k = u at *
    linarith
  · intro hle
    by_cases hz : z ≤ 10 ^ 28
    · exact h.le hz hle
    · have hlarge : (10 : ℚ) ^ 28 ≤ z := by exact_mod_cast (not_le.1 hz).le
      have hmost : x ≤ (10 ^ 20 : ℕ) * 10 ^ (0 : ℤ) := by
        rw [hx, div_le_iff₀ hr']
        have hone : (1 : ℚ) ≤ r := by exact_mod_cast hr
        push_cast
        nlinarith
      have hy := h.le (by norm_num) hmost
      push_cast at hy
      rw [hstroops]
      linarith

theorem value_pos {q : Decimal} (h : 0 < value q) : ∃ d f, q = .finite false d f ∧ 0 < d ∧ value q = d * 10 ^ f := by
  cases q with
  | infinity b => exact absurd h (lt_irrefl 0)
  | nan b => exact absurd h (lt_irrefl 0)
  | finite b d f =>
      have hsigned : 0 < signed b d := by
        by_contra hle
        have hcast : (signed b d : ℚ) ≤ 0 := by exact_mod_cast not_lt.1 hle
        exact absurd h (not_lt.2 (mul_nonpos_of_nonpos_of_nonneg hcast (ten_zpow_pos f).le))
      cases b with
      | true => exact absurd hsigned (by simp [signed])
      | false => exact ⟨d, f, rfl, by simpa [signed] using hsigned, by simp [value, signed]⟩

theorem amount_zero (e : ℤ) : amount (.finite false 0 e) = .ok (text (.finite false 0 STROOPS)) := by
  have hnone : (if STROOPS ≤ e then 0 * 10 ^ (e - STROOPS).toNat else roundUp 0 (STROOPS - e).toNat) = 0 := by
    split
    · exact Nat.zero_mul _
    · simp [roundUp]
  have hkept : ¬ precision < digitCount 0 := by decide +kernel
  simp only [amount, quantizeStroops, hnone, ne_eq, not_true_eq_false, false_and, if_false, if_neg hkept]
  rfl

theorem quoted_zero {d : ℕ} (hd : 0 < d) (f : ℤ) :
    (do amount (← div (← decimal {}) (.finite false d f))) = .ok (text (.finite false 0 STROOPS)) := by
  have hprice : decimal {} = .ok (.finite false 0 0) := by decide +kernel
  have hdiv : div (.finite false 0 0) (.finite false d f) = .ok (.finite false 0 (max etiny (min (0 - f) emax))) := by
    simp only [div, if_neg hd.ne', if_true]
    rfl
  rw [hprice]
  simp only [bind, Except.bind, hdiv]
  exact amount_zero _

theorem divided_eq {price : Money} {rate : Decimal} {r : ℕ} (hp : 0 ≤ price.micros) (hmax : price.micros < 2 ^ 63)
    (hr : 1 ≤ r) (hr' : r < 2 ^ 63) (hrate : value rate = r * 10 ^ STROOPS) :
    ∃ n : ℕ, (do amount (← div (← decimal price) rate)) = .ok (text (.finite false n STROOPS)) ∧ n < 10 ^ 28 ∧
      ∀ z : ℕ, n ≤ z ↔ dollars price / value rate ≤ z * 10 ^ STROOPS := by
  have hstroops : (10 : ℚ) ^ STROOPS = 1 / 10 ^ 7 := by norm_num [STROOPS]
  have hone : (1 : ℚ) ≤ r := by exact_mod_cast hr
  obtain ⟨d, f, rfl, hd, hdf⟩ := value_pos (q := rate) (by rw [hrate, hstroops]; linarith)
  rcases hp.eq_or_lt with hzero | hpos
  · obtain rfl : price = {} := by cases price; cases hzero; rfl
    refine ⟨0, quoted_zero hd f, by decide, fun z => iff_of_true (Nat.zero_le z) ?_⟩
    have hnone : dollars {} = 0 := by norm_num [dollars]
    rw [hnone, zero_div]
    positivity
  · obtain ⟨p, hprice⟩ : ∃ p : ℕ, price.micros = p := ⟨price.micros.toNat, by omega⟩
    have hp' : p < 2 ^ 63 := by omega
    have hx : dollars price / value (.finite false d f) = 10 * p / r := by
      rw [hrate, hstroops, dollars, hprice]
      push_cast
      field_simp
    have hwhole : dollars price / value (.finite false d f) ≤ (10 * p : ℕ) * 10 ^ (0 : ℤ) := by
      rw [hx, zpow_zero, mul_one, Nat.cast_mul]
      exact div_le_self (by positivity) hone
    have hsmall : ((10 * p : ℕ) : ℚ) * 10 ^ (0 : ℤ) < 10 ^ (20 : ℤ) := by
      rw [zpow_zero, mul_one]
      exact_mod_cast (show 10 * p < 10 ^ 20 by omega)
    have hbound := lt_of_le_of_lt hwhole hsmall
    obtain ⟨m, l, hdecimal, hm, hml⟩ := decimal_eq hpos hmax
    have hmin : (10 : ℚ) ^ (-7 : ℤ) ≤ m * 10 ^ l := by
      have hleast : (1 : ℚ) ≤ p := by exact_mod_cast (show 1 ≤ p by omega)
      rw [hml, dollars, hprice]
      push_cast
      norm_num
      linarith
    have hmost : (d : ℚ) * 10 ^ f < 10 ^ (13 : ℤ) := by
      have hsmall : (r : ℚ) ≤ 10 ^ 19 := by exact_mod_cast (show r ≤ 10 ^ 19 by omega)
      rw [← hdf, hrate, hstroops]
      norm_num
      linarith
    have hfirst := lt_digits hmin
    have hlast := digits_le hd hmost
    have hetiny : etiny = -1000026 := rfl
    have hprecision : precision = 28 := rfl
    rw [hdf, ← hml] at hx hbound hwhole ⊢
    obtain ⟨m', l', k, n, hresult, hm', hrounded⟩ := div_eq (s := false) (t := false) hm hd (by omega) hbound
    have hquotient : (m' : ℚ) * 10 ^ l' < 10 ^ (20 : ℤ) := lt_of_le_of_lt (hrounded.le (by omega) hwhole) hsmall
    refine ⟨stroops m' l', ?_, ?_, fun z => ?_⟩
    · rw [hdecimal]
      simp only [bind, Except.bind, hresult]
      rw [amount, show (false != false) = false from rfl, quantizeStroops_eq hm' hquotient]
      rfl
    · exact lt_of_le_of_lt (stroops_small hquotient) (by decide)
    · rw [stroops_le]
      exact crosses (by omega) hp' hx hrounded z

end Quotients

/-- Any amount in stroops. -/
def inStroops (x : ℚ) : Prop := ∃ k : ℤ, x = k * 10 ^ STROOPS

/-- A quote in another currency than dollars is the exact price rounded up to a
stroop: it covers the price, and one stroop less would not. -/
theorem quote_exact (config : StellarConfig) (price : Money) (asset : String) (answer : Answer) (rate : Decimal)
    (r : ℕ) (hp : 0 ≤ price.micros) (hmax : price.micros < 2 ^ 63) (hr : 1 ≤ r) (hr' : r < 2 ^ 63)
    (hasset : upper (if asset = "" then config.asset else asset) ≠ "USDC") (hrate : xlmUsd config answer = .ok rate)
    (hvalue : value rate = r * 10 ^ STROOPS) :
    ∃ s a, quote config price asset answer = .ok s ∧ parse s = some a ∧
      IsLeast {x | inStroops x ∧ dollars price / value rate ≤ x} (value a) ∧
      dollars price ≤ value a * value rate ∧ (value a - 10 ^ STROOPS) * value rate < dollars price := by
  have hstroops : (0 : ℚ) < 10 ^ STROOPS := ten_zpow_pos _
  have hpos : 0 < value rate := by
    rw [hvalue]
    exact mul_pos (by exact_mod_cast hr) hstroops
  obtain ⟨n, hamount, hn, hleast⟩ := divided_eq hp hmax hr hr' hvalue
  have hdollars : 0 ≤ dollars price := div_nonneg (by exact_mod_cast hp) (by positivity)
  have hcovered : dollars price / value rate ≤ n * 10 ^ STROOPS := (hleast n).1 le_rfl
  have hnumber : value (.finite false n STROOPS) = n * 10 ^ STROOPS := by simp [value, signed]
  have hdigits : digitCount n ≤ 28 := (digitCount_le (by decide)).2 hn
  refine ⟨text (.finite false n STROOPS), .finite false n STROOPS, ?_, ?_, ⟨⟨⟨n, ?_⟩, ?_⟩, ?_⟩, ?_, ?_⟩
  · obtain ⟨d, f, rfl, hd, -⟩ := value_pos hpos
    have hpositive : isPositive (.finite false d f) = true := by simp [isPositive, hd.ne']
    simp only [quote, if_neg hasset, hrate, bind, Except.bind, hpositive, Bool.not_true, Bool.false_eq_true, if_false]
    exact congrArg signals hamount
  · have hmax : maxExponent = 999999999999999999 := rfl
    have hmin : minExponent = -1999999999999999997 := rfl
    have hexp : STROOPS = -7 := rfl
    exact Numerals.parse_text false (by omega) (by omega)
  · rw [hnumber, Int.cast_natCast]
  · rw [hnumber]
    exact hcovered
  · rintro _ ⟨⟨k, rfl⟩, hk⟩
    have hnonneg : (0 : ℚ) ≤ k := nonneg_of_mul_nonneg_left (le_trans (div_nonneg hdollars hpos.le) hk) hstroops
    have hk0 : 0 ≤ k := by exact_mod_cast hnonneg
    obtain ⟨z, rfl⟩ := Int.eq_ofNat_of_zero_le hk0
    rw [Int.cast_natCast] at hk ⊢
    rw [hnumber]
    exact mul_le_mul_of_nonneg_right (by exact_mod_cast (hleast z).2 hk) hstroops.le
  · rw [hnumber]
    exact (div_le_iff₀ hpos).1 hcovered
  · rw [hnumber, ← lt_div_iff₀ hpos]
    -- a number of stroops that is too few, or none at all
    rcases Nat.eq_zero_or_pos n with rfl | hn
    · refine lt_of_lt_of_le ?_ (div_nonneg hdollars hpos.le)
      rw [Nat.cast_zero, zero_mul, zero_sub]
      exact neg_lt_zero.2 hstroops
    · have hless := mt (hleast (n - 1)).2 (by omega)
      rw [not_le, Nat.cast_sub hn] at hless
      refine lt_of_eq_of_lt ?_ hless
      push_cast
      ring

theorem quote_exact_dollar :
    ∃ s a, quote { xlmUsd := "0.3" } ⟨1000000⟩ "xlm" (.unreachable "") = .ok s ∧ parse s = some a ∧
      IsLeast {x | inStroops x ∧ dollars ⟨1000000⟩ / value (.finite false 3 (-1)) ≤ x} (value a) ∧
      dollars ⟨1000000⟩ ≤ value a * value (.finite false 3 (-1)) ∧
      (value a - 10 ^ STROOPS) * value (.finite false 3 (-1)) < dollars ⟨1000000⟩ :=
  quote_exact { xlmUsd := "0.3" } ⟨1000000⟩ "xlm" (.unreachable "") (.finite false 3 (-1)) 3000000 (by decide) (by decide)
    (by decide) (by decide) (by decide +kernel) (by decide +kernel) (by norm_num [value, signed, STROOPS])

end CodeZard.Exchanges
