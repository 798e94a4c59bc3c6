import CodeZard.Numerals
import CodeZard.Roundings
import CodeZard.StreamScans

namespace CodeZard.Micros

open Amounts Decimals Magnitudes Roundings Stroops StreamScans Values

/-- The coefficient and the exponent that a number is written with, whatever
they are. -/
def numberOf (cs : List Char) : Option (ℕ × ℤ) :=
  let (whole, rest) := takeDigits cs
  let (part, rest) := match rest with
    | '.' :: rest => takeDigits rest
    | rest => ([], rest)
  if whole ++ part = [] then none
  else (parseExponent rest).map fun e => (natOf (whole ++ part), e - part.length)

/-- The finite number that a text denotes: its sign, coefficient and exponent. -/
def denoted (s : String) : Option (Bool × ℕ × ℤ) :=
  let (negative, cs) := splitSign ((strip s.toList).filter (· ≠ '_'))
  (numberOf cs).map fun (c, e) => (negative, c, e)

/-- A number whose exponent a decimal can have. -/
def Kept (c : ℕ) (e : ℤ) : Prop := minExponent ≤ e ∧ e + digitCount c - 1 ≤ maxExponent

instance (c : ℕ) (e : ℤ) : Decidable (Kept c e) := inferInstanceAs (Decidable (_ ∧ _))

section Texts

variable {cs : List Char} {b : Bool} {c : Char} {s : String} {n d : ℕ} {e : ℤ}

theorem parseNumber_eq (b : Bool) (cs : List Char) :
    parseNumber b cs = (numberOf cs).bind fun n => if Kept n.1 n.2 then some (.finite b n.1 n.2) else none := by
  have hexp (x : Option ℤ) (m : ℕ) (k : ℤ) : (x.bind fun e =>
      if maxExponent < e - k + digitCount m - 1 ∨ e - k < minExponent then none else some (Decimal.finite b m (e - k))) =
      (x.map fun e => (m, e - k)).bind fun n => if Kept n.1 n.2 then some (Decimal.finite b n.1 n.2) else none := by
    cases x with
    | none => rfl
    | some e =>
        simp only [Option.bind_some, Option.map_some]
        by_cases hkept : Kept m (e - k)
        · rw [if_pos hkept, if_neg (by unfold Kept at hkept; omega)]
        · rw [if_neg hkept, if_pos (by unfold Kept at hkept; omega)]
  unfold parseNumber
  dsimp only
  split
  · rename_i hpoint
    simp only [numberOf, hpoint]
    split
    · rfl
    · exact hexp _ _ _
  · rename_i hnone
    have hplain : numberOf cs = if (takeDigits cs).1 ++ [] = [] then none
        else (parseExponent (takeDigits cs).2).map fun e => (natOf ((takeDigits cs).1 ++ []), e - (([] : List ℕ).length : ℤ)) := by
      unfold numberOf
      dsimp only
      split
      · rename_i hpoint
        exact absurd hpoint (hnone _)
      · rfl
    rw [hplain]
    split
    · rfl
    · exact hexp _ _ _

theorem digit_range (h : digit c = some d) : c.toNat < 65 ∨ 122 < c.toNat := by
  obtain ⟨z, hz, -⟩ := Option.map_eq_some_iff.1 h
  have hmem := List.mem_of_find?_eq_some hz
  have hspan := List.find?_some hz
  have hzeros : ∀ z ∈ digitZeros, z = 48 ∨ 1632 ≤ z := by decide
  simp only [Bool.and_eq_true, decide_eq_true_eq] at hspan
  have hzero := hzeros z hmem
  omega

theorem digit_of_toLower (hl : 97 ≤ c.toLower.toNat) (hh : c.toLower.toNat ≤ 122) : digit c = none := by
  by_contra hdigit
  obtain ⟨d, hd⟩ := Option.ne_none_iff_exists'.1 hdigit
  have hrange := digit_range hd
  have hkept : ¬ (c.val ≥ 'A'.val ∧ c.val ≤ 'Z'.val) := by
    rintro ⟨hle, hge⟩
    have hlow : 65 ≤ c.toNat := UInt32.le_iff_toNat_le.1 hle
    have hhigh : c.toNat ≤ 90 := UInt32.le_iff_toNat_le.1 hge
    omega
  have hsame : c.toLower = c := dif_neg hkept
  rw [hsame] at hl hh
  omega

theorem numberOf_letter (hl : 97 ≤ c.toLower.toNat) (hh : c.toLower.toNat ≤ 122) : numberOf (c :: cs) = none := by
  have htake : takeDigits (c :: cs) = ([], c :: cs) := by rw [takeDigits, digit_of_toLower hl hh]
  have hpoint : c ≠ '.' := by
    rintro rfl
    exact absurd hl (by decide +kernel)
  unfold numberOf
  rw [htake]
  dsimp only
  split
  · rename_i hcons
    exact absurd (List.cons.inj hcons).1 hpoint
  · rfl

theorem numberOf_word {w : List Char} (h : cs.map Char.toLower = c :: w) (hl : 97 ≤ c.toNat) (hh : c.toNat ≤ 122) :
    numberOf cs = none := by
  cases cs with
  | nil => cases h
  | cons c' cs =>
      obtain ⟨rfl, -⟩ := List.cons.inj h
      exact numberOf_letter hl hh

theorem parse_finite (s : String) (b : Bool) (n : ℕ) (e : ℤ) :
    parse s = some (.finite b n e) ↔ denoted s = some (b, n, e) ∧ Kept n e := by
  unfold parse denoted
  dsimp only
  generalize splitSign ((strip s.toList).filter (· ≠ '_')) = signed
  obtain ⟨b', cs⟩ := signed
  dsimp only
  have hword (q : Option Decimal) (hnone : numberOf cs = none) (hq : q ≠ some (.finite b n e)) :
      q = some (.finite b n e) ↔ (numberOf cs).map (fun x => (b', x.1, x.2)) = some (b, n, e) ∧ Kept n e := by
    rw [hnone]
    exact iff_of_false hq (fun h => by cases h.1)
  split
  · exact hword _ (numberOf_word ‹_› (by decide) (by decide)) (by simp)
  · exact hword _ (numberOf_word ‹_› (by decide) (by decide)) (by simp)
  · exact hword _ (numberOf_word ‹_› (by decide) (by decide)) (by split <;> simp)
  · exact hword _ (numberOf_word ‹_› (by decide) (by decide)) (by split <;> simp)
  · rw [parseNumber_eq]
    cases numberOf cs with
    | none => simp
    | some x =>
        obtain ⟨c, f⟩ := x
        simp only [Option.bind_some, Option.map_some, Option.some.injEq, Prod.mk.injEq]
        constructor
        · intro h
          split at h
          · rename_i hkept
            cases h
            exact ⟨⟨rfl, rfl, rfl⟩, hkept⟩
          · cases h
        · rintro ⟨⟨rfl, rfl, rfl⟩, hkept⟩
          exact if_pos hkept

end Texts

/-- The whole number nearest to a number, and the larger one where two are as
near. -/
structure HalfUp (x : ℚ) (n : ℕ) : Prop where
  low : 2 * n ≤ 2 * x + 1
  high : 2 * x < 2 * n + 1

/-- A number that 28 digits show on the other side of a half: one of 28 digits
before the point whose half is rounded to an even number first, or one that is
less than a half and no nearer to any other number of 28 digits. -/
def Blurred (x : ℚ) : Prop :=
  10 ^ 27 ≤ x ∧ (∃ m : ℕ, 2 * x = 2 * m + 1 ∧ m % 2 = 0) ∨
    ∃ j m : ℕ, 0 < j ∧ 10 ^ 27 ≤ x * 10 ^ j ∧ x * 10 ^ j < 10 ^ 28 ∧ 2 * x < 2 * m + 1 ∧
      ((2 * m + 1 - 2 * x) * 10 ^ j < 1 ∨ (2 * m + 1 - 2 * x) * 10 ^ j = 1 ∧ 1 < j)

section Halves

variable {x y : ℚ} {k : ℤ} {j m n N : ℕ}

theorem HalfUp.unique (h : HalfUp x m) (h' : HalfUp x n) : m = n := by
  have hlt : (2 * m : ℚ) < 2 * n + 2 := by linarith [h.low, h'.high]
  have hgt : (2 * n : ℚ) < 2 * m + 2 := by linarith [h'.low, h.high]
  have hlt' : 2 * m < 2 * n + 2 := by exact_mod_cast hlt
  have hgt' : 2 * n < 2 * m + 2 := by exact_mod_cast hgt
  omega

theorem halfUp_natCast (n : ℕ) : HalfUp n n where
  low := by linarith
  high := by linarith

theorem halfUp_zero (hx : 0 ≤ x) (h : 10 * x < 1) : HalfUp x 0 where
  low := by push_cast; linarith
  high := by push_cast; linarith

theorem halfUp_roundHalfUp (m k : ℕ) : HalfUp ((m : ℚ) / (10 ^ k : ℕ)) (roundHalfUp m k) := by
  have hpow : 0 < 10 ^ k := Nat.pos_of_ne_zero (by positivity)
  have hsplit := Nat.div_add_mod m (10 ^ k)
  have hrest := Nat.mod_lt m hpow
  have hbounds : 2 * roundHalfUp m k * 10 ^ k ≤ 2 * m + 10 ^ k ∧ 2 * m < (2 * roundHalfUp m k + 1) * 10 ^ k := by
    unfold roundHalfUp
    generalize m / 10 ^ k = q at hsplit ⊢
    generalize m % 10 ^ k = r at hsplit hrest ⊢
    generalize 10 ^ k = d at hpow hsplit hrest ⊢
    subst hsplit
    have hexpand (x : ℕ) : 2 * x * d = 2 * (d * x) := by rw [mul_assoc, mul_comm x d]
    split
    · rw [add_mul, hexpand, mul_add d q 1]
      omega
    · rw [add_mul, hexpand]
      omega
  have hpos : (0 : ℚ) < (10 ^ k : ℕ) := by exact_mod_cast hpow
  constructor
  · rw [← mul_div_assoc, div_add_one hpos.ne', le_div_iff₀ hpos]
    exact_mod_cast hbounds.1
  · rw [← mul_div_assoc, div_lt_iff₀ hpos]
    exact_mod_cast hbounds.2

theorem half_scaled (hj : 0 < j) (m : ℕ) :
    ((2 * m + 1) * 10 ^ j : ℚ) = 2 * ((2 * m + 1) * (5 * 10 ^ (j - 1)) : ℕ) := by
  obtain ⟨i, rfl⟩ : ∃ i, j = i + 1 := ⟨j - 1, by omega⟩
  rw [Nat.add_sub_cancel, pow_succ]
  push_cast
  ring

theorem half_parity (hj : 0 < j) (m : ℕ) : (2 * m + 1) * (5 * 10 ^ (j - 1)) % 2 = 0 ↔ 1 < j := by
  obtain ⟨i, rfl⟩ : ∃ i, j = i + 1 := ⟨j - 1, by omega⟩
  rw [Nat.add_sub_cancel]
  cases i with
  | zero =>
      rw [pow_zero]
      omega
  | succ i =>
      have heven : 2 ∣ (2 * m + 1) * (5 * 10 ^ (i + 1)) := by
        rw [pow_succ]
        exact ((Dvd.intro_left 5 rfl : 2 ∣ 10).mul_left _ |>.mul_left _).mul_left _
      exact iff_of_true (Nat.mod_eq_zero_of_dvd heven) (by omega)

theorem same_digits {i : ℕ} (hi : 10 ^ 27 ≤ x * 10 ^ i) (hj : x * 10 ^ j < 10 ^ 28) : j ≤ i := by
  by_contra hlt
  obtain ⟨d, rfl⟩ : ∃ d, j = i + 1 + d := ⟨j - (i + 1), by omega⟩
  have hone : (1 : ℚ) ≤ 10 ^ d := one_le_pow₀ (by norm_num)
  have hten : x * 10 ^ (i + 1 + d) = x * 10 ^ i * 10 * 10 ^ d := by ring
  rw [hten] at hj
  have hle : x * 10 ^ i * 10 ≤ x * 10 ^ i * 10 * 10 ^ d := le_mul_of_one_le_right (by linarith) hone
  linarith

theorem halfUp_twice (hj : 0 < j) (hleast : 10 ^ 27 ≤ x * 10 ^ j) (hmost : x * 10 ^ j < 10 ^ 28)
    (h : HalfEven (x * 10 ^ j) n) (hN : HalfUp (n / 10 ^ j) N) : HalfUp x N ↔ ¬ Blurred x := by
  have hpow : (0 : ℚ) < 10 ^ j := by positivity
  have hlow : (2 * N : ℚ) * 10 ^ j ≤ 2 * n + 10 ^ j := by
    have hlow := hN.low
    rwa [← mul_div_assoc, div_add_one hpow.ne', le_div_iff₀ hpow] at hlow
  have hhigh : (2 * n : ℚ) < (2 * N + 1) * 10 ^ j := by
    have hhigh := hN.high
    rwa [← mul_div_assoc, div_lt_iff₀ hpow] at hhigh
  constructor
  · rintro hup (⟨hlarge, -⟩ | ⟨i, m, hi, hleast', hmost', hless, hnear⟩)
    · have hdigits := same_digits (i := 0) (by rwa [pow_zero, mul_one]) hmost
      omega
    · obtain rfl : i = j := le_antisymm (same_digits hleast hmost') (same_digits hleast' hmost)
      have hhalf := half_scaled hi m
      have hparity := half_parity hi m
      generalize (2 * m + 1) * (5 * 10 ^ (i - 1)) = P at *
      -- the half is no more than the digits that are kept
      have hreached : P ≤ n := by
        have hone : (P : ℚ) ≤ n + 1 := by
          have hle : (2 * m + 1 - 2 * x) * 10 ^ i ≤ 1 := by rcases hnear with h | h <;> linarith
          linarith [h.low]
        have hone' : P ≤ n + 1 := by exact_mod_cast hone
        by_contra hlt
        obtain rfl : P = n + 1 := by omega
        push_cast at hhalf
        rcases hnear with hnear | ⟨hnear, hi'⟩
        · linarith [h.low]
        · have heven := h.even (.inl (by linarith))
          have := hparity.2 hi'
          omega
      have hreached' : (P : ℚ) ≤ n := by exact_mod_cast hreached
      have hpast : ((2 * m + 1 : ℕ) : ℚ) < (2 * N + 1 : ℕ) := by
        apply lt_of_mul_lt_mul_right _ hpow.le
        push_cast
        linarith
      have hnext : ((m + 1 : ℕ) : ℚ) ≤ N := by
        have : 2 * m + 1 < 2 * N + 1 := by exact_mod_cast hpast
        exact_mod_cast (by omega : m + 1 ≤ N)
      push_cast at hnext
      linarith [hup.low]
  · intro hclear
    constructor
    · by_contra hlt
      rw [not_le] at hlt
      have hx : 0 < x := pos_of_mul_pos_left (lt_of_lt_of_le (by norm_num) hleast) hpow.le
      obtain ⟨m, rfl⟩ : ∃ m, N = m + 1 := by
        refine ⟨N - 1, ?_⟩
        rcases Nat.eq_zero_or_pos N with rfl | hpos
        · push_cast at hlt
          linarith
        · omega
      have hhalf := half_scaled hj m
      have hparity := half_parity hj m
      push_cast at hlow hlt
      refine hclear (.inr ⟨j, m, hj, hleast, hmost, by linarith, ?_⟩)
      generalize (2 * m + 1) * (5 * 10 ^ (j - 1)) = P at *
      rcases (show (2 * m + 1 - 2 * x) * 10 ^ j ≤ 1 by linarith [h.high]).lt_or_eq with hless | heq
      · exact .inl hless
      · refine .inr ⟨heq, hparity.1 ?_⟩
        have hsame : (n : ℚ) = P := by
          have hle : (n : ℚ) ≤ P := by linarith [h.high]
          have hge : (P : ℚ) ≤ n := by linarith
          exact le_antisymm hle hge
        obtain rfl : n = P := by exact_mod_cast hsame
        exact h.even (.inr (by linarith))
    · by_contra hge
      rw [not_lt] at hge
      have hhalf := half_scaled hj N
      generalize (2 * N + 1) * (5 * 10 ^ (j - 1)) = P at *
      have hreached : P ≤ n := by
        apply h.ge
        have hscaled := mul_le_mul_of_nonneg_right hge hpow.le
        linarith
      have hreached' : (P : ℚ) ≤ n := by exact_mod_cast hreached
      linarith

theorem halfUp_once (hleast : 10 ^ 27 ≤ x) (h : HalfEven x n) : HalfUp x n ↔ ¬ Blurred x := by
  constructor
  · rintro hup (⟨-, m, htie, hm⟩ | ⟨j, m, hj, -, hmost, -⟩)
    · have hlt : (2 * m + 1 : ℚ) < 2 * n + 1 := by linarith [hup.high]
      have hle : (2 * n : ℚ) ≤ 2 * m + 2 := by linarith [hup.low]
      have hlt' : 2 * m + 1 < 2 * n + 1 := by exact_mod_cast hlt
      have hle' : 2 * n ≤ 2 * m + 2 := by exact_mod_cast hle
      obtain rfl : n = m + 1 := by omega
      have heven := h.even (.inr (by push_cast; linarith))
      omega
    · have hdigits := same_digits (i := 0) (by rwa [pow_zero, mul_one]) hmost
      omega
  · intro hclear
    refine ⟨h.high, lt_of_le_of_ne h.low fun htie => hclear (.inl ⟨hleast, n, htie, h.even (.inl htie)⟩)⟩

theorem clear_zero (h : 10 * x < 1) : ¬ Blurred x := by
  rintro (⟨hlarge, -⟩ | ⟨j, m, -, hleast, -, -, hnear⟩)
  · linarith
  · have hfar : 8 * x ≤ 2 * m + 1 - 2 * x := by
      have hm : (0 : ℚ) ≤ m := Nat.cast_nonneg m
      linarith
    have hscaled := mul_le_mul_of_nonneg_right hfar (show (0 : ℚ) ≤ 10 ^ j by positivity)
    rcases hnear with hnear | ⟨hnear, -⟩ <;> linarith

theorem halfUp_rounded (h : Rounded x y k n) (hN : HalfUp y N) :
    (N < 10 ^ 28 ↔ 2 * x + 1 < 2 * 10 ^ 28) ∧ (2 * x + 1 < 2 * 10 ^ 28 → (HalfUp x N ↔ ¬ Blurred x)) := by
  obtain ⟨hdigits, hdigits'⟩ := h.digits
  rcases lt_trichotomy k 0 with hk | rfl | hk
  · obtain ⟨j, hj⟩ : ∃ j : ℕ, k = -j := ⟨(-k).toNat, by omega⟩
    subst hj
    have hleast := h.least
    have hmost := h.most
    have hnearest := h.nearest
    have hvalue := h.value
    rw [zpow_neg, zpow_natCast, ← div_eq_mul_inv] at hleast hmost hvalue
    rw [zpow_neg, zpow_natCast, div_inv_eq_mul] at hnearest
    rw [div_le_iff₀ (by positivity)] at hleast
    rw [lt_div_iff₀ (by positivity)] at hmost
    have hten : (10 : ℚ) ≤ 10 ^ j := le_self_pow₀ (by norm_num) (by omega)
    have hx : x < 10 ^ 27 := by
      by_contra hge
      have hdigit := same_digits (i := 0) (by rw [pow_zero, mul_one]; exact not_lt.1 hge) hmost
      omega
    have hy : y ≤ 10 ^ 27 := by
      have hn : (n : ℚ) ≤ 10 ^ 28 := by exact_mod_cast hdigits'
      rw [hvalue, div_le_iff₀ (by positivity)]
      linarith
    refine ⟨iff_of_true ?_ (by linarith), fun _ => halfUp_twice (by omega) hleast hmost hnearest (hvalue ▸ hN)⟩
    have hlt : (N : ℚ) < (10 ^ 28 : ℕ) := by
      push_cast
      linarith [hN.low]
    exact_mod_cast hlt
  · have hleast := h.least
    have hnearest := h.nearest
    have hvalue := h.value
    rw [zpow_zero, mul_one] at hleast hvalue
    rw [zpow_zero, div_one] at hnearest
    obtain rfl : N = n := hN.unique (hvalue ▸ halfUp_natCast n)
    refine ⟨⟨fun hlt => ?_, fun hlt => ?_⟩, fun _ => halfUp_once hleast hnearest⟩
    · rcases (show N + 2 ≤ 10 ^ 28 ∨ N + 1 = 10 ^ 28 by omega) with hle | hlast
      · have hle' : (N : ℚ) + 2 ≤ 10 ^ 28 := by exact_mod_cast hle
        linarith [hnearest.low]
      · have hlast' : (N : ℚ) + 1 = 10 ^ 28 := by exact_mod_cast hlast
        rcases hnearest.low.lt_or_eq with hlow | htie
        · linarith
        · have heven := hnearest.even (.inl htie)
          omega
    · have hlt' : (N : ℚ) < (10 ^ 28 : ℕ) := by
        push_cast
        linarith [hnearest.high]
      exact_mod_cast hlt'
  · have hten : (10 : ℚ) ≤ 10 ^ k := by
      calc (10 : ℚ) = 10 ^ (1 : ℤ) := (zpow_one 10).symm
        _ ≤ 10 ^ k := zpow_le_zpow_right₀ (by norm_num) (by omega)
    have hx : 10 ^ 28 ≤ x := by linarith [h.least]
    have hy : 10 ^ 28 ≤ y := by
      have hn : (10 ^ 27 : ℚ) ≤ n := by exact_mod_cast hdigits
      rw [h.value]
      calc (10 : ℚ) ^ 28 = 10 ^ 27 * 10 := by norm_num
        _ ≤ (n : ℚ) * 10 ^ k := mul_le_mul hn hten (by norm_num) (by linarith)
    have hlarge : ((10 ^ 28 : ℕ) : ℚ) < N + 1 := by
      push_cast
      linarith [hN.high]
    have hlarge' : 10 ^ 28 < N + 1 := by exact_mod_cast hlarge
    refine ⟨iff_of_false (by omega) (by linarith), fun hlt => ?_⟩
    linarith

end Halves

section Results

variable {s : Bool} {c m : ℕ} {e l : ℤ} {x : ℚ}

def units (m : ℕ) (l : ℤ) : ℕ := if 0 ≤ l then m * 10 ^ l.toNat else roundHalfUp m (-l).toNat

theorem halfUp_units (m : ℕ) (l : ℤ) : HalfUp (m * 10 ^ l) (units m l) := by
  unfold units
  split
  · rename_i hl
    obtain ⟨j, rfl⟩ := Int.eq_ofNat_of_zero_le hl
    have hwhole := halfUp_natCast (m * 10 ^ j)
    rwa [Nat.cast_mul, Nat.cast_pow, Nat.cast_ofNat] at hwhole
  · rename_i hl
    obtain ⟨j, hj⟩ : ∃ j : ℕ, l = -j := ⟨(-l).toNat, by omega⟩
    have hround := halfUp_roundHalfUp m j
    rw [hj, zpow_neg, zpow_natCast, ← div_eq_mul_inv, neg_neg, Int.toNat_natCast]
    rwa [Nat.cast_pow, Nat.cast_ofNat] at hround

theorem quantizeUnit_eq (s : Bool) (m : ℕ) (l : ℤ) :
    quantizeUnit (.finite s m l) = if 10 ^ 28 ≤ units m l then .error .invalidOperation else .ok (signed s (units m l)) := by
  have hdigits : precision < digitCount (units m l) ↔ 10 ^ 28 ≤ units m l :=
    not_le.symm.trans ((not_congr (digitCount_le (by decide))).trans not_lt)
  simp only [← hdigits]
  rfl

theorem value_small (h : l + digitCount m ≤ etiny + precision) : 10 * ((m : ℚ) * 10 ^ l) < 1 := by
  have hetiny : etiny = -1000026 := rfl
  have hprecision : precision = 28 := rfl
  have hlt : (m : ℚ) * 10 ^ l < 10 ^ (-1 : ℤ) :=
    lt_of_lt_of_le (value_lt_pow m l) (zpow_le_zpow_right₀ (by norm_num) (by omega))
  norm_num at hlt
  linarith

theorem finalize_small (hc : 0 < c) (he : e + digitCount c < etiny + precision) :
    ∃ m l, finalize s c e = .ok (.finite s m l) ∧ 10 * ((m : ℚ) * 10 ^ l) < 1 := by
  have hetiny : etiny = -1000026 := rfl
  have hemax : emax = 999999 := rfl
  have hprecision : precision = 28 := rfl
  have hdrop : max ((digitCount c : ℤ) - precision) (etiny - e) = etiny - e := max_eq_right (by omega)
  unfold finalize
  rw [if_neg hc.ne']
  simp only [hdrop]
  by_cases hbelow : 0 < etiny - e
  · obtain ⟨j, hj⟩ : ∃ j : ℕ, etiny - e = j := ⟨(etiny - e).toNat, by omega⟩
    have hmost : c < 10 ^ digitCount c := (digitCount_le Nat.length_toDigits_pos).1 le_rfl
    have hrounded : roundHalfEven c j ≤ 10 ^ 27 := by
      apply (halfEven_pow c j).le
      rw [div_le_iff₀ (by positivity)]
      have hle : c ≤ 10 ^ 27 * 10 ^ j := by
        rw [← pow_add]
        exact le_trans hmost.le (Nat.pow_le_pow_right (by decide) (by omega))
      exact_mod_cast hle
    have hdigits : digitCount (roundHalfEven c j) ≤ precision :=
      (digitCount_le (by decide)).2 (lt_of_le_of_lt hrounded (by decide))
    have hshift : e + (j : ℤ) = etiny := by omega
    have hcut : (0 : ℤ) < j := by omega
    rw [hj]
    simp only [if_pos hcut, Int.toNat_natCast, if_neg (not_lt.2 hdigits), hshift]
    refine ⟨_, _, if_neg (by omega), value_small (by omega)⟩
  · have hdigits : ¬ precision < digitCount c := by omega
    simp only [if_neg hbelow, if_neg hdigits]
    exact ⟨c, e, if_neg (by omega), value_small he.le⟩

theorem mul_micros (hc : 0 < c) (hx : x = c * 10 ^ (e + 6)) :
    (∃ m l, mul (.finite s c e) (.finite false MICROS.toNat 0) = .ok (.finite s m l) ∧
      ((∃ k n, Rounded x (m * 10 ^ l) k n) ∨ 10 * x < 1 ∧ 10 * ((m : ℚ) * 10 ^ l) < 1)) ∨
    mul (.finite s c e) (.finite false MICROS.toNat 0) = .error .overflow ∧ 10 ^ 28 ≤ x := by
  have hmul : mul (.finite s c e) (.finite false MICROS.toNat 0) = finalize s (c * 1000000) e := by
    rw [mul, Bool.bne_false, add_zero]
    rfl
  have hscaled : ((c * 1000000 : ℕ) : ℚ) * 10 ^ e = x := by
    rw [hx, zpow_add₀ (by norm_num)]
    push_cast
    ring
  rw [hmul]
  have hpos : 0 < c * 1000000 := by omega
  generalize c * 1000000 = d at *
  by_cases hlarge : etiny + precision ≤ e + digitCount d
  · obtain ⟨m, l, k, n, hresult | ⟨hover, hrange⟩, hm, hrounded⟩ := finalize_rounded (s := s) hpos hlarge
    · exact .inl ⟨m, l, hresult, .inl ⟨k, n, hscaled ▸ hrounded⟩⟩
    · refine .inr ⟨hover, ?_⟩
      rw [hscaled] at hrounded
      by_contra hless
      have hle := hrounded.le (l := 0) (z := 10 ^ 28) le_rfl (by
        push_cast
        linarith)
      have hdigits := digits_le (j := 29) hm (lt_of_le_of_lt hle (by norm_num))
      have hemax : emax = 999999 := rfl
      omega
  · obtain ⟨m, l, hresult, hsmall⟩ := finalize_small (s := s) hpos (not_le.1 hlarge)
    refine .inl ⟨m, l, hresult, .inr ⟨?_, hsmall⟩⟩
    rw [← hscaled]
    exact value_small (not_le.1 hlarge).le

theorem quantize_micros (hx : x = c * 10 ^ (e + 6)) :
    if 2 * x + 1 < 2 * 10 ^ 28
    then ∃ n, (mul (.finite s c e) (.finite false MICROS.toNat 0) >>= quantizeUnit) = .ok (signed s n) ∧
      (HalfUp x n ↔ ¬ Blurred x)
    else ∃ signal, (mul (.finite s c e) (.finite false MICROS.toNat 0) >>= quantizeUnit) = .error signal := by
  have hsmall {m : ℕ} {l : ℤ} (hless : 10 * ((m : ℚ) * 10 ^ l) < 1) : units m l = 0 :=
    (halfUp_units m l).unique (halfUp_zero (by positivity) hless)
  have hx0 : 0 ≤ x := by
    rw [hx]
    positivity
  have hzero (hless : 10 * x < 1) {m : ℕ} {l : ℤ} (hresult : mul (.finite s c e) (.finite false MICROS.toNat 0) =
      .ok (.finite s m l)) (hnone : 10 * ((m : ℚ) * 10 ^ l) < 1) :
      ∃ n, (mul (.finite s c e) (.finite false MICROS.toNat 0) >>= quantizeUnit) = .ok (signed s n) ∧
        (HalfUp x n ↔ ¬ Blurred x) := by
    refine ⟨0, ?_, iff_of_true (halfUp_zero hx0 hless) (clear_zero hless)⟩
    rw [hresult]
    refine (quantizeUnit_eq s m l).trans ?_
    rw [hsmall hnone, if_neg (by decide)]
  rcases Nat.eq_zero_or_pos c with rfl | hc
  · have hmul : mul (.finite s 0 e) (.finite false MICROS.toNat 0) = .ok (.finite s 0 (max etiny (min e emax))) := by
      rw [mul, Bool.bne_false, add_zero, Nat.zero_mul, finalize, if_pos rfl]
    rw [Nat.cast_zero, zero_mul] at hx
    rw [if_pos (by rw [hx]; norm_num)]
    exact hzero (by rw [hx]; norm_num) hmul (by norm_num)
  · rcases mul_micros (s := s) hc hx with ⟨m, l, hresult, ⟨k, n, hrounded⟩ | ⟨hless, hnone⟩⟩ | ⟨hover, hlarge⟩
    · obtain ⟨hfits, hclear⟩ := halfUp_rounded hrounded (halfUp_units m l)
      rw [hresult]
      split
      · rename_i hx
        refine ⟨units m l, (quantizeUnit_eq s m l).trans ?_, hclear hx⟩
        exact if_neg (not_le.2 (hfits.2 hx))
      · rename_i hx
        refine ⟨.invalidOperation, (quantizeUnit_eq s m l).trans ?_⟩
        exact if_pos (not_lt.1 (mt hfits.1 hx))
    · rw [if_pos (by linarith)]
      exact hzero hless hresult hnone
    · rw [if_neg (by linarith), hover]
      exact ⟨.overflow, rfl⟩

theorem read_finite {α : Type} (k : Bool → ℕ → ℤ → α) (z : α) (s : Bool) (c : ℕ) (e : ℤ) (o : Option Decimal) :
    o = some (.finite s c e) →
      (match o with
        | some (.finite s c e) => k s c e
        | _ => z) = k s c e := by
  rintro rfl
  rfl

theorem read_other {α : Type} (k : Bool → ℕ → ℤ → α) (z : α) (o : Option Decimal) :
    (∀ s c e, o ≠ some (.finite s c e)) →
      (match o with
        | some (.finite s c e) => k s c e
        | _ => z) = z := by
  intro h
  split
  · exact absurd rfl (h _ _ _)
  · rfl

theorem parse_kept {a : Json} (ha : denoted a.text = some (s, c, e)) (hkept : Kept c e) (hx : x = c * 10 ^ (e + 6)) :
    if 2 * x + 1 < 2 * 10 ^ 28
    then ∃ n, Money.parse a = .ok ⟨signed s n⟩ ∧ (HalfUp x n ↔ ¬ Blurred x)
    else ∃ signal, Money.parse a = .error (.decimal signal) := by
  have hparse := (parse_finite a.text s c e).2 ⟨ha, hkept⟩
  have hresult := quantize_micros (s := s) hx
  by_cases hsize : 2 * x + 1 < 2 * 10 ^ 28
  · rw [if_pos hsize] at hresult ⊢
    obtain ⟨n, hok, hclear⟩ := hresult
    refine ⟨n, (read_finite _ _ _ _ _ _ hparse).trans ?_, hclear⟩
    rw [hok]
  · rw [if_neg hsize] at hresult ⊢
    obtain ⟨signal, hraised⟩ := hresult
    refine ⟨signal, (read_finite _ _ _ _ _ _ hparse).trans ?_⟩
    rw [hraised]

theorem parse_refused {a : Json} (ha : ∀ s c e, denoted a.text = some (s, c, e) → ¬ Kept c e) :
    ∃ message, Money.parse a = .error (.billing message) := by
  refine ⟨_, read_other _ _ _ fun s c e hparse => ?_⟩
  obtain ⟨hdenoted, hkept⟩ := (parse_finite _ _ _ _).1 hparse
  exact ha _ _ _ hdenoted hkept

end Results

/-- The whole number nearest to a number, and the one farther from zero where
two are as near. -/
structure Nearest (q : ℚ) (m : ℤ) : Prop where
  near : 2 * |q - m| ≤ 1
  away : 2 * |q - m| = 1 → |q| < |(m : ℚ)|

theorem nearest_iff {x : ℚ} (hx : 0 ≤ x) (s : Bool) (n : ℕ) :
    Nearest (if s then -x else x) (signed s n) ↔ HalfUp x n := by
  have hdistance : |(if s then -x else x) - (signed s n : ℤ)| = |x - n| := by
    cases s with
    | false => simp [signed]
    | true =>
        rw [if_pos rfl, signed, if_pos rfl, ← abs_neg]
        push_cast
        congr 1
        ring
  have hsize : |if s then -x else x| = x := by
    cases s <;> simp [hx]
  have hsize' : |((signed s n : ℤ) : ℚ)| = n := by
    cases s <;> simp [signed]
  constructor
  · rintro ⟨hnear, haway⟩
    rw [hdistance] at hnear haway
    rw [hsize, hsize'] at haway
    obtain ⟨hlow, hhigh⟩ := abs_le.1 (show |x - n| ≤ 1 / 2 by linarith)
    refine ⟨by linarith, lt_of_le_of_ne (by linarith) fun htie => ?_⟩
    have hhalf : x - n = 1 / 2 := by linarith
    have hless := haway (by rw [hhalf, abs_of_pos (by norm_num)]; norm_num)
    linarith
  · rintro ⟨hlow, hhigh⟩
    constructor
    · rw [hdistance]
      have := abs_le.2 (show -(1 / 2) ≤ x - n ∧ x - n ≤ 1 / 2 by constructor <;> linarith)
      linarith
    · rw [hdistance, hsize, hsize']
      intro htie
      rcases abs_choice (x - n) with habs | habs <;> linarith

/-- A text that denotes a number is worth that number of dollars to the nearest
micro, and any other text is no amount of money. -/
def Exact (t : String) : Prop :=
  match denoted t with
  | some (s, c, e) => ∃ m, Money.parse (.str t) = .ok ⟨m⟩ ∧ Nearest (value (.finite s c e) * 10 ^ 6) m
  | none => ∃ message, Money.parse (.str t) = .error (.billing message)

/-- A number in the range of a decimal whose micros 28 digits hold, and do not
blur. -/
def Harmless (c : ℕ) (e : ℤ) : Prop :=
  Kept c e ∧ 2 * ((c : ℚ) * 10 ^ (e + 6)) + 1 < 2 * 10 ^ 28 ∧ ¬ Blurred (c * 10 ^ (e + 6))

/-- Money is rounded once exactly when what is read is harmless. -/
theorem exact_iff (t : String) : Exact t ↔ ∀ s c e, denoted t = some (s, c, e) → Harmless c e := by
  have htext : (Json.str t).text = t := rfl
  unfold Exact
  cases hdenoted : denoted t with
  | none =>
      refine iff_of_true ?_ (by simp)
      exact parse_refused (by simp [htext, hdenoted])
  | some number =>
      obtain ⟨s, c, e⟩ := number
      have hx : 0 ≤ (c : ℚ) * 10 ^ (e + 6) := by positivity
      have hvalue : value (.finite s c e) * 10 ^ 6 = if s then -((c : ℚ) * 10 ^ (e + 6)) else c * 10 ^ (e + 6) := by
        have hshift : (10 : ℚ) ^ (e + 6) = 10 ^ e * 10 ^ 6 := by
          rw [zpow_add₀ (by norm_num)]
          norm_num
        cases s <;> simp [value, signed, hshift, mul_assoc]
      have hgoal : (∀ s' c' e', some (s, c, e) = some (s', c', e') → Harmless c' e') ↔ Harmless c e := by
        constructor
        · intro h
          exact h s c e rfl
        · rintro h _ _ _ ⟨⟩
          exact h
      rw [hgoal]
      dsimp only
      rw [hvalue]
      by_cases hkept : Kept c e
      · have hresult := parse_kept (a := .str t) hdenoted hkept rfl
        split at hresult
        · rename_i hsize
          obtain ⟨n, hok, hclear⟩ := hresult
          rw [hok]
          constructor
          · rintro ⟨m, hm, hnear⟩
            cases hm
            exact ⟨hkept, hsize, hclear.1 ((nearest_iff hx s n).1 hnear)⟩
          · rintro ⟨-, -, hblur⟩
            exact ⟨_, rfl, (nearest_iff hx s n).2 (hclear.2 hblur)⟩
        · rename_i hsize
          obtain ⟨signal, hraised⟩ := hresult
          rw [hraised]
          exact iff_of_false (by simp) fun h => hsize h.2.1
      · obtain ⟨message, hrefused⟩ := parse_refused (a := .str t) (by
          intro s' c' e' h'
          rw [htext, hdenoted] at h'
          cases h'
          exact hkept)
        rw [hrefused]
        exact iff_of_false (by simp) fun h => hkept h.1

/-- Less than half a micro is kept as one, and a number beyond the precision
raises what is not a billing error. -/
theorem inexact : ¬ Exact "0.00000049999999999999999999999999999999" ∧ ¬ Exact "1e30" := by
  have hless : denoted "0.00000049999999999999999999999999999999" =
      some (false, 49999999999999999999999999999999, -38) := by decide +kernel
  have hkept : Money.parse (.str "0.00000049999999999999999999999999999999") = .ok ⟨1⟩ := by decide +kernel
  have hlarge : denoted "1e30" = some (false, 1, 30) := by decide +kernel
  have hraised : Money.parse (.str "1e30") = .error (.decimal .invalidOperation) := by decide +kernel
  unfold Exact
  rw [hless, hkept, hlarge, hraised]
  constructor
  · rintro ⟨m, hm, hnear, -⟩
    cases hm
    norm_num [value, signed, abs_of_neg] at hnear
  · rintro ⟨m, hm, -⟩
    cases hm

end CodeZard.Micros
