import CodeZard.Exchanges
import CodeZard.Micros
import CodeZard.Segments

namespace CodeZard.Prints

open Amounts Decimals Exchanges Magnitudes Micros Numerals Roundings Segments StreamScans Stroops Values

def rescale (places coeff : ℕ) (exp : ℤ) : ℕ :=
  if -(places : ℤ) ≤ exp then coeff * 10 ^ (exp + places).toNat else roundHalfEven coeff (-places - exp).toNat

def split (places n : ℕ) : List Char × List Char :=
  let digits := Nat.toDigits 10 n
  if digits.length ≤ places then (['0'], zeros (places - digits.length) ++ digits)
  else (digits.take (digits.length - places), digits.drop (digits.length - places))

/-- The format `f` with so many places. -/
def fixed (places : ℕ) : Decimal → List Char
  | .finite negative coeff exp =>
      let (intpart, fracpart) := split places (rescale places coeff exp)
      (if negative then ['-'] else []) ++ intpart ++ pointed fracpart
  | .infinity negative => (if negative then ['-'] else []) ++ "Infinity".toList
  | .nan signaling => (if signaling then ['s'] else []) ++ "NaN".toList

def rstrip (c : Char) (cs : List Char) : List Char := cs.rdropWhile (· = c)

/-- An amount of money as it is printed. -/
def Money.str (m : Money) : Except Signal String := (decimal m).map fun amount =>
  let text := rstrip '.' (rstrip '0' (fixed 6 amount))
  if text = [] then "0" else String.ofList text

example : Money.str ⟨19000000⟩ = .ok "19" := by decide +kernel

/-- Nothing is printed that says nothing. -/
structure Terse (t : String) : Prop where
  zero : '.' ∈ t.toList → t.toList.getLast? ≠ some '0'
  point : t.toList.getLast? ≠ some '.'
  exponent : 'e' ∉ t.toList ∧ 'E' ∉ t.toList

section Formats

variable {c k n places : ℕ} {e : ℤ} {s : Bool}

theorem roundHalfEven_exact (n k : ℕ) : roundHalfEven (n * 10 ^ k) k = n := by
  have hpos : 0 < 10 ^ k := Nat.pow_pos (by decide)
  rw [roundHalfEven, Nat.mul_mod_left, Nat.mul_div_cancel n hpos]
  simp [hpos.ne]

theorem rescale_exact (h : (c : ℚ) * 10 ^ e = n * 10 ^ (-(places : ℤ))) : rescale places c e = n := by
  have hten (k : ℤ) : (10 : ℚ) ^ k ≠ 0 := (ten_zpow_pos k).ne'
  unfold rescale
  split
  · rename_i hle
    have hexact : ((c * 10 ^ (e + places).toNat : ℕ) : ℚ) = n := by
      rw [← mul_left_inj' (hten (-places)), ← h]
      have hscaled := scaled_eq c hle
      rw [hscaled, sub_neg_eq_add]
    exact_mod_cast hexact
  · rename_i hlt
    have hexact : (c : ℚ) = (n * 10 ^ (-places - e).toNat : ℕ) := by
      rw [← mul_left_inj' (hten e), h]
      exact scaled_eq n (not_le.1 hlt).le
    have hc : c = n * 10 ^ (-places - e).toNat := by exact_mod_cast hexact
    rw [hc]
    exact roundHalfEven_exact _ _

theorem spells_split (places n : ℕ) : Spells (split places n).1 (split places n).2 n ∧
    (split places n).2.length = places := by
  have hlength : 0 < (Nat.toDigits 10 n).length := Nat.length_toDigits_pos
  unfold split
  dsimp only
  split
  · refine ⟨spells_zero _ n, ?_⟩
    simp only [zeros, List.length_append, List.length_replicate]
    omega
  · refine ⟨spells_take (by omega) n, ?_⟩
    rw [List.length_drop]
    omega

theorem rstrip_zeros (cs : List Char) : ∃ k, cs = rstrip '0' cs ++ List.replicate k '0' := by
  induction cs using List.reverseRecOn with
  | nil => exact ⟨0, rfl⟩
  | append_singleton cs c ih =>
      obtain ⟨k, ih⟩ := ih
      rw [rstrip, List.rdropWhile_concat]
      split
      · rename_i hc
        obtain rfl := of_decide_eq_true hc
        refine ⟨k + 1, ?_⟩
        rw [List.replicate_succ', ← List.append_assoc, ← rstrip, ← ih]
      · exact ⟨0, (List.append_nil _).symm⟩

theorem spells_rstrip {whole part : List Char} (h : Spells whole part n) :
    ∃ m k, Spells whole (rstrip '0' part) m ∧ n = m * 10 ^ k ∧ part.length = (rstrip '0' part).length + k := by
  obtain ⟨k, hk⟩ := rstrip_zeros part
  refine ⟨Nat.ofDigitChars 10 (whole ++ rstrip '0' part) 0, k, ⟨h.ahead, ?_, h.nonempty, rfl⟩, ?_, ?_⟩
  · intro c hc
    exact h.behind c ((List.rdropWhile_prefix _ _).subset hc)
  · rw [← h.value, hk, ← List.append_assoc, Nat.ofDigitChars_append, Nat.ofDigitChars_replicate_zero, ← hk,
      Nat.mul_comm]
  · conv_lhs => rw [hk]
    rw [List.length_append, List.length_replicate]

theorem digit_ne_of_mem {cs : List Char} (h : Digits cs) {c d : Char} (hd : d.isDigit = false) (hc : c ∈ cs) : c ≠ d := by
  rintro rfl
  have hdigit := h c hc
  rw [hd] at hdigit
  cases hdigit

theorem rstrip_pointed {xs part : List Char} (hxs : xs ≠ []) (hlast : xs.getLast hxs ≠ '.') (hpart : Digits part)
    (hne : part ≠ []) : rstrip '.' (rstrip '0' (xs ++ pointed part)) = xs ++ pointed (rstrip '0' part) := by
  have hzeros : rstrip '0' (xs ++ pointed part) = xs ++ '.' :: rstrip '0' part := by
    have hsplit (ys : List Char) : xs ++ '.' :: ys = (xs ++ ['.']) ++ ys := by simp
    have hcons : xs ++ ['.'] ≠ [] := by simp
    have hpoint : decide ((xs ++ ['.']).getLast hcons = '0') = false := by simp
    rw [pointed, if_neg hne, hsplit part, hsplit (rstrip '0' part)]
    exact rdropWhile_append (fun c => decide (c = '0')) hcons hpoint part
  rw [hzeros]
  by_cases hend : rstrip '0' part = []
  · rw [hend, pointed, if_pos rfl, List.append_nil, rstrip, List.rdropWhile_concat_pos _ _ _ (by simp),
      List.rdropWhile_eq_self_iff]
    intro _
    exact fun h => hlast (of_decide_eq_true h)
  · rw [pointed, if_neg hend, rstrip, List.rdropWhile_eq_self_iff]
    intro hl h
    have hmem : (rstrip '0' part).getLast hend ∈ part := (List.rdropWhile_prefix _ _).subset (List.getLast_mem hend)
    have hpoint : (xs ++ '.' :: rstrip '0' part).getLast hl = (rstrip '0' part).getLast hend := by
      rw [List.getLast_append_of_ne_nil _ (List.cons_ne_nil _ _), List.getLast_cons hend]
    rw [hpoint] at h
    exact digit_ne_of_mem hpart (by decide) hmem (of_decide_eq_true h)

end Formats

section Money

variable {p c k n : ℕ} {e : ℤ} {s : Bool} {whole part : List Char}

def written (s : Bool) (whole part : List Char) : List Char := (if s then ['-'] else []) ++ whole ++ pointed part

theorem written_eq_numeral (s : Bool) (whole part : List Char) :
    written s whole part = (if s then ['-'] else []) ++ numeral whole part (-(part.length : ℤ)) := by
  rw [written, numeral, neg_add_cancel, exponentOf, if_pos rfl, List.append_nil, List.append_assoc]

theorem fixed_stripped (h : rescale 6 c e = p) : ∃ whole part m k, Spells whole part m ∧ p = m * 10 ^ k ∧
    part.length + k = 6 ∧ part = rstrip '0' part ∧
      rstrip '.' (rstrip '0' (fixed 6 (.finite s c e))) = written s whole part := by
  obtain ⟨hspells, hlength⟩ := spells_split 6 p
  obtain ⟨m, k, hm, hp, hplaces⟩ := spells_rstrip hspells
  refine ⟨_, _, m, k, hm, hp, by rw [← hplaces, hlength], (List.rdropWhile_idempotent _ _).symm, ?_⟩
  have hne : (split 6 p).2 ≠ [] := List.ne_nil_of_length_pos (by rw [hlength]; decide)
  have hxs : (if s then ['-'] else []) ++ (split 6 p).1 ≠ [] := by simp [hspells.nonempty]
  have hlast : ((if s then ['-'] else []) ++ (split 6 p).1).getLast hxs ≠ '.' := by
    rw [List.getLast_append_of_ne_nil _ hspells.nonempty]
    exact digit_ne_of_mem hspells.ahead (by decide) (List.getLast_mem _)
  rw [fixed, h]
  exact rstrip_pointed hxs hlast hspells.behind hne

theorem terse_written (h : Spells whole part n) (hpart : part = rstrip '0' part) :
    Terse (String.ofList (written s whole part)) := by
  have hchars (d : Char) (hd : d.isDigit = false) (hminus : d ≠ '-') (hpoint : d ≠ '.') : d ∉ written s whole part := by
    intro hmem
    rw [written, List.mem_append, List.mem_append] at hmem
    rcases hmem with (hmem | hmem) | hmem
    · split at hmem
      · exact hminus (List.mem_singleton.1 hmem)
      · cases hmem
    · exact digit_ne_of_mem h.ahead hd hmem rfl
    · rw [pointed] at hmem
      split at hmem
      · cases hmem
      · rcases List.mem_cons.1 hmem with hmem | hmem
        · exact hpoint hmem
        · exact digit_ne_of_mem h.behind hd hmem rfl
  have hlast (hne : part ≠ []) : (written s whole part).getLast? = some (part.getLast hne) := by
    rw [written, pointed, if_neg hne, List.getLast?_append_of_ne_nil _ (List.cons_ne_nil _ _),
      List.getLast?_cons_of_ne_nil hne, List.getLast?_eq_some_getLast hne]
  have hwhole (hnil : part = []) : ∀ d ∈ (written s whole part).getLast?, d ∈ whole := by
    intro d hd
    rw [written, hnil, pointed, if_pos rfl, List.append_nil, List.getLast?_append_of_ne_nil _ h.nonempty] at hd
    exact List.mem_of_getLast? hd
  constructor
  · rw [String.toList_ofList]
    intro hmem
    by_cases hnil : part = []
    · rw [written, hnil, pointed, if_pos rfl, List.append_nil, List.mem_append] at hmem
      rcases hmem with hmem | hmem
      · cases s <;> simp at hmem
      · exact absurd rfl (digit_ne_of_mem h.ahead (by decide) hmem)
    · rw [hlast hnil]
      intro hzero
      have hstays := List.rdropWhile_eq_self_iff.1 hpart.symm hnil
      exact hstays (decide_eq_true (Option.some.inj hzero))
  · rw [String.toList_ofList]
    by_cases hnil : part = []
    · intro hpoint
      exact digit_ne_of_mem h.ahead (by decide) (hwhole hnil '.' hpoint) rfl
    · rw [hlast hnil]
      intro hpoint
      exact digit_ne_of_mem h.behind (by decide) (List.getLast_mem hnil) (Option.some.inj hpoint)
  · rw [String.toList_ofList]
    exact ⟨hchars 'e' (by decide) (by decide) (by decide), hchars 'E' (by decide) (by decide) (by decide)⟩

theorem roundHalfUp_exact (n k : ℕ) : roundHalfUp (n * 10 ^ k) k = n := by
  have hpos : 0 < 10 ^ k := Nat.pow_pos (by decide)
  rw [roundHalfUp, Nat.mul_mod_left, Nat.mul_div_cancel n hpos]
  simp

theorem quantizeUnit_places (hp : p = n * 10 ^ k) (hlen : part.length + k = 6) (hsize : p < 10 ^ precision) :
    quantizeUnit (.finite s (n * MICROS.toNat) (-(part.length : ℤ))) = .ok (signed s p) := by
  have hmicros : n * MICROS.toNat = p * 10 ^ part.length := by
    have hmillion : MICROS.toNat = 1000000 := rfl
    have hpow : 10 ^ k * 10 ^ part.length = 1000000 := by
      rw [← Nat.pow_add, Nat.add_comm, hlen]
    rw [hmillion, hp, Nat.mul_assoc, hpow]
  have hunits : (if 0 ≤ -(part.length : ℤ) then p * 10 ^ part.length * 10 ^ (-(part.length : ℤ)).toNat
      else roundHalfUp (p * 10 ^ part.length) (- -(part.length : ℤ)).toNat) = p := by
    split
    · have hzero : part.length = 0 := by omega
      rw [hzero]
      simp
    · rw [neg_neg, Int.toNat_natCast]
      exact roundHalfUp_exact p part.length
  have hdigits : ¬ precision < digitCount p := not_lt.2 ((digitCount_le (by decide)).2 hsize)
  rw [quantizeUnit, hmicros, hunits]
  exact if_neg hdigits

theorem parse_of_text {a : Json} {u : ℤ} (ha : parse a.text = some (.finite s c e))
    (hu : (mul (.finite s c e) (.finite false MICROS.toNat 0) >>= quantizeUnit) = .ok u) : Money.parse a = .ok ⟨u⟩ := by
  refine (read_finite _ _ _ _ _ _ ha).trans ?_
  rw [hu]

theorem parse_written (h : Spells whole part n) (hp : p = n * 10 ^ k) (hlen : part.length + k = 6) (hsize : p ≤ 2 ^ 63) :
    Money.parse (.str (String.ofList (written s whole part))) = .ok ⟨signed s p⟩ := by
  have hprecision : precision = 28 := rfl
  have hn : n ≤ p := by
    rw [hp]
    exact Nat.le_mul_of_pos_right n (Nat.pow_pos (by decide))
  have hdigits : digitCount n ≤ 28 := (digitCount_le (by decide)).2 (by omega)
  have hlow : minExponent ≤ -(part.length : ℤ) := by
    rw [minExponent]
    omega
  have hhigh : -(part.length : ℤ) + digitCount n - 1 ≤ maxExponent := by
    rw [maxExponent]
    omega
  have hparse := parse_numeral s h hlow hhigh
  rw [← written_eq_numeral] at hparse
  have hmul : mul (.finite s n (-(part.length : ℤ))) (.finite false MICROS.toNat 0) =
      .ok (.finite s (n * MICROS.toNat) (-(part.length : ℤ))) := by
    have hmicros : MICROS.toNat = 1000000 := rfl
    rw [mul, Bool.bne_false, add_zero]
    apply finalize_of_lt
    · rw [hmicros, hprecision]
      omega
    · rw [etiny]
      omega
    · rw [hprecision, emax]
      omega
  apply parse_of_text (a := .str (String.ofList (written s whole part))) hparse
  rw [hmul]
  apply quantizeUnit_places hp hlen
  rw [hprecision]
  omega

theorem signed_natAbs (m : ℤ) : signed (m < 0) m.natAbs = m := by
  rw [signed]
  split
  · rename_i hneg
    have := of_decide_eq_true hneg
    omega
  · rename_i hpos
    have := of_decide_eq_false (Bool.eq_false_iff.2 hpos)
    omega

theorem decimal_micros {m : ℤ} (hlow : -2 ^ 63 ≤ m) (hhigh : m < 2 ^ 63) :
    ∃ c e, decimal ⟨m⟩ = .ok (.finite (m < 0) c e) ∧ rescale 6 c e = m.natAbs := by
  rcases Nat.eq_zero_or_pos m.natAbs with hzero | hpos
  · obtain rfl := Int.natAbs_eq_zero.1 hzero
    exact ⟨0, 0, by decide +kernel, by decide +kernel⟩
  · obtain ⟨c, e, hdiv, -, hvalue⟩ := div_million (s := decide (m < 0)) hpos (by omega)
    exact ⟨c, e, hdiv, rescale_exact hvalue⟩

end Money

/-- What is printed of any amount that the ledger can store is read as that
amount, and has nothing to spare. -/
theorem printed_parses (m : Money) (hlow : -2 ^ 63 ≤ m.micros) (hhigh : m.micros < 2 ^ 63) :
    ∃ t, Money.str m = .ok t ∧ Money.parse (.str t) = .ok m ∧ Terse t := by
  obtain ⟨c, e, hdecimal, hscaled⟩ := decimal_micros hlow hhigh
  obtain ⟨whole, part, n, k, hspells, hp, hlen, hpart, htext⟩ := fixed_stripped (s := decide (m.micros < 0)) hscaled
  refine ⟨String.ofList (written (m.micros < 0) whole part), ?_, ?_, terse_written hspells hpart⟩
  · have hne : written (m.micros < 0) whole part ≠ [] := by simp [written, hspells.nonempty]
    rw [Money.str, show decimal m = _ from hdecimal, Except.map]
    dsimp only
    rw [htext, if_neg hne]
  · rw [parse_written hspells hp hlen (by omega), signed_natAbs]

theorem printed_parses_owed : ∃ t, Money.str ⟨-1500000⟩ = .ok t ∧ Money.parse (.str t) = .ok ⟨-1500000⟩ ∧ Terse t :=
  printed_parses ⟨-1500000⟩ (by decide) (by decide)

end CodeZard.Prints
