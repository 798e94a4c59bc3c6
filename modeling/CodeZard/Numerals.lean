import CodeZard.Stroops

namespace CodeZard.Numerals

open Decimals Stroops

def Digits (cs : List Char) : Prop := ∀ c ∈ cs, c.isDigit = true

def exponentOf (k : Int) : List Char :=
  if k = 0 then [] else 'E' :: (if 0 < k then '+' else '-') :: Nat.toDigits 10 k.natAbs

def pointed (part : List Char) : List Char := if part = [] then [] else '.' :: part

section Scanning

variable {cs rest : List Char}

theorem digits_toDigits (n : Nat) : Digits (Nat.toDigits 10 n) := fun _ h =>
  Nat.isDigit_of_mem_toDigits (by decide) (by decide) h

theorem digit_of_isDigit {c : Char} (h : c.isDigit = true) : digit c = some (c.toNat - 48) := by
  have hrange : 48 ≤ c.toNat ∧ c.toNat ≤ 57 := by
    simpa [Char.isDigit, UInt32.le_iff_toNat_le] using h
  have hfirst : (48 ≤ c.toNat && c.toNat < 48 + 10) = true := by
    simp
    omega
  simp only [digit, digitZeros, List.find?_cons, hfirst, Option.map_some]

theorem takeDigits_append (h : Digits cs) (hr : takeDigits rest = ([], rest)) :
    takeDigits (cs ++ rest) = (cs.map fun c => c.toNat - 48, rest) := by
  induction cs with
  | nil => exact hr
  | cons c cs ih =>
      have hc := digit_of_isDigit (h c List.mem_cons_self)
      have htail := ih fun d hd => h d (List.mem_cons_of_mem c hd)
      simp only [List.cons_append, takeDigits, hc, htail, List.map_cons]

theorem natOf_map (cs : List Char) : natOf (cs.map fun c => c.toNat - 48) = Nat.ofDigitChars 10 cs 0 := by
  rw [natOf, List.foldl_map, Nat.ofDigitChars_eq_foldl]
  rfl

theorem takeDigits_exponentOf (k : Int) : takeDigits (exponentOf k) = ([], exponentOf k) := by
  unfold exponentOf
  split
  · rfl
  · have hnone : digit 'E' = none := by decide +kernel
    simp only [takeDigits, hnone]

theorem takeDigits_point (cs : List Char) : takeDigits ('.' :: cs) = ([], '.' :: cs) := by
  have hnone : digit '.' = none := by decide +kernel
  simp only [takeDigits, hnone]

theorem exponentOf_cases (k : Int) : exponentOf k = [] ∨ ∃ cs, exponentOf k = 'E' :: cs := by
  unfold exponentOf
  split
  · exact .inl rfl
  · exact .inr ⟨_, rfl⟩

theorem parseExponent_exponentOf (k : Int) : parseExponent (exponentOf k) = some k := by
  unfold exponentOf
  by_cases hk : k = 0
  · rw [if_pos hk, hk]
    rfl
  rw [if_neg hk]
  have hend : takeDigits [] = ([], []) := rfl
  have hdigits := takeDigits_append (digits_toDigits k.natAbs) hend
  rw [List.append_nil] at hdigits
  have hvalue : natOf ((Nat.toDigits 10 k.natAbs).map fun c => c.toNat - 48) = k.natAbs := by
    rw [natOf_map, Nat.ofDigitChars_ten_toDigits]
  cases hmap : (Nat.toDigits 10 k.natAbs).map fun c => c.toNat - 48 with
  | nil => simp at hmap
  | cons d ds =>
      rw [hmap] at hdigits hvalue
      by_cases hpos : 0 < k
      · simp [parseExponent, splitSign, hpos, hdigits, hvalue, abs_of_pos hpos]
      · simp [parseExponent, splitSign, hpos, hdigits, hvalue, abs_of_nonpos (not_lt.1 hpos)]

end Scanning

section Numbers

variable {whole part : List Char} {s : Bool} {n : Nat} {e : Int}

/-- What is written and can be read again: digits, perhaps with more of them
behind a point, and an exponent that counts these. -/
structure Spells (whole part : List Char) (n : Nat) : Prop where
  ahead : Digits whole
  behind : Digits part
  nonempty : whole ≠ []
  value : Nat.ofDigitChars 10 (whole ++ part) 0 = n

def numeral (whole part : List Char) (e : Int) : List Char := whole ++ pointed part ++ exponentOf (e + part.length)

theorem parseNumber_numeral (h : Spells whole part n) (hlow : minExponent ≤ e)
    (hhigh : e + digitCount n - 1 ≤ maxExponent) : parseNumber s (numeral whole part e) = some (.finite s n e) := by
  have hread : takeDigits (numeral whole part e) =
      (whole.map fun c => c.toNat - 48, pointed part ++ exponentOf (e + part.length)) := by
    rw [numeral, List.append_assoc]
    apply takeDigits_append h.ahead
    unfold pointed
    split
    · exact takeDigits_exponentOf _
    · exact takeDigits_point _
  have hvalue : natOf ((whole.map fun c => c.toNat - 48) ++ part.map fun c => c.toNat - 48) = n := by
    rw [← List.map_append, natOf_map, h.value]
  have hrest := takeDigits_append h.behind (takeDigits_exponentOf (e + part.length))
  have hne : (whole.map fun c => c.toNat - 48) ++ (part.map fun c => c.toNat - 48) ≠ [] := by
    simp [h.nonempty]
  have hrange : ¬ (maxExponent < e + digitCount n - 1 ∨ e < minExponent) := by omega
  cases part with
  | nil =>
      simp only [pointed, if_true, List.nil_append, List.length_nil, Nat.cast_zero, add_zero] at hread
      simp only [List.map_nil, List.append_nil] at hvalue hne
      have hexp := parseExponent_exponentOf e
      unfold parseNumber
      rcases exponentOf_cases e with hx | ⟨cs, hx⟩
      · rw [hx] at hread hexp
        simp [hread, hexp, hvalue, h.nonempty, hrange]
      · rw [hx] at hread hexp
        simp [hread, hexp, hvalue, h.nonempty, hrange]
  | cons c cs =>
      simp only [pointed, reduceCtorEq, if_false, List.cons_append] at hread
      simp only [List.cons_append] at hrest
      have hexp : e + ((c :: cs).length : Int) - ((c :: cs).map fun c => c.toNat - 48).length = e := by simp
      unfold parseNumber
      rw [hread]
      simp only [hrest, if_neg hne, parseExponent_exponentOf, hvalue, Option.bind_some, hexp, if_neg hrange]

theorem spells_zero (zs : Nat) (n : Nat) : Spells ['0'] (List.replicate zs '0' ++ Nat.toDigits 10 n) n where
  ahead c hc := by
    obtain rfl := List.mem_singleton.1 hc
    rfl
  behind c hc := by
    rcases List.mem_append.1 hc with hc | hc
    · obtain rfl := List.eq_of_mem_replicate hc
      rfl
    · exact digits_toDigits n c hc
  nonempty := by simp
  value := by
    rw [Nat.ofDigitChars_append, Nat.ofDigitChars_append, Nat.ofDigitChars_replicate_zero]
    exact Nat.ofDigitChars_ten_toDigits

theorem spells_take {k : Nat} (hk : 0 < k) (n : Nat) :
    Spells ((Nat.toDigits 10 n).take k) ((Nat.toDigits 10 n).drop k) n where
  ahead c hc := digits_toDigits n c (List.mem_of_mem_take hc)
  behind c hc := digits_toDigits n c (List.mem_of_mem_drop hc)
  nonempty h := by
    rcases List.take_eq_nil_iff.1 h with h | h
    · omega
    · simp at h
  value := by rw [List.take_append_drop, Nat.ofDigitChars_ten_toDigits]

theorem text_finite (s : Bool) (n : Nat) (e : Int) : ∃ whole part, Spells whole part n ∧
    text (.finite s n e) = String.ofList ((if s then ['-'] else []) ++ numeral whole part e) := by
  have hlength : 0 < (Nat.toDigits 10 n).length := Nat.length_toDigits_pos
  have hexponent (left point : Int) : (if left = point then [] else
      'E' :: (if point < left then '+' else '-') :: Nat.toDigits 10 (left - point).natAbs) = exponentOf (left - point) := by
    simp only [exponentOf, sub_eq_zero, sub_pos]
  simp only [text, hexponent]
  generalize hleft : e + ((Nat.toDigits 10 n).length : Int) = left
  generalize hpoint : (if e ≤ 0 ∧ -6 < left then left else 1) = point
  have hwithin : point ≤ (Nat.toDigits 10 n).length := by
    rw [← hpoint]
    split <;> omega
  by_cases hneg : point ≤ 0
  · rw [if_pos hneg]
    refine ⟨['0'], zeros (-point) ++ Nat.toDigits 10 n, spells_zero _ n, ?_⟩
    have hlast : left - point = e + ((zeros (-point) ++ Nat.toDigits 10 n).length : Int) := by
      simp only [zeros, List.length_append, List.length_replicate]
      omega
    rw [hlast]
    simp [numeral, pointed]
  · rw [if_neg hneg]
    refine ⟨_, _, spells_take (k := point.toNat) (by omega) n, ?_⟩
    have hlast : left - point = e + (((Nat.toDigits 10 n).drop point.toNat).length : Int) := by
      simp only [List.length_drop]
      omega
    rw [hlast]
    by_cases hall : ((Nat.toDigits 10 n).length : Int) ≤ point
    · have hzeros : zeros (point - (Nat.toDigits 10 n).length) = [] := by simp [zeros, le_antisymm hwithin hall]
      have hdrop : (Nat.toDigits 10 n).drop point.toNat = [] := List.drop_of_length_le (by omega)
      have htake : (Nat.toDigits 10 n).take point.toNat = Nat.toDigits 10 n := List.take_of_length_le (by omega)
      simp [hall, hzeros, hdrop, htake, numeral, pointed]
    · have hdrop : (Nat.toDigits 10 n).drop point.toNat ≠ [] := by simp; omega
      simp [hall, hdrop, numeral, pointed]

end Numbers

def Plain (c : Char) : Prop := isSpace c = false ∧ c ≠ '_'

instance : DecidablePred Plain := fun _ => inferInstanceAs (Decidable (_ ∧ _))

section Reading

variable {whole part cs : List Char} {s : Bool} {n : Nat} {e : Int}

theorem plain_of_isDigit {c : Char} (h : c.isDigit = true) : Plain c := by
  have hrange : 48 ≤ c.toNat ∧ c.toNat ≤ 57 := by
    simpa [Char.isDigit, UInt32.le_iff_toNat_le] using h
  constructor
  · simp [isSpace]
    omega
  · rintro rfl
    cases h

theorem plain_exponentOf {k : Int} {c : Char} (h : c ∈ exponentOf k) : Plain c := by
  unfold exponentOf at h
  split at h
  · cases h
  · rcases List.mem_cons.1 h with rfl | h
    · decide
    · rcases List.mem_cons.1 h with rfl | h
      · split <;> decide
      · exact plain_of_isDigit (digits_toDigits _ c h)

theorem plain_numeral (h : Spells whole part n) {c : Char} (hc : c ∈ numeral whole part e) : Plain c := by
  rcases List.mem_append.1 hc with hc | hc
  · rcases List.mem_append.1 hc with hc | hc
    · exact plain_of_isDigit (h.ahead c hc)
    · unfold pointed at hc
      split at hc
      · cases hc
      · rcases List.mem_cons.1 hc with rfl | hc
        · decide
        · exact plain_of_isDigit (h.behind c hc)
  · exact plain_exponentOf hc

theorem strip_plain (h : ∀ c ∈ cs, Plain c) : (strip cs).filter (· ≠ '_') = cs := by
  have hkept (ds : List Char) (hd : ∀ c ∈ ds, Plain c) : ds.dropWhile isSpace = ds := by
    cases ds with
    | nil => rfl
    | cons d ds => simp [(hd d List.mem_cons_self).1]
  rw [strip, hkept cs h, hkept cs.reverse fun c hc => h c (List.mem_reverse.1 hc), List.reverse_reverse]
  exact List.filter_eq_self.2 fun c hc => decide_eq_true (h c hc).2

theorem toLower_of_isDigit {c : Char} (h : c.isDigit = true) : c.toLower = c := by
  have hsmall : ¬ (c.val ≥ 'A'.val ∧ c.val ≤ 'Z'.val) := by
    rintro ⟨hle, _⟩
    simp only [Char.isDigit, Bool.and_eq_true, decide_eq_true_eq, UInt32.le_iff_toNat_le] at h
    have hupper : 65 ≤ c.val.toNat := UInt32.le_iff_toNat_le.1 hle
    have hdigit : c.val.toNat ≤ 57 := h.2
    omega
  exact dif_neg hsmall

theorem numeral_cons (h : Spells whole part n) (e : Int) :
    ∃ c cs, numeral whole part e = c :: cs ∧ c.isDigit = true := by
  obtain ⟨c, rest, hw⟩ := List.exists_cons_of_ne_nil h.nonempty
  refine ⟨c, rest ++ pointed part ++ exponentOf (e + part.length), ?_, h.ahead c (by simp [hw])⟩
  rw [numeral, hw]
  simp

theorem parse_numeral (s : Bool) (h : Spells whole part n) (hlow : minExponent ≤ e)
    (hhigh : e + digitCount n - 1 ≤ maxExponent) :
    parse (String.ofList ((if s then ['-'] else []) ++ numeral whole part e)) = some (.finite s n e) := by
  have hnumber := parseNumber_numeral (s := s) h hlow hhigh
  obtain ⟨c, cs, hcons, hdigit⟩ := numeral_cons h e
  have hplain (d : Char) (hd : d ∈ (if s then ['-'] else []) ++ numeral whole part e) : Plain d := by
    rcases List.mem_append.1 hd with hd | hd
    · split at hd
      · obtain rfl := List.mem_singleton.1 hd
        decide
      · cases hd
    · exact plain_numeral h hd
  have hsign : splitSign ((if s then ['-'] else []) ++ numeral whole part e) = (s, numeral whole part e) := by
    cases s with
    | true => rfl
    | false =>
        rw [hcons]
        unfold splitSign
        split
        · rename_i heq
          cases heq
          cases hdigit
        · rename_i heq
          cases heq
          cases hdigit
        · rfl
  rw [parse, String.toList_ofList, strip_plain hplain, hsign]
  dsimp only
  rw [hcons, List.map_cons, toLower_of_isDigit hdigit]
  have hhead (d : Char) (ds : List Char) (h : c :: cs.map Char.toLower = d :: ds) : d.isDigit = true := by
    rw [← (List.cons.inj h).1]
    exact hdigit
  split
  · exact absurd (hhead _ _ ‹_›) (by decide)
  · exact absurd (hhead _ _ ‹_›) (by decide)
  · exact absurd (hhead _ _ ‹_›) (by decide)
  · exact absurd (hhead _ _ ‹_›) (by decide)
  · rwa [← hcons]

theorem parse_text (s : Bool) (hlow : minExponent ≤ e) (hhigh : e + digitCount n - 1 ≤ maxExponent) :
    parse (text (.finite s n e)) = some (.finite s n e) := by
  obtain ⟨whole, part, h, htext⟩ := text_finite s n e
  rw [htext]
  exact parse_numeral s h hlow hhigh

end Reading

end CodeZard.Numerals
