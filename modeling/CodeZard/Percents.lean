import Mathlib.Data.List.Basic
import Mathlib.Data.Option.Basic

namespace CodeZard.Percents

abbrev Byte := UInt8

def digits : List Char := "0123456789ABCDEF".toList

def hexValue (c : Char) : Option Nat :=
  if 48 ≤ c.toNat ∧ c.toNat ≤ 57 then some (c.toNat - 48)
  else if 65 ≤ c.toNat ∧ c.toNat ≤ 70 then some (c.toNat - 55)
  else if 97 ≤ c.toNat ∧ c.toNat ≤ 102 then some (c.toNat - 87)
  else none

def IsHexDigit (c : Char) : Prop := (hexValue c).isSome

instance (c : Char) : Decidable (IsHexDigit c) := inferInstanceAs (Decidable ((hexValue c).isSome = true))

/-- The characters that stand for themselves. -/
structure Alphabet where
  plain : Char → Bool
  ascii : ∀ c, plain c = true → c.toNat < 128
  percent : plain '%' = false

def Alphabet.escapeByte (a : Alphabet) (b : Byte) : List Char :=
  if a.plain (Char.ofNat b.toNat) then [Char.ofNat b.toNat]
  else ['%', digits.getD (b.toNat / 16) '0', digits.getD (b.toNat % 16) '0']

def Alphabet.escape (a : Alphabet) (bs : List Byte) : List Char := bs.flatMap a.escapeByte

/-- Every percent sign begins an escape of two digits. -/
def Escaped (cs : List Char) : Prop :=
  ∀ us vs, cs = us ++ '%' :: vs → ∃ x y ws, vs = x :: y :: ws ∧ IsHexDigit x ∧ IsHexDigit y

def unescape : List Char → Option (List Byte)
  | [] => some []
  | c :: cs =>
      if c = '%' then
        match cs with
        | x :: y :: rest => do
            let high ← hexValue x
            let low ← hexValue y
            let bs ← unescape rest
            pure (UInt8.ofNat (16 * high + low) :: bs)
        | _ => none
      else (unescape cs).map (String.utf8EncodeChar c ++ ·)

/-- The text itself, if the bytes are those of one. -/
def decode (cs : List Char) : Option (List Char) :=
  (unescape cs).bind fun bs => bs.toByteArray.utf8Decode?.map Array.toList

theorem unescape_plain {c : Char} (h : c ≠ '%') (cs : List Char) :
    unescape (c :: cs) = (unescape cs).map (String.utf8EncodeChar c ++ ·) := by
  rcases cs with _ | ⟨x, _ | ⟨y, cs⟩⟩ <;> simp [unescape, h]

section Escaping

variable {cs ds : List Char}

theorem escaped_nil : Escaped [] := by
  intro us vs h
  exact absurd h (by simp)

theorem Escaped.append (hc : Escaped cs) (hd : Escaped ds) : Escaped (cs ++ ds) := by
  intro us vs h
  rcases List.append_eq_append_iff.1 h with ⟨ws, hus, hds⟩ | ⟨ws, hcs, hvs⟩
  · exact hd ws vs hds
  · cases ws with
    | nil => exact hd [] vs hvs.symm
    | cons w ws =>
        obtain ⟨rfl, rfl⟩ := List.cons_eq_cons.1 hvs
        obtain ⟨x, y, rest, rfl, hx, hy⟩ := hc us ws hcs
        exact ⟨x, y, rest ++ ds, rfl, hx, hy⟩

theorem escaped_plain {c : Char} (h : c ≠ '%') : Escaped [c] := by
  intro us vs hcs
  have hmem : '%' ∈ [c] := hcs ▸ List.mem_append_right us List.mem_cons_self
  exact absurd (List.mem_singleton.1 hmem).symm h

theorem escaped_escape {x y : Char} (hx : IsHexDigit x) (hy : IsHexDigit y) : Escaped ['%', x, y] := by
  have hnot {c : Char} (hc : IsHexDigit c) : c ≠ '%' := by
    rintro rfl
    exact absurd hc (by decide)
  intro us vs h
  match us with
  | [] =>
      obtain ⟨_, rfl⟩ := List.cons_eq_cons.1 h
      exact ⟨x, y, [], rfl, hx, hy⟩
  | [_] => simp [hnot hx] at h
  | [_, _] => simp [hnot hy] at h
  | _ :: _ :: _ :: us => simp at h

end Escaping

theorem hexValue_digit {n : Nat} (h : n < 16) : hexValue (digits.getD n '0') = some n := by
  have hall : (List.range 16).all (fun n => hexValue (digits.getD n '0') = some n) = true := by decide
  exact of_decide_eq_true (List.all_eq_true.1 hall n (List.mem_range.2 h))

namespace Alphabet

variable (a : Alphabet) (b : Byte) (bs : List Byte)

theorem toNat_byte : (Char.ofNat b.toNat).toNat = b.toNat := by
  have hvalid : b.toNat.isValidChar := .inl (Nat.lt_trans b.toNat_lt (by decide))
  rw [Char.ofNat, dif_pos hvalid]
  rfl

theorem escapeByte_cases :
    a.plain (Char.ofNat b.toNat) = true ∧ a.escapeByte b = [Char.ofNat b.toNat] ∨
      ∃ x y, a.escapeByte b = ['%', x, y] ∧ hexValue x = some (b.toNat / 16) ∧ hexValue y = some (b.toNat % 16) := by
  have hb := b.toNat_lt
  unfold escapeByte
  split
  · exact .inl ⟨by assumption, rfl⟩
  · exact .inr ⟨_, _, rfl, hexValue_digit (by omega), hexValue_digit (by omega)⟩

theorem escaped_escapeByte : Escaped (a.escapeByte b) := by
  rcases a.escapeByte_cases b with ⟨hplain, h⟩ | ⟨x, y, h, hx, hy⟩
  · rw [h]
    apply escaped_plain
    intro hc
    rw [hc, a.percent] at hplain
    exact Bool.noConfusion hplain
  · rw [h]
    apply escaped_escape
    · rw [IsHexDigit, hx]
      rfl
    · rw [IsHexDigit, hy]
      rfl

theorem escaped : Escaped (a.escape bs) := by
  induction bs with
  | nil => exact escaped_nil
  | cons b bs ih => exact (a.escaped_escapeByte b).append ih

theorem mem_escape {c : Char} (h : c ∈ a.escape bs) : a.plain c = true ∨ c = '%' ∨ IsHexDigit c := by
  obtain ⟨b, _, hc⟩ := List.mem_flatMap.1 h
  rcases a.escapeByte_cases b with ⟨hplain, hb⟩ | ⟨x, y, hb, hx, hy⟩
  · rw [hb, List.mem_singleton] at hc
    rw [hc]
    exact .inl hplain
  · rw [hb] at hc
    simp only [List.mem_cons, List.not_mem_nil, or_false] at hc
    rcases hc with rfl | rfl | rfl
    · exact .inr (.inl rfl)
    · exact .inr (.inr (by rw [IsHexDigit, hx]; rfl))
    · exact .inr (.inr (by rw [IsHexDigit, hy]; rfl))

theorem unescape_escapeByte (cs : List Char) : unescape (a.escapeByte b ++ cs) = (unescape cs).map (b :: ·) := by
  rcases a.escapeByte_cases b with ⟨hplain, h⟩ | ⟨x, y, h, hx, hy⟩
  · have hne : Char.ofNat b.toNat ≠ '%' := by
      intro hc
      rw [hc, a.percent] at hplain
      exact Bool.noConfusion hplain
    have hone : String.utf8EncodeChar (Char.ofNat b.toNat) = [b] := by
      have hval : (Char.ofNat b.toNat).val.toNat = b.toNat := toNat_byte b
      have hsmall := a.ascii _ hplain
      rw [toNat_byte] at hsmall
      unfold String.utf8EncodeChar
      simp only [hval]
      rw [if_pos (Nat.le_of_lt_succ hsmall), UInt8.ofNat_toNat]
    rw [h, List.singleton_append, unescape_plain hne, hone]
    rfl
  · have hvalue : UInt8.ofNat (16 * (b.toNat / 16) + b.toNat % 16) = b := by
      rw [Nat.div_add_mod, UInt8.ofNat_toNat]
    rw [h]
    simp only [List.cons_append, List.nil_append, unescape, if_true, hx, hy, Option.bind_eq_bind, Option.bind_some,
      hvalue]
    cases unescape cs <;> rfl

theorem unescape_escape : unescape (a.escape bs) = some bs := by
  induction bs with
  | nil => rfl
  | cons b bs ih =>
      have hcons : a.escape (b :: bs) = a.escapeByte b ++ a.escape bs := List.flatMap_cons
      rw [hcons, unescape_escapeByte, ih]
      rfl

theorem decode_escape (text : List Char) : decode (a.escape (text.flatMap String.utf8EncodeChar)) = some text := by
  have hbytes : (text.flatMap String.utf8EncodeChar).toByteArray = text.utf8Encode := rfl
  rw [decode, unescape_escape, Option.bind_some, hbytes, List.utf8Decode?_utf8Encode]
  rfl

theorem escape_injective {text other : List Char}
    (h : a.escape (text.flatMap String.utf8EncodeChar) = a.escape (other.flatMap String.utf8EncodeChar)) :
    text = other := by
  have hdecode := a.decode_escape text
  rw [h, a.decode_escape other] at hdecode
  exact (Option.some.inj hdecode).symm

end Alphabet

end CodeZard.Percents
