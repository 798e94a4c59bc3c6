import CodeZard.JsonTexts
import Mathlib.Data.List.TakeWhile

namespace CodeZard.Spellings

open RunLogs Values Documents Columns Percents JsonTexts

/-- What a part of a text says: a value, the items of a list from the first to
the closing bracket, a key with its value, the fields of an object to its brace. -/
inductive Part
  | value (x : Json)
  | items (xs : List Json)
  | field (k : String) (x : Json)
  | fields (xs : Fields)

def Blanks (cs : List Char) : Prop := ∀ c ∈ cs, blank c = true

/-- How a character may stand in a string. -/
inductive SpellsChar (c : Char) : List Char → Prop
  | plain : 0x20 ≤ c.toNat → c ≠ '"' → c ≠ '\\' → SpellsChar c [c]
  | short (e : Char) : escapeOf e = some c → SpellsChar c ['\\', e]
  | unit (digits : List Char) : unicodeAt digits = some (c.toNat, []) → SpellsChar c ('\\' :: 'u' :: digits)
  | pair (first second : List Char) (n m : Nat) : unicodeAt first = some (n, []) → high n = true →
      unicodeAt second = some (m, []) → low m = true → joined n m = c →
      SpellsChar c ('\\' :: 'u' :: first ++ '\\' :: 'u' :: second)

inductive SpellsText : List Char → List Char → Prop
  | nil : SpellsText [] []
  | cons (c : Char) (s head tail : List Char) : SpellsChar c head → SpellsText s tail →
      SpellsText (c :: s) (head ++ tail)

/-- How JSON may say a part, with blanks wherever there may be any. -/
inductive Spells (real : Floats) : Part → List Char → Prop
  | word (x : Json) (cs : List Char) : (cs, x) ∈ words → Spells real (.value x) cs
  | number (x : Json) (cs : List Char) : scanNumber real cs = some (x, []) → Spells real (.value x) cs
  | text (s cs : List Char) : SpellsText s cs → Spells real (.value (.str (String.ofList s))) ('"' :: cs ++ ['"'])
  | noItems (blanks : List Char) : Blanks blanks → Spells real (.value (.list [])) ('[' :: blanks ++ [']'])
  | list (xs : List Json) (blanks cs : List Char) : Blanks blanks → Spells real (.items xs) cs →
      Spells real (.value (.list xs)) ('[' :: blanks ++ cs)
  | noFields (blanks : List Char) : Blanks blanks → Spells real (.value (.dict [])) ('{' :: blanks ++ ['}'])
  | dict (xs : Fields) (blanks cs : List Char) : Blanks blanks → Spells real (.fields xs) cs →
      Spells real (.value (.dict (dictOf xs))) ('{' :: blanks ++ cs)
  | lastItem (x : Json) (cs blanks : List Char) : Spells real (.value x) cs → Blanks blanks →
      Spells real (.items [x]) (cs ++ blanks ++ [']'])
  | item (x : Json) (xs : List Json) (cs before after more : List Char) : Spells real (.value x) cs → Blanks before →
      Blanks after → Spells real (.items xs) more → Spells real (.items (x :: xs)) (cs ++ before ++ ',' :: after ++ more)
  | field (k : List Char) (x : Json) (key before after cs : List Char) : SpellsText k key → Blanks before →
      Blanks after → Spells real (.value x) cs →
      Spells real (.field (String.ofList k) x) (key ++ '"' :: before ++ ':' :: after ++ cs)
  | lastField (k : String) (x : Json) (cs blanks : List Char) : Spells real (.field k x) cs → Blanks blanks →
      Spells real (.fields [(k, x)]) ('"' :: cs ++ blanks ++ ['}'])
  | moreFields (k : String) (x : Json) (xs : Fields) (cs before after more : List Char) : Spells real (.field k x) cs →
      Blanks before → Blanks after → Spells real (.fields xs) more →
      Spells real (.fields ((k, x) :: xs)) ('"' :: cs ++ before ++ ',' :: after ++ more)

section Strings

variable {n : Nat} {cs rest : List Char}

theorem unicodeAt_append {k : Nat} (h : unicodeAt cs = some (k, [])) (rest : List Char) :
    unicodeAt (cs ++ rest) = some (k, rest) := by
  match cs with
  | [] => cases h
  | [_] => cases h
  | [_, _] => cases h
  | [_, _, _] => cases h
  | w :: x :: y :: z :: left =>
      simp only [unicodeAt, Option.bind_eq_bind, Option.bind_eq_some_iff] at h
      obtain ⟨a, ha, b, hb, c, hc, d, hd, h⟩ := h
      cases h
      simp [unicodeAt, ha, hb, hc, hd]

theorem not_surrogate (c : Char) : high c.toNat = false ∧ low c.toNat = false := by
  have hvalid : c.toNat < 0xd800 ∨ 0xdfff < c.toNat ∧ c.toNat < 0x110000 := c.valid
  simp only [← Bool.not_eq_true, high, low, Bool.and_eq_true, decide_eq_true_eq]
  omega

theorem scanString_escape {c : Char} (h : escapeAt cs = some (c, rest)) :
    scanString (n + 1) ('\\' :: cs) = (scanString n rest).map fun (s, rest) => (c :: s, rest) := by
  simp [scanString, h]

theorem scanString_char {c : Char} (h : SpellsChar c cs) (rest : List Char) :
    scanString (n + 1) (cs ++ rest) = (scanString n rest).map fun (s, rest) => (c :: s, rest) := by
  cases h with
  | plain hlarge hquote hslash => simp [scanString, hquote, hslash, not_lt.2 hlarge]
  | short e he =>
      have hu : e ≠ 'u' := by
        rintro rfl
        cases he
      apply scanString_escape
      simp [escapeAt, hu, he]
  | unit digits hdigits =>
      obtain ⟨hhigh, hlow⟩ := not_surrogate c
      apply scanString_escape
      simp [escapeAt, unicodeAt_append hdigits, hhigh, hlow, Char.ofNat_toNat]
  | pair first second k m hfirst hhigh hsecond hlow hc =>
      rw [List.append_assoc, List.cons_append]
      apply scanString_escape
      simp [escapeAt, unicodeAt_append hfirst, unicodeAt_append hsecond, hhigh, hlow, hc]

theorem length_spellsChar {c : Char} (h : SpellsChar c cs) : 1 ≤ cs.length := by
  cases h <;> simp

theorem scanString_spelled {s : List Char} (h : SpellsText s cs) (hn : cs.length < n) (rest : List Char) :
    scanString n (cs ++ '"' :: rest) = some (s, rest) := by
  induction h generalizing n with
  | nil =>
      obtain ⟨n, rfl⟩ := Nat.exists_eq_succ_of_ne_zero (Nat.ne_zero_of_lt hn)
      simp [scanString]
  | cons c s head tail hc _ ih =>
      obtain ⟨n, rfl⟩ := Nat.exists_eq_succ_of_ne_zero (Nat.ne_zero_of_lt hn)
      have hone := length_spellsChar hc
      rw [List.length_append] at hn
      rw [List.append_assoc, scanString_char hc, ih (by omega)]
      rfl

end Strings

section Numbers

variable {cs rest : List Char} {real : Floats}

def Ends (rest : List Char) : Prop :=
  ∀ c ∈ rest.head?, c.isDigit = false ∧ c ∉ ['.', 'e', 'E', '+', '-']

theorem span_append (h : Ends rest) (cs : List Char) :
    (cs ++ rest).takeWhile Char.isDigit = cs.takeWhile Char.isDigit ∧
      (cs ++ rest).dropWhile Char.isDigit = cs.dropWhile Char.isDigit ++ rest := by
  induction cs with
  | nil =>
      cases rest with
      | nil => exact ⟨rfl, rfl⟩
      | cons c rest =>
          have hc := (h c rfl).1
          simp [hc]
  | cons c cs ih =>
      obtain ⟨htake, hdrop⟩ := ih
      cases hc : c.isDigit <;> simp [hc, htake, hdrop]

theorem scanWhole_append (h : Ends rest) (hc : cs ≠ []) :
    scanWhole (cs ++ rest) = (scanWhole cs).map fun (whole, left) => (whole, left ++ rest) := by
  cases cs with
  | nil => exact absurd rfl hc
  | cons c cs =>
      obtain ⟨htake, hdrop⟩ := span_append h cs
      simp only [List.cons_append, scanWhole, htake, hdrop]
      split
      · rfl
      split <;> rfl

theorem scanFraction_append (h : Ends rest) (cs : List Char) :
    scanFraction (cs ++ rest) = ((scanFraction cs).1, (scanFraction cs).2 ++ rest) := by
  match cs with
  | [] =>
      match rest with
      | [] => rfl
      | [_] => rfl
      | p :: d :: rest =>
          have hp : p ≠ '.' := by
            have hmem := (h p rfl).2
            rintro rfl
            simp at hmem
          simp [scanFraction, hp]
  | [p] =>
      match rest with
      | [] => rfl
      | d :: rest =>
          have hd := (h d rfl).1
          simp [scanFraction, hd]
  | p :: d :: cs =>
      obtain ⟨htake, hdrop⟩ := span_append h cs
      simp only [List.cons_append, scanFraction, htake, hdrop]
      split <;> rfl

theorem scanSign_append (h : Ends rest) (cs : List Char) :
    scanSign (cs ++ rest) = ((scanSign cs).1, (scanSign cs).2 ++ rest) := by
  match cs with
  | [] =>
      match rest with
      | [] => rfl
      | s :: rest =>
          have hs : s ≠ '+' ∧ s ≠ '-' := by
            have hmem := (h s rfl).2
            simp only [List.mem_cons, List.not_mem_nil, or_false, not_or] at hmem
            exact ⟨hmem.2.2.2.1, hmem.2.2.2.2⟩
          simp [scanSign, hs]
  | s :: cs =>
      simp only [List.cons_append, scanSign]
      split <;> rfl

theorem scanExponent_append (h : Ends rest) (cs : List Char) :
    scanExponent (cs ++ rest) = ((scanExponent cs).1, (scanExponent cs).2 ++ rest) := by
  match cs with
  | [] =>
      match rest with
      | [] => rfl
      | e :: rest =>
          have he : e ≠ 'e' ∧ e ≠ 'E' := by
            have hmem := (h e rfl).2
            simp only [List.mem_cons, List.not_mem_nil, or_false, not_or] at hmem
            exact ⟨hmem.2.1, hmem.2.2.1⟩
          simp [scanExponent, he]
  | e :: cs =>
      obtain ⟨htake, hdrop⟩ := span_append h (scanSign cs).2
      simp only [List.cons_append, scanExponent, scanSign_append h, htake, hdrop]
      split <;> rfl

theorem scanUnsigned_append (h : Ends rest) (hc : cs ≠ []) (sign : List Char) :
    scanUnsigned real sign (cs ++ rest) = (scanUnsigned real sign cs).map fun (x, left) => (x, left ++ rest) := by
  simp only [scanUnsigned, scanWhole_append h hc]
  cases scanWhole cs with
  | none => rfl
  | some found =>
      obtain ⟨whole, left⟩ := found
      simp only [Option.map_some, Option.bind_some, scanFraction_append h, scanExponent_append h]
      split
      · split <;> rfl
      · rfl

theorem scanNumber_append (h : Ends rest) {found : Json × List Char} (hn : scanNumber real cs = some found) :
    scanNumber real (cs ++ rest) = some (found.1, found.2 ++ rest) := by
  cases cs with
  | nil => cases hn
  | cons c cs =>
      rw [List.cons_append]
      simp only [scanNumber] at hn ⊢
      split at hn
      · rename_i hminus
        have hcs : cs ≠ [] := by
          rintro rfl
          cases hn
        rw [if_pos hminus, scanUnsigned_append h hcs, hn]
        rfl
      · rename_i hminus
        rw [if_neg hminus, ← List.cons_append, scanUnsigned_append h (List.cons_ne_nil c cs), hn]
        rfl

theorem scanNumber_head {c : Char} {found : Json × List Char} (h : scanNumber real (c :: cs) = some found) :
    c.isDigit = true ∨ c = '-' := by
  simp only [scanNumber] at h
  split at h
  · exact .inr ‹_›
  · refine .inl ?_
    obtain ⟨whole, hwhole, -⟩ := Option.bind_eq_some_iff.1 h
    simp only [scanWhole] at hwhole
    split at hwhole
    · rename_i hc
      rw [hc]
      rfl
    split at hwhole
    · assumption
    · cases hwhole

theorem scanWord_number {found : Json × List Char} (h : scanNumber real cs = some found) : scanWord cs = none := by
  cases cs with
  | nil => rfl
  | cons c cs =>
      rcases scanNumber_head h with hc | rfl
      · have hne : ∀ d : Char, d.isDigit = false → (d = c) = False := by
          intro d hd
          apply eq_false
          rintro rfl
          rw [hd] at hc
          cases hc
        have hdigit : ∀ d ∈ ['n', 't', 'f', 'N', 'I', '-'], d.isDigit = false := by simp [Char.isDigit]
        simp only [List.forall_mem_cons] at hdigit
        simp [scanWord, words, hne, hdigit]
      · cases cs with
        | nil => rfl
        | cons d cs =>
            have hd : ('I' = d) = False := by
              apply eq_false
              rintro rfl
              cases h
            simp [scanWord, words, hd]

end Numbers

section Reading

variable {real : Floats} {n : Nat} {cs rest : List Char}

theorem skip_blanks (h : Blanks cs) (rest : List Char) : skip (cs ++ rest) = skip rest :=
  List.dropWhile_append_of_pos h

theorem skip_of_not_blank {c : Char} (h : blank c = false) (rest : List Char) : skip (c :: rest) = c :: rest := by
  simp [skip, h]

theorem ends_nil : Ends [] := by
  intro c hc
  cases hc

theorem ends_of_blank_or {c : Char} (h : blank c = true ∨ c ∈ [',', ']', '}']) (rest : List Char) :
    Ends (c :: rest) := by
  have hall : ∀ c ∈ [' ', '\t', '\n', '\r', ',', ']', '}'], c.isDigit = false ∧ c ∉ ['.', 'e', 'E', '+', '-'] := by
    simp [Char.isDigit]
  intro d hd
  cases hd
  apply hall
  rcases h with h | h
  · simp only [blank, Bool.or_eq_true, decide_eq_true_eq] at h
    rcases h with ((rfl | rfl) | rfl) | rfl <;> simp
  · simp only [List.mem_cons, List.not_mem_nil, or_false] at h
    rcases h with rfl | rfl | rfl <;> simp

theorem ends_blanks (h : Blanks cs) {c : Char} (hc : c ∈ [',', ']', '}']) (rest : List Char) :
    Ends (cs ++ c :: rest) := by
  cases cs with
  | nil => exact ends_of_blank_or (.inr hc) rest
  | cons d cs => exact ends_of_blank_or (.inl (h d List.mem_cons_self)) _

theorem Blanks.ends (h : Blanks cs) : Ends cs := by
  cases cs with
  | nil => exact ends_nil
  | cons c cs => exact ends_of_blank_or (.inl (h c List.mem_cons_self)) cs

def Begins (cs : List Char) : Prop := ∃ c rest, cs = c :: rest ∧ blank c = false ∧ c ≠ ']' ∧ c.toNat < 0x80

theorem Begins.append (h : Begins cs) (rest : List Char) : Begins (cs ++ rest) := by
  obtain ⟨c, cs, rfl, hc⟩ := h
  exact ⟨c, cs ++ rest, rfl, hc⟩

theorem skip_begins (h : Begins cs) : skip cs = cs := by
  obtain ⟨c, cs, rfl, hc, -⟩ := h
  exact skip_of_not_blank hc cs

theorem begins_number {found : Json × List Char} (h : scanNumber real cs = some found) : Begins cs := by
  cases cs with
  | nil => cases h
  | cons c cs =>
      refine ⟨c, cs, rfl, ?_⟩
      rcases scanNumber_head h with hc | rfl
      · simp only [Char.isDigit, Bool.and_eq_true, decide_eq_true_eq] at hc
        have hsmall : c.toNat ≤ 57 := hc.2
        have hlarge : 48 ≤ c.toNat := hc.1
        refine ⟨?_, ?_, by omega⟩
        · rw [← Bool.not_eq_true]
          simp only [blank, Bool.or_eq_true, decide_eq_true_eq]
          rintro (((rfl | rfl) | rfl) | rfl) <;> exact absurd hlarge (by decide)
        · rintro rfl
          exact absurd hsmall (by decide)
      · decide

theorem begins_word {x : Json} (h : (cs, x) ∈ words) : Begins cs := by
  simp only [words, List.mem_cons, Prod.mk.injEq, List.not_mem_nil, or_false] at h
  rcases h with ⟨rfl, _⟩ | ⟨rfl, _⟩ | ⟨rfl, _⟩ | ⟨rfl, _⟩ | ⟨rfl, _⟩ | ⟨rfl, _⟩ <;> exact ⟨_, _, rfl, by decide⟩

theorem scan_word {x : Json} (h : (cs, x) ∈ words) (rest : List Char) :
    scan real (n + 1) (cs ++ rest) = some (x, rest) := by
  simp only [words, List.mem_cons, Prod.mk.injEq, List.not_mem_nil, or_false] at h
  rcases h with ⟨rfl, rfl⟩ | ⟨rfl, rfl⟩ | ⟨rfl, rfl⟩ | ⟨rfl, rfl⟩ | ⟨rfl, rfl⟩ | ⟨rfl, rfl⟩ <;> rfl

theorem scan_number {x : Json} (h : scanNumber real cs = some (x, [])) (hr : Ends rest) :
    scan real (n + 1) (cs ++ rest) = some (x, rest) := by
  cases cs with
  | nil => cases h
  | cons c cs =>
      have hne : c ≠ '"' ∧ c ≠ '{' ∧ c ≠ '[' := by
        rcases scanNumber_head h with hc | rfl
        · refine ⟨?_, ?_, ?_⟩ <;> · rintro rfl; cases hc
        · decide
      have happend := scanNumber_append hr h
      rw [List.cons_append] at happend ⊢
      rw [scan, if_neg hne.1, if_neg hne.2.1, if_neg hne.2.2, scanWord_number happend, happend]
      rfl

def Read (real : Floats) : Part → List Char → Prop
  | .value x, cs => Begins cs ∧ ∀ n rest, 2 * cs.length ≤ n + 1 → Ends rest → scan real n (cs ++ rest) = some (x, rest)
  | .items xs, cs => Begins cs ∧ ∀ n rest, 2 * cs.length ≤ n → scanItems real n (cs ++ rest) = some (xs, rest)
  | .field k x, cs => ∀ n rest, 2 * cs.length ≤ n + 1 → Ends rest → ∃ left right,
      scanString n (cs ++ rest) = some (k.toList, left) ∧ skip left = ':' :: right ∧
        scan real n (skip right) = some (x, rest)
  | .fields xs, cs => ∃ tail, cs = '"' :: tail ∧
      ∀ n rest, 2 * tail.length ≤ n → scanFields real n (tail ++ rest) = some (xs, rest)

theorem succ_of_begins (h : Begins cs) (hn : 2 * cs.length ≤ n + 1) : ∃ m, n = m + 1 := by
  obtain ⟨c, cs, rfl, -⟩ := h
  rw [List.length_cons] at hn
  exact ⟨n - 1, by omega⟩

theorem read_text {s : List Char} (h : SpellsText s cs) : Read real (.value (.str (String.ofList s))) ('"' :: cs ++ ['"']) := by
  refine ⟨⟨'"', _, rfl, by decide⟩, fun n rest hn _ => ?_⟩
  simp only [List.length_append, List.length_cons, List.length_nil] at hn
  obtain ⟨n, rfl⟩ : ∃ m, n = m + 1 := ⟨n - 1, by omega⟩
  simp [scan, scanString_spelled h (show cs.length < n by omega)]

theorem read_noItems (h : Blanks cs) : Read real (.value (.list [])) ('[' :: cs ++ [']']) := by
  refine ⟨⟨'[', _, rfl, by decide⟩, fun n rest hn _ => ?_⟩
  simp only [List.length_append, List.length_cons, List.length_nil] at hn
  obtain ⟨n, rfl⟩ : ∃ m, n = m + 1 := ⟨n - 1, by omega⟩
  have hskip : skip (cs ++ ']' :: rest) = ']' :: rest := (skip_blanks h _).trans (skip_of_not_blank (by decide) rest)
  simp [scan, hskip]

theorem read_noFields (h : Blanks cs) : Read real (.value (.dict [])) ('{' :: cs ++ ['}']) := by
  refine ⟨⟨'{', _, rfl, by decide⟩, fun n rest hn _ => ?_⟩
  simp only [List.length_append, List.length_cons, List.length_nil] at hn
  obtain ⟨n, rfl⟩ : ∃ m, n = m + 1 := ⟨n - 1, by omega⟩
  have hskip : skip (cs ++ '}' :: rest) = '}' :: rest := (skip_blanks h _).trans (skip_of_not_blank (by decide) rest)
  simp [scan, hskip]

theorem read_list {blanks : List Char} {xs : List Json} (hb : Blanks blanks) (h : Read real (.items xs) cs) :
    Read real (.value (.list xs)) ('[' :: blanks ++ cs) := by
  obtain ⟨hbegins, hread⟩ := h
  refine ⟨⟨'[', _, rfl, by decide⟩, fun n rest hn _ => ?_⟩
  simp only [List.length_append, List.length_cons] at hn
  obtain ⟨n, rfl⟩ : ∃ m, n = m + 1 := ⟨n - 1, by omega⟩
  have hskip : skip (blanks ++ (cs ++ rest)) = cs ++ rest := (skip_blanks hb _).trans (skip_begins (hbegins.append rest))
  have hitems := hread n rest (by omega)
  obtain ⟨c, cs, rfl, -, hc, -⟩ := hbegins
  rw [List.cons_append] at hskip hitems
  simp [scan, hskip, hc, hitems]

theorem read_dict {blanks : List Char} {xs : Fields} (hb : Blanks blanks) (h : Read real (.fields xs) cs) :
    Read real (.value (.dict (dictOf xs))) ('{' :: blanks ++ cs) := by
  obtain ⟨tail, rfl, hread⟩ := h
  refine ⟨⟨'{', _, rfl, by decide⟩, fun n rest hn _ => ?_⟩
  simp only [List.length_append, List.length_cons] at hn
  obtain ⟨n, rfl⟩ : ∃ m, n = m + 1 := ⟨n - 1, by omega⟩
  have hskip : skip (blanks ++ '"' :: (tail ++ rest)) = '"' :: (tail ++ rest) :=
    (skip_blanks hb _).trans (skip_of_not_blank (by decide) _)
  simp [scan, hskip, hread n rest (by omega)]

theorem read_lastItem {blanks : List Char} {x : Json} (h : Read real (.value x) cs) (hb : Blanks blanks) :
    Read real (.items [x]) (cs ++ blanks ++ [']']) := by
  obtain ⟨hbegins, hread⟩ := h
  refine ⟨(hbegins.append blanks).append [']'], fun n rest hn => ?_⟩
  simp only [List.length_append, List.length_cons, List.length_nil] at hn
  obtain ⟨n, rfl⟩ : ∃ m, n = m + 1 := ⟨n - 1, by omega⟩
  have hvalue := hread n (blanks ++ ']' :: rest) (by omega) (ends_blanks hb (by simp) rest)
  have hskip : skip (blanks ++ ']' :: rest) = ']' :: rest := (skip_blanks hb _).trans (skip_of_not_blank (by decide) rest)
  simp [scanItems, hvalue, hskip]

theorem read_item {before after more : List Char} {x : Json} {xs : List Json} (h : Read real (.value x) cs)
    (hb : Blanks before) (ha : Blanks after) (hs : Read real (.items xs) more) :
    Read real (.items (x :: xs)) (cs ++ before ++ ',' :: after ++ more) := by
  obtain ⟨hbegins, hread⟩ := h
  obtain ⟨hmore, hitems⟩ := hs
  refine ⟨?_, fun n rest hn => ?_⟩
  · simp only [List.append_assoc]
    exact hbegins.append _
  simp only [List.length_append, List.length_cons] at hn
  obtain ⟨n, rfl⟩ : ∃ m, n = m + 1 := ⟨n - 1, by omega⟩
  have hvalue := hread n (before ++ ',' :: (after ++ (more ++ rest))) (by omega) (ends_blanks hb (by simp) _)
  have hcomma : skip (before ++ ',' :: (after ++ (more ++ rest))) = ',' :: (after ++ (more ++ rest)) :=
    (skip_blanks hb _).trans (skip_of_not_blank (by decide) _)
  have hnext : skip (after ++ (more ++ rest)) = more ++ rest :=
    (skip_blanks ha _).trans (skip_begins (hmore.append rest))
  simp [scanItems, hvalue, hcomma, hnext, hitems n rest (by omega)]

theorem read_field {key before after : List Char} {k : List Char} {x : Json} (hk : SpellsText k key)
    (hb : Blanks before) (ha : Blanks after) (h : Read real (.value x) cs) :
    Read real (.field (String.ofList k) x) (key ++ '"' :: before ++ ':' :: after ++ cs) := by
  obtain ⟨hbegins, hread⟩ := h
  intro n rest hn hr
  simp only [List.length_append, List.length_cons] at hn
  have hstring := scanString_spelled hk (n := n) (by omega) (before ++ ':' :: (after ++ (cs ++ rest)))
  have hnext : skip (after ++ (cs ++ rest)) = cs ++ rest :=
    (skip_blanks ha _).trans (skip_begins (hbegins.append rest))
  refine ⟨before ++ ':' :: (after ++ (cs ++ rest)), after ++ (cs ++ rest), ?_, ?_, ?_⟩
  · simpa using hstring
  · exact (skip_blanks hb _).trans (skip_of_not_blank (by decide) _)
  · rw [hnext]
    exact hread n rest (by omega) hr

theorem read_lastField {blanks : List Char} {k : String} {x : Json} (h : Read real (.field k x) cs) (hb : Blanks blanks) :
    Read real (.fields [(k, x)]) ('"' :: cs ++ blanks ++ ['}']) := by
  refine ⟨cs ++ (blanks ++ ['}']), by simp, fun n rest hn => ?_⟩
  simp only [List.length_append, List.length_cons, List.length_nil] at hn
  obtain ⟨n, rfl⟩ : ∃ m, n = m + 1 := ⟨n - 1, by omega⟩
  obtain ⟨left, right, hkey, hcolon, hvalue⟩ := h n (blanks ++ '}' :: rest) (by omega) (ends_blanks hb (by simp) rest)
  have hskip : skip (blanks ++ '}' :: rest) = '}' :: rest := (skip_blanks hb _).trans (skip_of_not_blank (by decide) rest)
  simp [scanFields, hkey, hcolon, hvalue, hskip]

theorem read_moreFields {before after more : List Char} {k : String} {x : Json} {xs : Fields}
    (h : Read real (.field k x) cs) (hb : Blanks before) (ha : Blanks after) (hs : Read real (.fields xs) more) :
    Read real (.fields ((k, x) :: xs)) ('"' :: cs ++ before ++ ',' :: after ++ more) := by
  obtain ⟨tail, rfl, hfields⟩ := hs
  refine ⟨cs ++ (before ++ ',' :: (after ++ '"' :: tail)), by simp, fun n rest hn => ?_⟩
  simp only [List.length_append, List.length_cons] at hn
  obtain ⟨n, rfl⟩ : ∃ m, n = m + 1 := ⟨n - 1, by omega⟩
  obtain ⟨left, right, hkey, hcolon, hvalue⟩ := h n (before ++ ',' :: (after ++ '"' :: (tail ++ rest))) (by omega)
    (ends_blanks hb (by simp) _)
  have hcomma : skip (before ++ ',' :: (after ++ '"' :: (tail ++ rest))) = ',' :: (after ++ '"' :: (tail ++ rest)) :=
    (skip_blanks hb _).trans (skip_of_not_blank (by decide) _)
  have hquote : skip (after ++ '"' :: (tail ++ rest)) = '"' :: (tail ++ rest) :=
    (skip_blanks ha _).trans (skip_of_not_blank (by decide) _)
  simp [scanFields, hkey, hcolon, hvalue, hcomma, hquote, hfields n rest (by omega)]

theorem read_spelled {part : Part} (h : Spells real part cs) : Read real part cs := by
  induction h with
  | word x cs hmem =>
      refine ⟨begins_word hmem, fun n rest hn _ => ?_⟩
      obtain ⟨n, rfl⟩ := succ_of_begins (begins_word hmem) hn
      exact scan_word hmem rest
  | number x cs hnumber =>
      refine ⟨begins_number hnumber, fun n rest hn hr => ?_⟩
      obtain ⟨n, rfl⟩ := succ_of_begins (begins_number hnumber) hn
      exact scan_number hnumber hr
  | text s cs hs => exact read_text hs
  | noItems blanks hb => exact read_noItems hb
  | list xs blanks cs hb _ ih => exact read_list hb ih
  | noFields blanks hb => exact read_noFields hb
  | dict xs blanks cs hb _ ih => exact read_dict hb ih
  | lastItem x cs blanks _ hb ih => exact read_lastItem ih hb
  | item x xs cs before after more _ hb ha _ ih ihs => exact read_item ih hb ha ihs
  | field k x key before after cs hk hb ha _ ih => exact read_field hk hb ha ih
  | lastField k x cs blanks _ hb ih => exact read_lastField ih hb
  | moreFields k x xs cs before after more _ hb ha _ ih ihs => exact read_moreFields ih hb ha ihs

theorem parse_spelled {x : Json} (h : Spells real (.value x) cs) {before after : List Char} (hb : Blanks before)
    (ha : Blanks after) : parse real (before ++ cs ++ after) = some x := by
  obtain ⟨hbegins, hread⟩ := read_spelled h
  have hskip : skip (before ++ (cs ++ after)) = cs ++ after :=
    (skip_blanks hb _).trans (skip_begins (hbegins.append after))
  have hscan := hread (2 * (before ++ (cs ++ after)).length + 1) after (by simp only [List.length_append]; omega) ha.ends
  have hafter : skip after = [] := List.dropWhile_eq_nil_iff.2 ha
  rw [List.append_assoc, parse, hskip, hscan]
  simp [hafter]

end Reading

end CodeZard.Spellings
