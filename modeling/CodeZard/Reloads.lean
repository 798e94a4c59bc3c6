import CodeZard.Spellings

namespace CodeZard.Reloads

open RunLogs Values Documents Columns Percents JsonTexts Spellings

section Strings

variable {n : Nat}

theorem hexValue_digitChar (h : n < 16) : hexValue (Nat.digitChar n) = some n := by
  have hall : (List.range 16).all (fun n => hexValue (Nat.digitChar n) = some n) = true := by decide
  exact of_decide_eq_true (List.all_eq_true.1 hall n (List.mem_range.2 h))

theorem unicodeAt_hex (h : n < 0x10000) : unicodeAt (hex n) = some (n, []) := by
  have hdigit (k : Nat) : hexValue (Nat.digitChar (k % 16)) = some (k % 16) := hexValue_digitChar (Nat.mod_lt k (by decide))
  have hvalue : ((n / 4096 % 16 * 16 + n / 256 % 16) * 16 + n / 16 % 16) * 16 + n % 16 = n := by omega
  simp [hex, unicodeAt, hdigit, hvalue]

theorem high_unit (h : n < 0x400) : high (0xd800 + n) = true := by
  simp only [high, Bool.and_eq_true, decide_eq_true_eq]
  omega

theorem low_unit (h : n < 0x400) : low (0xdc00 + n) = true := by
  simp only [low, Bool.and_eq_true, decide_eq_true_eq]
  omega

theorem joined_units {c : Char} (h : 0x10000 ≤ c.toNat) :
    joined (0xd800 + (c.toNat - 0x10000) / 0x400) (0xdc00 + (c.toNat - 0x10000) % 0x400) = c := by
  have hvalue (k : Nat) (hk : 0x10000 ≤ k) : 0x10000 + (0xd800 + (k - 0x10000) / 0x400 - 0xd800) * 0x400 +
      (0xdc00 + (k - 0x10000) % 0x400 - 0xdc00) = k := by omega
  rw [joined, hvalue c.toNat h, Char.ofNat_toNat]

theorem spells_utf16 (c : Char) : SpellsChar c (Documents.utf16 c) := by
  simp only [Documents.utf16]
  split
  · rename_i hsmall
    exact .unit (hex c.toNat) (unicodeAt_hex hsmall)
  · rename_i hlarge
    have hmax : c.toNat < 0x110000 := by
      have hvalid : c.toNat < 0xd800 ∨ 0xdfff < c.toNat ∧ c.toNat < 0x110000 := c.valid
      omega
    have hfirst : (c.toNat - 0x10000) / 0x400 < 0x400 := by omega
    have hsecond : (c.toNat - 0x10000) % 0x400 < 0x400 := by omega
    have hjoined := joined_units (not_lt.1 hlarge)
    generalize (c.toNat - 0x10000) / 0x400 = n at hfirst hjoined ⊢
    generalize (c.toNat - 0x10000) % 0x400 = m at hsecond hjoined ⊢
    exact .pair (hex (0xd800 + n)) (hex (0xdc00 + m)) _ _ (unicodeAt_hex (by omega)) (high_unit hfirst)
      (unicodeAt_hex (by omega)) (low_unit hsecond) hjoined

theorem spells_escaped (c : Char) : SpellsChar c (escaped c) := by
  have hcontrol (code : Nat) (e : Char) (hc : c.toNat = code) (he : escapeOf e = some (Char.ofNat code)) :
      SpellsChar c ['\\', e] := by
    apply SpellsChar.short
    rw [he, ← hc, Char.ofNat_toNat]
  unfold escaped
  split
  · rename_i hc
    apply SpellsChar.short
    rcases hc with rfl | rfl <;> rfl
  split
  · exact hcontrol 0x8 'b' ‹_› rfl
  split
  · exact hcontrol 0x9 't' ‹_› rfl
  split
  · exact hcontrol 0xa 'n' ‹_› rfl
  split
  · exact hcontrol 0xc 'f' ‹_› rfl
  split
  · exact hcontrol 0xd 'r' ‹_› rfl
  split
  · exact spells_utf16 c
  · rename_i hq _ _ _ _ _ hrange
    exact .plain (not_lt.1 fun h => hrange (.inl h)) (fun h => hq (.inl h)) fun h => hq (.inr h)

theorem spells_flatMap (s : List Char) : SpellsText s (s.flatMap escaped) := by
  induction s with
  | nil => exact .nil
  | cons c s ih => exact .cons c s (escaped c) _ (spells_escaped c) ih

theorem spells_quoted (real : Floats) (s : String) : Spells real (.value (.str s)) (quoted s) := by
  have h : Spells real (.value (.str (String.ofList s.toList))) (quoted s) := .text s.toList _ (spells_flatMap s.toList)
  rw [String.ofList_toList] at h
  exact h

end Strings

section Numbers

variable {cs : List Char} {real : Floats}

theorem toDigits_cases (n : Nat) : Nat.toDigits 10 n = ['0'] ∨ ∃ c cs, Nat.toDigits 10 n = c :: cs ∧ c ≠ '0' := by
  induction n using Nat.strong_induction_on with
  | _ n ih =>
      by_cases hn : n < 10
      · rw [Nat.toDigits_of_lt_base hn]
        have hall : (List.range 10).all (fun n => n.digitChar = '0' ↔ n = 0) = true := by decide
        have hzero : n.digitChar = '0' ↔ n = 0 :=
          of_decide_eq_true (List.all_eq_true.1 hall n (List.mem_range.2 hn))
        by_cases h : n = 0
        · rw [h]
          exact .inl rfl
        · exact .inr ⟨_, _, rfl, mt hzero.1 h⟩
      · rw [Nat.toDigits_of_base_le (by decide) (not_lt.1 hn)]
        rcases ih (n / 10) (by omega) with h | ⟨c, cs, h, hc⟩
        · have hvalue : Nat.ofDigitChars 10 (Nat.toDigits 10 (n / 10)) 0 = n / 10 := Nat.ofDigitChars_ten_toDigits
          rw [h] at hvalue
          have hzero : n / 10 = 0 := hvalue.symm
          omega
        · exact .inr ⟨c, cs ++ [(n % 10).digitChar], by rw [h]; rfl, hc⟩

theorem scanWhole_toDigits (n : Nat) : scanWhole (Nat.toDigits 10 n) = some (Nat.toDigits 10 n, []) := by
  have hdigits : ∀ c ∈ Nat.toDigits 10 n, c.isDigit = true := fun c hc =>
    Nat.isDigit_of_mem_toDigits (by decide) (by decide) hc
  rcases toDigits_cases n with hn | ⟨c, cs, hn, hc⟩
  · rw [hn]
    rfl
  · rw [hn] at hdigits ⊢
    have hrest : ∀ c ∈ cs, c.isDigit = true := fun c hc => hdigits c (List.mem_cons_of_mem _ hc)
    have htake : cs.takeWhile Char.isDigit = cs := List.takeWhile_eq_self_iff.2 hrest
    have hdrop : cs.dropWhile Char.isDigit = [] := List.dropWhile_eq_nil_iff.2 hrest
    simp [scanWhole, hc, hdigits c List.mem_cons_self, htake, hdrop]

theorem scanUnsigned_toDigits (real : Floats) (sign : List Char) {n : Nat} (hn : (Nat.toDigits 10 n).length ≤ 4300) :
    scanUnsigned real sign (Nat.toDigits 10 n) = some (.int (Decimals.signed (sign ≠ []) n), []) := by
  have hfraction : scanFraction [] = ([], []) := rfl
  have hexponent : scanExponent [] = ([], []) := rfl
  simp [scanUnsigned, scanWhole_toDigits, hfraction, hexponent, hn, Nat.ofDigitChars_ten_toDigits]

theorem scanNumber_int (real : Floats) {n : Int} (hn : (Nat.toDigits 10 n.natAbs).length ≤ 4300) :
    scanNumber real (toString n).toList = some (.int n, []) := by
  cases n with
  | ofNat n =>
      have htext : (toString (Int.ofNat n)).toList = Nat.toDigits 10 n := by
        simp [toString, Int.repr, Nat.repr]
      have hread := scanUnsigned_toDigits real [] hn
      rw [htext]
      rcases toDigits_cases n with h | ⟨c, cs, h, -⟩
      · have hd : (Int.ofNat n).natAbs = n := rfl
        rw [hd, h] at hread
        rw [h]
        exact hread
      · have hd : (Int.ofNat n).natAbs = n := rfl
        have hminus : c ≠ '-' := by
          have hdigit : c.isDigit = true :=
            Nat.isDigit_of_mem_toDigits (b := 10) (n := n) (by decide) (by decide) (h ▸ List.mem_cons_self)
          rintro rfl
          exact absurd hdigit (by decide)
        rw [hd, h] at hread
        rw [h, scanNumber, if_neg hminus]
        exact hread
  | negSucc n =>
      have htext : (toString (Int.negSucc n)).toList = '-' :: Nat.toDigits 10 (n + 1) := by
        simp [toString, Int.repr, Nat.repr]
      have hread := scanUnsigned_toDigits real ['-'] hn
      rw [htext, scanNumber, if_pos rfl]
      exact hread

end Numbers

section Values

variable {real : Floats} {comma colon : List Char}

/-- A float that is read back from how it is written. -/
def Written (real : Floats) (x : Values.Real) : Prop :=
  scanNumber real x.text.toList = some (.float x, []) ∨ x = nan ∨ x = infinity false ∨ x = infinity true

mutual

/-- What `json.loads` reads back from what `json.dumps` writes: the keys of an
object differ, and a number has no more digits than `int` reads. -/
def Legible (real : Floats) : Json → Prop
  | .int n => (Nat.toDigits 10 n.natAbs).length ≤ 4300
  | .float x => Written real x
  | .list items => LegibleItems real items
  | .dict fields => (fields.map Prod.fst).Nodup ∧ LegibleFields real fields
  | _ => True

def LegibleItems (real : Floats) : List Json → Prop
  | [] => True
  | x :: xs => Legible real x ∧ LegibleItems real xs

def LegibleFields (real : Floats) : List (String × Json) → Prop
  | [] => True
  | (_, x) :: xs => Legible real x ∧ LegibleFields real xs

end

theorem number_of_scan {x : Values.Real} {found : Json × List Char}
    (h : scanNumber real x.text.toList = some found) : number x = x.text := by
  have hne : ∀ word : String, scanNumber real word.toList = none → x.text ≠ word := by
    intro word hword htext
    rw [htext, hword] at h
    cases h
  rw [number, if_neg (hne _ rfl), if_neg (hne _ rfl), if_neg (hne _ rfl)]

theorem spells_float {x : Values.Real} (h : Written real x) : Spells real (.value (.float x)) (number x).toList := by
  rcases h with h | rfl | rfl | rfl
  · rw [number_of_scan h]
    exact .number _ _ h
  · have htext : number nan = "NaN" := by decide
    exact .word _ _ (by simp [words, htext])
  · have htext : number (infinity false) = "Infinity" := by decide
    exact .word _ _ (by simp [words, htext])
  · have htext : number (infinity true) = "-Infinity" := by decide
    exact .word _ _ (by simp [words, htext])

theorem dictOf_nodup {fields : Fields} (h : (fields.map Prod.fst).Nodup) : dictOf fields = fields := by
  have hfold : ∀ d : Fields, (Dict.keys (d ++ fields)).Nodup →
      fields.foldl (fun d x => Dict.set d x.1 x.2) d = d ++ fields := by
    induction fields with
    | nil =>
        intro d _
        exact (List.append_nil d).symm
    | cons x fields ih =>
        intro d hd
        have hx : x.1 ∉ Dict.keys d := by
          rw [Dict.keys, List.map_append, List.map_cons] at hd
          exact fun hmem => (List.nodup_append.1 hd).2.2 x.1 hmem x.1 List.mem_cons_self rfl
        have happend : d ++ x :: fields = d ++ [(x.1, x.2)] ++ fields := by simp
        rw [List.foldl_cons, set_of_not_mem hx, happend]
        exact ih (List.nodup_cons.1 h).2 _ (happend ▸ hd)
  exact hfold [] h

theorem intercalate_cons (x : List Char) (xs : List (List Char)) :
    List.intercalate comma (x :: xs) = x ++ if xs = [] then [] else comma ++ List.intercalate comma xs := by
  cases xs with
  | nil => simp
  | cons y ys => simp [List.append_assoc]

theorem spells_field {k : String} {x : Json} {cs : List Char} (hcolon : Blanks colon) (h : Spells real (.value x) cs) :
    ∃ tail, quoted k ++ ':' :: colon ++ cs = '"' :: tail ∧ Spells real (.field k x) tail := by
  have hfield := Spells.field k.toList x _ [] colon cs (spells_flatMap k.toList) (by simp [Blanks]) hcolon h
  rw [String.ofList_toList] at hfield
  refine ⟨_, ?_, hfield⟩
  simp [quoted, Json.double]

mutual

theorem spells_dumped (hcomma : Blanks comma) (hcolon : Blanks colon) (value : Json) (h : Legible real value) :
    Spells real (.value value) (dumped (',' :: comma) (':' :: colon) value) := by
  have hnone : Blanks [] := by simp [Blanks]
  cases value with
  | null => exact .word _ _ (by simp [words, dumped])
  | bool b => cases b <;> exact .word _ _ (by simp [words, dumped])
  | int n => exact .number _ _ (scanNumber_int real h)
  | float x => exact spells_float h
  | str s => exact spells_quoted real s
  | list items =>
      rw [dumped]
      cases items with
      | nil => exact .noItems [] hnone
      | cons x xs => exact .list _ [] _ hnone (spells_items hcomma hcolon (x :: xs) (List.cons_ne_nil x xs) h)
  | dict fields =>
      rw [dumped]
      cases fields with
      | nil => exact .noFields [] hnone
      | cons x xs =>
          have hdict := Spells.dict _ [] _ hnone (spells_fields hcomma hcolon (x :: xs) (List.cons_ne_nil x xs) h.2)
          rw [dictOf_nodup h.1] at hdict
          exact hdict

theorem spells_items (hcomma : Blanks comma) (hcolon : Blanks colon) (items : List Json) (hne : items ≠ [])
    (h : LegibleItems real items) : Spells real (.items items)
      (List.intercalate (',' :: comma) (dumpedItems (',' :: comma) (':' :: colon) items) ++ [']']) := by
  cases items with
  | nil => exact absurd rfl hne
  | cons x xs =>
      have hx := spells_dumped hcomma hcolon x h.1
      rw [dumpedItems, intercalate_cons]
      cases xs with
      | nil => simpa [dumpedItems, Blanks] using Spells.lastItem x _ [] hx (by simp [Blanks])
      | cons y ys =>
          have hmore := spells_items hcomma hcolon (y :: ys) (List.cons_ne_nil y ys) h.2
          have hitem := Spells.item x _ _ [] comma _ hx (by simp [Blanks]) hcomma hmore
          rw [if_neg (by simp [dumpedItems])]
          simpa using hitem

theorem spells_fields (hcomma : Blanks comma) (hcolon : Blanks colon) (fields : List (String × Json)) (hne : fields ≠ [])
    (h : LegibleFields real fields) : Spells real (.fields fields)
      (List.intercalate (',' :: comma) (dumpedFields (',' :: comma) (':' :: colon) fields) ++ ['}']) := by
  match fields with
  | [] => exact absurd rfl hne
  | (k, x) :: xs =>
      obtain ⟨tail, htail, hfield⟩ := spells_field (k := k) hcolon (spells_dumped hcomma hcolon x h.1)
      rw [dumpedFields, intercalate_cons, htail]
      cases xs with
      | nil => simpa [dumpedFields, Blanks] using Spells.lastField k x _ [] hfield (by simp [Blanks])
      | cons y ys =>
          have hmore := spells_fields hcomma hcolon (y :: ys) (List.cons_ne_nil y ys) h.2
          have hfields := Spells.moreFields k x _ _ [] comma _ hfield (by simp [Blanks]) hcomma hmore
          rw [if_neg (by simp [dumpedFields])]
          simpa using hfields

end

end Values

section Bytes

variable {real : Floats} {cs : List Char}

def Printable (c : Char) : Prop := 0x20 ≤ c.toNat ∧ c.toNat < 0x7f

instance (c : Char) : Decidable (Printable c) := inferInstanceAs (Decidable (0x20 ≤ c.toNat ∧ c.toNat < 0x7f))

theorem printable_digit {c : Char} (h : c.isDigit = true) : Printable c := by
  simp only [Char.isDigit, Bool.and_eq_true, decide_eq_true_eq] at h
  have hlow : 48 ≤ c.toNat := h.1
  have hhigh : c.toNat ≤ 57 := h.2
  constructor <;> omega

theorem printable_takeWhile (cs : List Char) : ∀ c ∈ cs.takeWhile Char.isDigit, Printable c :=
  fun _ hc => printable_digit (List.mem_takeWhile_imp hc)

theorem scanWhole_spec {cs : List Char} {found : List Char × List Char} (h : scanWhole cs = some found) :
    cs = found.1 ++ found.2 ∧ ∀ c ∈ found.1, Printable c := by
  cases cs with
  | nil => cases h
  | cons c cs =>
      rw [scanWhole] at h
      split at h
      · rename_i hc
        cases h
        refine ⟨rfl, ?_⟩
        rw [List.forall_mem_singleton, hc]
        decide
      split at h
      · rename_i hc
        cases h
        refine ⟨by simp, ?_⟩
        rw [List.forall_mem_cons]
        exact ⟨printable_digit hc, printable_takeWhile cs⟩
      · cases h

theorem scanFraction_spec (cs : List Char) :
    cs = (scanFraction cs).1 ++ (scanFraction cs).2 ∧ ∀ c ∈ (scanFraction cs).1, Printable c := by
  match cs with
  | [] => exact ⟨rfl, by simp [scanFraction]⟩
  | [_] => exact ⟨rfl, by simp [scanFraction]⟩
  | p :: d :: cs =>
      rw [scanFraction]
      split
      · rename_i h
        refine ⟨by simp, ?_⟩
        simp only [List.forall_mem_cons]
        refine ⟨?_, printable_digit h.2, printable_takeWhile cs⟩
        rw [h.1]
        decide
      · exact ⟨rfl, by simp⟩

theorem scanSign_spec (cs : List Char) :
    cs = (scanSign cs).1 ++ (scanSign cs).2 ∧ ∀ c ∈ (scanSign cs).1, Printable c := by
  match cs with
  | [] => exact ⟨rfl, by simp [scanSign]⟩
  | s :: cs =>
      rw [scanSign]
      split
      · rename_i h
        refine ⟨rfl, ?_⟩
        rw [List.forall_mem_singleton]
        rcases h with rfl | rfl <;> decide
      · exact ⟨rfl, by simp⟩

theorem scanExponent_spec (cs : List Char) :
    cs = (scanExponent cs).1 ++ (scanExponent cs).2 ∧ ∀ c ∈ (scanExponent cs).1, Printable c := by
  match cs with
  | [] => exact ⟨rfl, by simp [scanExponent]⟩
  | e :: cs =>
      obtain ⟨hcs, hsign⟩ := scanSign_spec cs
      rw [scanExponent]
      split
      · rename_i h
        constructor
        · simp only [List.cons_append, List.append_assoc, List.takeWhile_append_dropWhile]
          exact congrArg _ hcs
        · rw [List.cons_append, List.forall_mem_cons]
          constructor
          · rcases h.1 with rfl | rfl <;> decide
          · intro c hc
            rw [List.mem_append] at hc
            exact hc.elim (hsign c) (printable_takeWhile _ c)
      · exact ⟨rfl, by simp⟩

theorem scanUnsigned_spec {sign cs : List Char} {found : Json × List Char}
    (h : scanUnsigned real sign cs = some found) : ∃ used, cs = used ++ found.2 ∧ ∀ c ∈ used, Printable c := by
  obtain ⟨⟨whole, rest⟩, hwhole, h⟩ := Option.bind_eq_some_iff.1 h
  obtain ⟨hcs, hprintable⟩ := scanWhole_spec hwhole
  obtain ⟨hrest, hfraction⟩ := scanFraction_spec rest
  obtain ⟨hleft, hexponent⟩ := scanExponent_spec (scanFraction rest).2
  have hfound : found.2 = (scanExponent (scanFraction rest).2).2 := by
    simp only at h
    split at h
    · split at h
      · cases h
      · cases h
        rfl
    · cases h
      rfl
  refine ⟨whole ++ ((scanFraction rest).1 ++ (scanExponent (scanFraction rest).2).1), ?_, ?_⟩
  · rw [hfound, List.append_assoc, List.append_assoc, ← hleft, ← hrest]
    exact hcs
  · intro c hc
    rw [List.mem_append, List.mem_append] at hc
    exact hc.elim (hprintable c) fun hc => hc.elim (hfraction c) (hexponent c)

theorem printable_number {cs : List Char} {value : Json} (h : scanNumber real cs = some (value, [])) :
    ∀ c ∈ cs, Printable c := by
  cases cs with
  | nil => simp
  | cons c cs =>
      simp only [scanNumber] at h
      split at h
      · rename_i hc
        obtain ⟨used, rfl, hused⟩ := scanUnsigned_spec h
        rw [List.append_nil, List.forall_mem_cons, hc]
        exact ⟨by decide, hused⟩
      · obtain ⟨used, hcs, hused⟩ := scanUnsigned_spec h
        rw [hcs, List.append_nil]
        exact hused

def Plain (cs : List Char) : Prop := ∀ c ∈ cs, c.toNat ≠ 0

theorem plain_append {left right : List Char} : Plain (left ++ right) ↔ Plain left ∧ Plain right := List.forall_mem_append

theorem plain_cons {c : Char} : Plain (c :: cs) ↔ c.toNat ≠ 0 ∧ Plain cs := List.forall_mem_cons

theorem plain_nil : Plain [] := by simp [Plain]

theorem plain_printable (h : ∀ c ∈ cs, Printable c) : Plain cs := by
  intro c hc
  have hlow := (h c hc).1
  omega

theorem plain_blanks (h : Blanks cs) : Plain cs := by
  intro c hc
  have hblank := h c hc
  simp only [blank, Bool.or_eq_true, decide_eq_true_eq] at hblank
  rcases hblank with ((rfl | rfl) | rfl) | rfl <;> decide

theorem plain_hex {c : Char} {n : Nat} (h : hexValue c = some n) : c.toNat ≠ 0 := by
  intro hzero
  have hc : c = Char.ofNat 0 := by rw [← hzero, Char.ofNat_toNat]
  rw [hc] at h
  cases h

theorem plain_unicodeAt {n : Nat} (h : unicodeAt cs = some (n, [])) : Plain cs := by
  match cs with
  | [] => cases h
  | [_] => cases h
  | [_, _] => cases h
  | [_, _, _] => cases h
  | w :: x :: y :: z :: left =>
      simp only [unicodeAt, Option.bind_eq_bind, Option.bind_eq_some_iff] at h
      obtain ⟨_, hw, _, hx, _, hy, _, hz, h⟩ := h
      cases h
      simp only [plain_cons]
      exact ⟨plain_hex hw, plain_hex hx, plain_hex hy, plain_hex hz, plain_nil⟩

theorem plain_char {c : Char} (h : SpellsChar c cs) : Plain cs := by
  cases h with
  | plain hlarge _ _ =>
      rw [plain_cons]
      exact ⟨by omega, plain_nil⟩
  | short e he =>
      simp only [plain_cons]
      refine ⟨by decide, ?_, plain_nil⟩
      intro hzero
      have hnul : e = Char.ofNat 0 := by rw [← hzero, Char.ofNat_toNat]
      rw [hnul] at he
      cases he
  | unit digits hdigits =>
      simp only [plain_cons]
      exact ⟨by decide, by decide, plain_unicodeAt hdigits⟩
  | pair first second n m hfirst _ hsecond _ _ =>
      simp only [plain_append, plain_cons]
      exact ⟨⟨by decide, by decide, plain_unicodeAt hfirst⟩, by decide, by decide, plain_unicodeAt hsecond⟩

theorem plain_text {s : List Char} (h : SpellsText s cs) : Plain cs := by
  induction h with
  | nil => exact plain_nil
  | cons c s head tail hc _ ih => exact plain_append.2 ⟨plain_char hc, ih⟩

theorem plain_word {x : Json} (h : (cs, x) ∈ words) : Plain cs := by
  simp only [words, List.mem_cons, Prod.mk.injEq, List.not_mem_nil, or_false] at h
  rcases h with ⟨rfl, _⟩ | ⟨rfl, _⟩ | ⟨rfl, _⟩ | ⟨rfl, _⟩ | ⟨rfl, _⟩ | ⟨rfl, _⟩ <;> simp [Plain]

theorem plain_spelled {part : Part} (h : Spells real part cs) : Plain cs := by
  induction h with
  | word x cs hmem => exact plain_word hmem
  | number x cs hnumber => exact plain_printable (printable_number hnumber)
  | text s cs hs => simp [plain_append, plain_cons, plain_nil, plain_text hs]
  | noItems blanks hb => simp [plain_append, plain_cons, plain_nil, plain_blanks hb]
  | list xs blanks cs hb _ ih => simp [plain_append, plain_cons, plain_blanks hb, ih]
  | noFields blanks hb => simp [plain_append, plain_cons, plain_nil, plain_blanks hb]
  | dict xs blanks cs hb _ ih => simp [plain_append, plain_cons, plain_blanks hb, ih]
  | lastItem x cs blanks _ hb ih => simp [plain_append, plain_cons, plain_nil, plain_blanks hb, ih]
  | item x xs cs before after more _ hb ha _ ih ihs =>
      simp [plain_append, plain_cons, plain_blanks hb, plain_blanks ha, ih, ihs]
  | field k x key before after cs hk hb ha _ ih =>
      simp [plain_append, plain_cons, plain_text hk, plain_blanks hb, plain_blanks ha, ih]
  | lastField k x cs blanks _ hb ih => simp [plain_append, plain_cons, plain_nil, plain_blanks hb, ih]
  | moreFields k x xs cs before after more _ hb ha _ ih ihs =>
      simp [plain_append, plain_cons, plain_blanks hb, plain_blanks ha, ih, ihs]

theorem readUtf8_encoded (cs : List Char) : readUtf8 (encoded cs) = some cs := by
  have hencode : (encoded cs).toByteArray = cs.utf8Encode := rfl
  rw [readUtf8, hencode, List.utf8Decode?_utf8Encode]
  rfl

theorem encoded_ne_zero (h : Plain cs) : ∀ b ∈ encoded cs, b ≠ 0 := by
  intro b hb
  obtain ⟨c, hc, hb⟩ := List.mem_flatMap.1 hb
  have hne : c.val.toNat ≠ 0 := h c hc
  have hofNat : ∀ n : Nat, n ≠ 0 → n < 256 → UInt8.ofNat n ≠ 0 := by
    intro n hn hlt hzero
    have hvalue := congrArg UInt8.toNat hzero
    rw [UInt8.toNat_ofNat', Nat.mod_eq_of_lt hlt] at hvalue
    exact hn hvalue
  unfold String.utf8EncodeChar at hb
  dsimp only at hb
  split at hb
  · rw [List.mem_singleton] at hb
    rw [hb]
    exact hofNat _ hne (by omega)
  split at hb
  · simp only [List.mem_cons, List.not_mem_nil, or_false] at hb
    rcases hb with rfl | rfl <;> exact hofNat _ (by omega) (by omega)
  split at hb
  · simp only [List.mem_cons, List.not_mem_nil, or_false] at hb
    rcases hb with rfl | rfl | rfl <;> exact hofNat _ (by omega) (by omega)
  · simp only [List.mem_cons, List.not_mem_nil, or_false] at hb
    rcases hb with rfl | rfl | rfl | rfl <;> exact hofNat _ (by omega) (by omega)

theorem decoded_encoded {c : Char} (hc : c.toNat < 0x80) (h : Plain (c :: cs)) :
    decoded (encoded (c :: cs)) = some (c :: cs) := by
  have hzero := encoded_ne_zero h
  have hone : String.utf8EncodeChar c = [UInt8.ofNat c.toNat] := by
    have hsmall : c.val.toNat ≤ 127 := Nat.le_of_lt_succ hc
    unfold String.utf8EncodeChar
    simp only [hsmall, if_true]
    rfl
  have hbytes : encoded (c :: cs) = UInt8.ofNat c.toNat :: encoded cs := by
    rw [encoded, List.flatMap_cons, hone]
    rfl
  have hvalue : (UInt8.ofNat c.toNat).toNat = c.toNat := by
    rw [UInt8.toNat_ofNat', Nat.mod_eq_of_lt (by omega)]
  rw [← readUtf8_encoded (c :: cs)]
  rw [hbytes] at hzero ⊢
  generalize UInt8.ofNat c.toNat = a at hzero hvalue
  generalize encoded cs = bs at hzero
  have hmark : ∀ b mark, (b.toNat < 0x80 → b = 0) → ¬ (b :: mark) <+: a :: bs := by
    intro b mark hb hbegins
    obtain rfl := (List.cons_prefix_cons.1 hbegins).1
    exact hzero b List.mem_cons_self (hb (by omega))
  unfold decoded
  rw [if_neg (hmark 0 _ (by decide)), if_neg (hmark 0xff _ (by decide)), if_neg (hmark 0xfe _ (by decide)),
    if_neg (hmark 0xff _ (by decide)), if_neg (hmark 0xef _ (by decide))]
  rcases bs with _ | ⟨b, _ | ⟨d, _ | ⟨e, rest⟩⟩⟩
  · rfl
  · simp only [List.forall_mem_cons] at hzero
    exact (if_neg hzero.1).trans (if_neg hzero.2.1)
  · rfl
  · simp only [List.forall_mem_cons] at hzero
    exact (if_neg hzero.1).trans (if_neg hzero.2.1)

theorem loads_spelled {x : Json} (h : Spells real (.value x) cs) {before after : List Char} (hb : Blanks before)
    (ha : Blanks after) : loads real (encoded (before ++ cs ++ after)) = some x := by
  have hplain : Plain (before ++ cs ++ after) :=
    plain_append.2 ⟨plain_append.2 ⟨plain_blanks hb, plain_spelled h⟩, plain_blanks ha⟩
  have hhead : ∃ c rest, before ++ cs ++ after = c :: rest ∧ c.toNat < 0x80 := by
    cases before with
    | nil =>
        obtain ⟨c, rest, rfl, -, -, hc⟩ := (read_spelled h).1
        exact ⟨c, rest ++ after, rfl, hc⟩
    | cons c rest =>
        have hblank := hb c List.mem_cons_self
        refine ⟨c, rest ++ cs ++ after, rfl, ?_⟩
        simp only [blank, Bool.or_eq_true, decide_eq_true_eq] at hblank
        rcases hblank with ((rfl | rfl) | rfl) | rfl <;> decide
  obtain ⟨c, rest, htext, hc⟩ := hhead
  have hparse := parse_spelled h hb ha
  rw [htext] at hplain hparse ⊢
  rw [loads, decoded_encoded hc hplain, Option.bind_some, hparse]

theorem loads_encoded {comma colon : List Char} (hcomma : Blanks comma) (hcolon : Blanks colon) {value : Json}
    (h : Legible real value) : loads real (encoded (dumped (',' :: comma) (':' :: colon) value)) = some value := by
  have hnone : Blanks [] := by simp [Blanks]
  have hread := loads_spelled (spells_dumped hcomma hcolon value h) hnone hnone
  simpa using hread

theorem loads_dumps {value : Json} (h : Legible real value) : loads real (dumps value) = some value :=
  loads_encoded (by simp [Blanks, blank]) (by simp [Blanks, blank]) h

theorem loads_compact {claims : Fields} (h : Legible real (.dict (claims.insertionSort fun x y => x.1 ≤ y.1))) :
    loads real (compact claims) = some (.dict (claims.insertionSort fun x y => x.1 ≤ y.1)) :=
  loads_encoded (by simp [Blanks]) (by simp [Blanks]) h

end Bytes

section Legibility

variable {real : Floats} {n : Nat} {cs rest : List Char} {value : Json} {items : List Json} {fields : Fields}

/-- Every float that a text stands for is read back from how it is written. -/
def Faithful (real : Floats) : Prop :=
  ∀ {cs : List Char} {x : Values.Real} {rest : List Char}, scanNumber real cs = some (.float x, rest) → Written real x

theorem legibleFields_iff : LegibleFields real fields ↔ ∀ x ∈ fields, Legible real x.2 := by
  induction fields with
  | nil => exact ⟨fun _ x hx => (List.not_mem_nil hx).elim, fun _ => trivial⟩
  | cons x xs ih =>
      obtain ⟨k, value⟩ := x
      rw [LegibleFields, List.forall_mem_cons, ih]

theorem legible_dictOf (h : LegibleFields real fields) : Legible real (.dict (dictOf fields)) := by
  have hfold : ∀ d : Fields, (d.map Prod.fst).Nodup → LegibleFields real d →
      Legible real (.dict (fields.foldl (fun d x => Dict.set d x.1 x.2) d)) := by
    induction fields with
    | nil => exact fun d hd hv => ⟨hd, hv⟩
    | cons x xs ih =>
        obtain ⟨k, value⟩ := x
        intro d hd hv
        apply ih h.2 _ (Tables.nodup_upsert (fun _ _ _ => rfl) hd)
        rw [legibleFields_iff] at hv ⊢
        intro y hy
        rcases Tables.mem_upsert hy with hy | rfl | ⟨z, _, rfl⟩
        · exact hv y hy
        · exact h.1
        · exact h.1
  exact hfold [] List.nodup_nil trivial

theorem legible_word {found : Json × List Char} (h : scanWord cs = some found) : Legible real found.1 := by
  obtain ⟨⟨word, value⟩, hmem, h⟩ := List.exists_of_findSome?_eq_some h
  simp only at h
  split at h
  · cases h
    simp only [words, List.mem_cons, Prod.mk.injEq, List.not_mem_nil, or_false] at hmem
    rcases hmem with ⟨_, rfl⟩ | ⟨_, rfl⟩ | ⟨_, rfl⟩ | ⟨_, rfl⟩ | ⟨_, rfl⟩ | ⟨_, rfl⟩
    · trivial
    · trivial
    · trivial
    · exact .inr (.inl rfl)
    · exact .inr (.inr (.inl rfl))
    · exact .inr (.inr (.inr rfl))
  · cases h

theorem ofDigitChars_lt {digits : List Char} (h : ∀ c ∈ digits, c.isDigit = true) :
    Nat.ofDigitChars 10 digits 0 < 10 ^ digits.length := by
  induction digits with
  | nil => decide
  | cons c cs ih =>
      rw [List.forall_mem_cons] at h
      have hdigit : c.toNat - '0'.toNat ≤ 9 := by
        have hc := h.1
        simp only [Char.isDigit, Bool.and_eq_true, decide_eq_true_eq] at hc
        have hhigh : c.toNat ≤ 57 := hc.2
        have hzero : '0'.toNat = 48 := rfl
        omega
      have hrest := ih h.2
      rw [Nat.ofDigitChars_cons, Nat.ofDigitChars_eq_ofDigitChars_zero, List.length_cons, pow_succ]
      have hfirst : 10 ^ cs.length * (10 * 0 + (c.toNat - '0'.toNat)) ≤ 10 ^ cs.length * 9 :=
        Nat.mul_le_mul_left _ (by omega)
      omega

theorem length_ofDigitChars {digits : List Char} (hne : digits ≠ []) (h : ∀ c ∈ digits, c.isDigit = true) :
    (Nat.toDigits 10 (Nat.ofDigitChars 10 digits 0)).length ≤ digits.length :=
  (Nat.length_toDigits_le_iff (by decide) (List.length_pos_iff.2 hne)).2 (ofDigitChars_lt h)

theorem scanWhole_digits {found : List Char × List Char} (h : scanWhole cs = some found) :
    found.1 ≠ [] ∧ ∀ c ∈ found.1, c.isDigit = true := by
  cases cs with
  | nil => cases h
  | cons c cs =>
      rw [scanWhole] at h
      split at h
      · rename_i hc
        cases h
        refine ⟨List.cons_ne_nil _ _, ?_⟩
        rw [List.forall_mem_singleton, hc]
        rfl
      split at h
      · rename_i hc
        cases h
        refine ⟨List.cons_ne_nil _ _, ?_⟩
        rw [List.forall_mem_cons]
        exact ⟨hc, fun _ hd => List.mem_takeWhile_imp hd⟩
      · cases h

theorem legible_number (hf : Faithful real) {found : Json × List Char} (h : scanNumber real cs = some found) :
    Legible real found.1 := by
  have hunsigned {sign cs : List Char} (hs : scanUnsigned real sign cs = some found) :
      Legible real found.1 ∨ ∃ x, found.1 = .float x := by
    obtain ⟨⟨whole, rest⟩, hwhole, hs⟩ := Option.bind_eq_some_iff.1 hs
    obtain ⟨hne, hdigits⟩ := scanWhole_digits hwhole
    simp only at hs
    split at hs
    · split at hs
      · cases hs
      · rename_i hshort
        cases hs
        left
        have habs (negative : Bool) (n : Nat) : (Decimals.signed negative n).natAbs = n := by
          cases negative <;> simp [Decimals.signed]
        rw [Legible, habs]
        exact (length_ofDigitChars hne hdigits).trans (not_lt.1 hshort)
    · cases hs
      exact .inr ⟨_, rfl⟩
  have hcases : Legible real found.1 ∨ ∃ x, found.1 = .float x := by
    cases cs with
    | nil => cases h
    | cons c cs =>
        rw [scanNumber] at h
        split at h
        · exact hunsigned h
        · exact hunsigned h
  rcases hcases with hlegible | ⟨x, hx⟩
  · exact hlegible
  · obtain ⟨value, rest⟩ := found
    cases hx
    exact hf h

theorem legible_scan (hf : Faithful real) (n : Nat) :
    (∀ {cs value rest}, scan real n cs = some (value, rest) → Legible real value) ∧
      (∀ {cs items rest}, scanItems real n cs = some (items, rest) → LegibleItems real items) ∧
        ∀ {cs fields rest}, scanFields real n cs = some (fields, rest) → LegibleFields real fields := by
  induction n with
  | zero =>
      refine ⟨fun h => ?_, fun h => ?_, fun h => ?_⟩
      · simp [scan] at h
      · simp [scanItems] at h
      · simp [scanFields] at h
  | succ n ih =>
      obtain ⟨hscan, hitems, hfields⟩ := ih
      refine ⟨fun {cs value rest} h => ?_, fun {cs items rest} h => ?_, fun {cs fields rest} h => ?_⟩
      · cases cs with
        | nil => simp [scan] at h
        | cons c cs =>
            rw [scan] at h
            split at h
            · obtain ⟨⟨t, left⟩, _, h⟩ := Option.map_eq_some_iff.1 h
              cases h
              trivial
            split at h
            · split at h
              · cases h
              split at h
              · cases h
                exact ⟨List.nodup_nil, trivial⟩
              split at h
              · obtain ⟨⟨xs, left⟩, hxs, h⟩ := Option.map_eq_some_iff.1 h
                cases h
                exact legible_dictOf (hfields hxs)
              · cases h
            split at h
            · split at h
              · cases h
              split at h
              · cases h
                trivial
              · obtain ⟨⟨xs, left⟩, hxs, h⟩ := Option.map_eq_some_iff.1 h
                cases h
                exact hitems hxs
            · rcases Option.or_eq_some_iff.1 h with h | ⟨_, h⟩
              · exact legible_word h
              · exact legible_number hf h
      · rw [scanItems] at h
        obtain ⟨⟨x, left⟩, hx, h⟩ := Option.bind_eq_some_iff.1 h
        simp only at h
        split at h
        · cases h
        split at h
        · cases h
          exact ⟨hscan hx, trivial⟩
        split at h
        · obtain ⟨⟨xs, left'⟩, hxs, h⟩ := Option.map_eq_some_iff.1 h
          cases h
          exact ⟨hscan hx, hitems hxs⟩
        · cases h
      · rw [scanFields] at h
        obtain ⟨⟨k, left⟩, _, h⟩ := Option.bind_eq_some_iff.1 h
        simp only at h
        split at h
        · cases h
        split at h
        swap
        · cases h
        obtain ⟨⟨x, after⟩, hx, h⟩ := Option.bind_eq_some_iff.1 h
        simp only at h
        split at h
        · cases h
        split at h
        · cases h
          exact ⟨hscan hx, trivial⟩
        split at h
        swap
        · cases h
        split at h
        · cases h
        split at h
        · obtain ⟨⟨xs, left'⟩, hxs, h⟩ := Option.map_eq_some_iff.1 h
          cases h
          exact ⟨hscan hx, hfields hxs⟩
        · cases h

theorem legible_loads (hf : Faithful real) {data : Bytes} {value : Json} (h : loads real data = some value) :
    Legible real value := by
  obtain ⟨cs, _, h⟩ := Option.bind_eq_some_iff.1 h
  obtain ⟨⟨found, rest⟩, hscan, h⟩ := Option.bind_eq_some_iff.1 h
  simp only at h
  split at h
  · cases h
    exact (legible_scan hf _).1 hscan
  · cases h

end Legibility

end CodeZard.Reloads
