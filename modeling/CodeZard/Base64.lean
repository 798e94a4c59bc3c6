import CodeZard.Documents

namespace CodeZard.Base64

open RunLogs Documents

/-- The standard alphabet. -/
def letter (n : Nat) : Char :=
  let n := n % 64
  if n < 26 then Char.ofNat (n + 65)
  else if n < 52 then Char.ofNat (n + 71)
  else if n < 62 then Char.ofNat (n - 4)
  else if n = 62 then '+'
  else '/'

def valueOf (c : Char) : Option Nat :=
  let n := c.toNat
  if 65 ≤ n ∧ n ≤ 90 then some (n - 65)
  else if 97 ≤ n ∧ n ≤ 122 then some (n - 71)
  else if 48 ≤ n ∧ n ≤ 57 then some (n + 4)
  else if c = '+' then some 62
  else if c = '/' then some 63
  else none

def grouped (digit : Nat → Char) : Bytes → List Char
  | [] => []
  | [a] => [digit (a.toNat / 4), digit (a.toNat * 16)]
  | [a, b] => [digit (a.toNat / 4), digit (a.toNat * 16 + b.toNat / 16), digit (b.toNat * 4)]
  | a :: b :: c :: rest =>
      digit (a.toNat / 4) :: digit (a.toNat * 16 + b.toNat / 16) :: digit (b.toNat * 4 + c.toNat / 64) ::
        digit c.toNat :: grouped digit rest

def pads (n : Nat) : List Char := List.replicate ((4 - n % 4) % 4) '='

/-- `base64.b64encode(data)`. -/
def b64encode (data : Bytes) : List Char := grouped letter data ++ pads (grouped letter data).length

/-- `binascii.a2b_base64(text, strict_mode=True)` after its first character, and
whether there was a pad already. Pads are passed over where no bits are left. -/
def strict (padded : Bool) (r : Reading) : List Char → Option Bytes
  | [] => if r.place = 0 then some r.bytes.reverse else none
  | c :: cs =>
      if c = '=' then
        if 2 ≤ r.place then
          if 4 ≤ r.place + (r.pads + 1) then if cs = [] then some r.bytes.reverse else none
          else strict true { r with pads := r.pads + 1 } cs
        else strict true r cs
      else (valueOf c).bind fun n => if padded then none else strict false (r.take n) cs

/-- `base64.b64decode(text, validate=True)`, unless it raises. -/
def b64decode (text : List Char) : Option Bytes := if text.head? = some '=' then none else strict false {} text

section Digits

theorem valueOf_letter (n : Nat) : valueOf (letter n) = some (n % 64) ∧ letter n ≠ '=' := by
  have hall : (List.range 64).all (fun n => valueOf (letter n) = some n ∧ letter n ≠ '=') = true := by decide
  have hmod : letter n = letter (n % 64) := by simp only [letter, Nat.mod_mod]
  rw [hmod]
  exact of_decide_eq_true (List.all_eq_true.1 hall _ (List.mem_range.2 (Nat.mod_lt n (by decide))))

theorem letter_of_valueOf {c : Char} {n : Nat} (h : valueOf c = some n) : c = letter n := by
  have hall : (List.range 128).all (fun k => (valueOf (Char.ofNat k)).all fun n => Char.ofNat k = letter n) = true := by
    decide
  have hsmall : c.toNat < 128 := by
    by_contra hlarge
    have hne : c ≠ '+' ∧ c ≠ '/' := by
      constructor <;> · rintro rfl; exact hlarge (by decide)
    have hnone : valueOf c = none := by
      rw [valueOf, if_neg (by omega), if_neg (by omega), if_neg (by omega), if_neg hne.1, if_neg hne.2]
    rw [hnone] at h
    cases h
  have hc := List.all_eq_true.1 hall c.toNat (List.mem_range.2 hsmall)
  rw [Char.ofNat_toNat, h] at hc
  exact of_decide_eq_true hc

theorem valueOf_sextet (n : Nat) : Documents.valueOf (sextet n) = some (n % 64) ∧ sextet n ≠ '=' := by
  have hall : (List.range 64).all (fun n => Documents.valueOf (sextet n) = some n ∧ sextet n ≠ '=') = true := by decide
  have hmod : sextet n = sextet (n % 64) := by simp only [sextet, Nat.mod_mod]
  rw [hmod]
  exact of_decide_eq_true (List.all_eq_true.1 hall _ (List.mem_range.2 (Nat.mod_lt n (by decide))))

theorem b64_eq_grouped (data : Bytes) : b64 data = grouped sextet data := by
  induction data using grouped.induct with
  | case1 => rfl
  | case2 a => rfl
  | case3 a b => rfl
  | case4 a b c rest ih => rw [b64, grouped, ih]

end Digits

section Groups

variable {digit : Nat → Char}

theorem mem_grouped {data : Bytes} {c : Char} (h : c ∈ grouped digit data) : ∃ n, c = digit n := by
  induction data using grouped.induct with
  | case1 => cases h
  | case2 a =>
      simp only [grouped, List.mem_cons, List.not_mem_nil, or_false] at h
      rcases h with rfl | rfl <;> exact ⟨_, rfl⟩
  | case3 a b =>
      simp only [grouped, List.mem_cons, List.not_mem_nil, or_false] at h
      rcases h with rfl | rfl | rfl <;> exact ⟨_, rfl⟩
  | case4 a b c rest ih =>
      simp only [grouped, List.mem_cons] at h
      rcases h with rfl | rfl | rfl | rfl | h
      · exact ⟨_, rfl⟩
      · exact ⟨_, rfl⟩
      · exact ⟨_, rfl⟩
      · exact ⟨_, rfl⟩
      · exact ih h

/-- What reading the groups of a text amounts to, whichever reader reads them. -/
structure Reads (read : Reading → List Char → Option Bytes) (digit : Nat → Char) : Prop where
  digit : ∀ r n cs, read r (digit n :: cs) = read (r.take (n % 64)) cs
  nil : ∀ bytes, read ⟨0, 0, 0, bytes⟩ [] = some bytes.reverse
  one : ∀ left bytes, read ⟨2, left, 0, bytes⟩ ['=', '='] = some bytes.reverse
  two : ∀ left bytes, read ⟨3, left, 0, bytes⟩ ['='] = some bytes.reverse

theorem first_byte (a : UInt8) {n : Nat} (h : n < 16) :
    UInt8.ofNat (a.toNat / 4 % 64 * 4 + (a.toNat * 16 + n) % 64 / 16) = a := by
  have ha := a.toNat_lt
  have hvalue : a.toNat / 4 % 64 * 4 + (a.toNat * 16 + n) % 64 / 16 = a.toNat := by omega
  rw [hvalue, UInt8.ofNat_toNat]

theorem second_byte (a b : UInt8) {n : Nat} (h : n < 4) :
    UInt8.ofNat ((a.toNat * 16 + b.toNat / 16) % 64 % 16 * 16 + (b.toNat * 4 + n) % 64 / 4) = b := by
  have hb := b.toNat_lt
  have hvalue : (a.toNat * 16 + b.toNat / 16) % 64 % 16 * 16 + (b.toNat * 4 + n) % 64 / 4 = b.toNat := by omega
  rw [hvalue, UInt8.ofNat_toNat]

theorem third_byte (b c : UInt8) :
    UInt8.ofNat ((b.toNat * 4 + c.toNat / 64) % 64 % 4 * 64 + c.toNat % 64) = c := by
  have hc := c.toNat_lt
  have hvalue : (b.toNat * 4 + c.toNat / 64) % 64 % 4 * 64 + c.toNat % 64 = c.toNat := by omega
  rw [hvalue, UInt8.ofNat_toNat]

theorem Reads.grouped {read : Reading → List Char → Option Bytes} (h : Reads read digit) (data bytes : Bytes) :
    read ⟨0, 0, 0, bytes⟩ (grouped digit data ++ pads (grouped digit data).length) = some (bytes.reverse ++ data) := by
  induction data using grouped.induct generalizing bytes with
  | case1 => simpa [Base64.grouped, pads] using h.nil bytes
  | case2 a =>
      have hpads : pads 2 = ['=', '='] := rfl
      have hfirst := first_byte a (n := 0) (by decide)
      rw [Nat.add_zero] at hfirst
      simp only [Base64.grouped, List.length_cons, List.length_nil, Nat.zero_add, Nat.reduceAdd, hpads,
        List.cons_append, List.nil_append, h.digit, Reading.take, h.one, List.reverse_cons, hfirst]
  | case3 a b =>
      have hpads : pads 3 = ['='] := rfl
      have hb := b.toNat_lt
      have hsecond := second_byte a b (n := 0) (by decide)
      rw [Nat.add_zero] at hsecond
      simp only [Base64.grouped, List.length_cons, List.length_nil, Nat.zero_add, Nat.reduceAdd, hpads,
        List.cons_append, List.nil_append, h.digit, Reading.take, h.two, List.reverse_cons,
        first_byte a (n := b.toNat / 16) (by omega), hsecond, List.append_assoc]
  | case4 a b c rest ih =>
      have hb := b.toNat_lt
      have hc := c.toNat_lt
      have hpads : pads ((Base64.grouped digit rest).length + 1 + 1 + 1 + 1) = pads (Base64.grouped digit rest).length := by
        rw [pads, pads, Nat.add_mod_right (Base64.grouped digit rest).length 4]
      simp only [Base64.grouped, List.length_cons, hpads, List.cons_append, h.digit, Reading.take,
        first_byte a (n := b.toNat / 16) (by omega), second_byte a b (n := c.toNat / 64) (by omega), third_byte b c, ih,
        List.reverse_cons, List.append_assoc, List.nil_append]

theorem reads_a2b (hd : ∀ n, Documents.valueOf (digit n) = some (n % 64) ∧ digit n ≠ '=') : Reads a2b digit where
  digit r n cs := by simp [a2b, hd n]
  nil _ := rfl
  one _ _ := rfl
  two _ _ := rfl

theorem reads_strict : Reads (strict false) letter where
  digit r n cs := by simp [strict, valueOf_letter n]
  nil _ := rfl
  one _ _ := rfl
  two _ _ := rfl

end Groups

theorem unb64_b64 (data : Bytes) : unb64 (b64 data) = some data := by
  have hascii : (b64 data).all (fun c => c.toNat < 128) = true := by
    rw [List.all_eq_true]
    intro c hc
    rw [b64_eq_grouped] at hc
    obtain ⟨n, rfl⟩ := mem_grouped hc
    have hall : (List.range 64).all (fun n => (sextet n).toNat < 128) = true := by decide
    have hmod : sextet n = sextet (n % 64) := by simp only [sextet, Nat.mod_mod]
    rw [hmod]
    exact List.all_eq_true.1 hall _ (List.mem_range.2 (Nat.mod_lt n (by decide)))
  have hread := (reads_a2b valueOf_sextet).grouped data []
  rw [← b64_eq_grouped] at hread
  rw [unb64, if_pos hascii]
  exact hread

theorem head_grouped {data : Bytes} : (grouped letter data ++ pads (grouped letter data).length).head? ≠ some '=' := by
  have hne := fun n => (valueOf_letter n).2
  match data with
  | [] => simp [grouped, pads]
  | [a] => simp [grouped, hne]
  | [a, b] => simp [grouped, hne]
  | a :: b :: c :: rest => simp [grouped, hne]

theorem b64decode_b64encode (data : Bytes) : b64decode (b64encode data) = some data := by
  rw [b64decode, b64encode, if_neg head_grouped]
  exact reads_strict.grouped data []

/-- Letters, and pads that fill up the last group of four. -/
def WellFormed (text : List Char) : Prop :=
  ∃ letters k, text = letters ++ List.replicate k '=' ∧ (∀ c ∈ letters, ∃ n, c = letter n) ∧ k ≤ 2 ∧ 4 ∣ text.length

theorem length_grouped (digit : Nat → Char) (data : Bytes) : (grouped digit data).length % 4 ≠ 1 := by
  induction data using grouped.induct with
  | case1 => simp [grouped]
  | case2 a => simp [grouped]
  | case3 a b => simp [grouped]
  | case4 a b c rest ih =>
      simp only [grouped, List.length_cons]
      omega

theorem wellFormed_b64encode (data : Bytes) : WellFormed (b64encode data) := by
  have hlength := length_grouped letter data
  refine ⟨grouped letter data, _, rfl, fun _ hc => mem_grouped hc, ?_, ?_⟩
  · omega
  · rw [b64encode, List.length_append, pads, List.length_replicate]
    omega

section Strict

variable {r : Reading} {cs : List Char} {bs : Bytes}

theorem take_place (h : r.place < 4) (n : Nat) :
    (r.take n).place = (r.place + 1) % 4 ∧ (r.take n).pads = 0 := by
  obtain ⟨place, left, pads, bytes⟩ := r
  match place, h with
  | 0, _ => simp [Reading.take]
  | 1, _ => simp [Reading.take]
  | 2, _ => simp [Reading.take]
  | 3, _ => simp [Reading.take]

theorem strict_padded (hr : r.place + r.pads < 4) (h : strict true r cs = some bs) :
    ∃ k, cs = List.replicate k '=' ∧ (r.place = 0 ∨ 2 ≤ r.place ∧ r.place + r.pads + k = 4) := by
  induction cs generalizing r with
  | nil =>
      rw [strict] at h
      split at h
      · exact ⟨0, rfl, .inl ‹_›⟩
      · cases h
  | cons c cs ih =>
      rw [strict] at h
      split at h
      · rename_i hc
        rw [hc]
        split at h
        · rename_i hplace
          split at h
          · rename_i hfull
            split at h
            · rename_i hcs
              exact ⟨1, by rw [hcs]; rfl, .inr ⟨hplace, by omega⟩⟩
            · cases h
          · rename_i hfull
            obtain ⟨k, hk, hcount⟩ := ih (r := { r with pads := r.pads + 1 }) (by dsimp only; omega) h
            refine ⟨k + 1, by rw [hk]; rfl, ?_⟩
            dsimp only at hcount
            omega
        · obtain ⟨k, hk, hcount⟩ := ih hr h
          exact ⟨k + 1, by rw [hk]; rfl, by omega⟩
      · obtain ⟨n, _, h⟩ := Option.bind_eq_some_iff.1 h
        cases h

theorem strict_letters (hpads : r.pads = 0) (hplace : r.place < 4) (h : strict false r cs = some bs) :
    ∃ letters k, cs = letters ++ List.replicate k '=' ∧ (∀ c ∈ letters, ∃ n, c = letter n) ∧
      ((r.place + letters.length) % 4 = 0 ∨
        2 ≤ (r.place + letters.length) % 4 ∧ (r.place + letters.length) % 4 + k = 4) := by
  induction cs generalizing r with
  | nil =>
      rw [strict] at h
      split at h
      · rename_i hzero
        exact ⟨[], 0, rfl, by simp, .inl (by rw [hzero]; rfl)⟩
      · cases h
  | cons c cs ih =>
      rw [strict] at h
      split at h
      · rename_i hc
        have hrest : ∃ k, cs = List.replicate k '=' ∧ (r.place = 0 ∨ 2 ≤ r.place ∧ r.place + (k + 1) = 4) := by
          split at h
          · split at h
            · split at h
              · rename_i hcs
                exact ⟨0, hcs, by omega⟩
              · cases h
            · obtain ⟨k, hk, hcount⟩ := strict_padded (by dsimp only; omega) h
              refine ⟨k, hk, ?_⟩
              dsimp only at hcount
              omega
          · obtain ⟨k, hk, hcount⟩ := strict_padded (by omega) h
            exact ⟨k, hk, by omega⟩
        obtain ⟨k, rfl, hcount⟩ := hrest
        refine ⟨[], k + 1, by rw [hc]; rfl, by simp, ?_⟩
        rw [List.length_nil]
        omega
      · obtain ⟨n, hn, h⟩ := Option.bind_eq_some_iff.1 h
        obtain ⟨htake, hzero⟩ := take_place hplace n
        rw [if_neg Bool.false_ne_true] at h
        obtain ⟨letters, k, rfl, hletters, hcount⟩ := ih hzero (by omega) h
        refine ⟨c :: letters, k, rfl, List.forall_mem_cons.2 ⟨⟨n, letter_of_valueOf hn⟩, hletters⟩, ?_⟩
        rw [htake] at hcount
        rw [List.length_cons]
        omega

end Strict

theorem wellFormed_of_b64decode {text : List Char} {data : Bytes} (h : b64decode text = some data) :
    ∃ core k, text = core ++ List.replicate k '=' ∧ WellFormed core ∧ (0 < k → '=' ∉ core) := by
  rw [b64decode] at h
  split at h
  · cases h
  obtain ⟨letters, k, rfl, hletters, hcount⟩ := strict_letters rfl (by decide) h
  rw [Nat.zero_add] at hcount
  rcases hcount with hwhole | ⟨hplace, hfull⟩
  · refine ⟨letters, k, rfl, ⟨letters, 0, by simp, hletters, by omega, by omega⟩, fun _ hmem => ?_⟩
    obtain ⟨n, hn⟩ := hletters _ hmem
    exact (valueOf_letter n).2 hn.symm
  · refine ⟨letters ++ List.replicate k '=', 0, by simp, ⟨letters, k, rfl, hletters, by omega, ?_⟩, by simp⟩
    rw [List.length_append, List.length_replicate]
    omega

section Blanks

open Decimals

variable {cs : List Char}

theorem dropWhile_of_not_space (h : ∀ c ∈ cs, isSpace c = false) : cs.dropWhile isSpace = cs := by
  cases cs with
  | nil => rfl
  | cons c cs => simp [h c List.mem_cons_self]

theorem strip_of_not_space (h : ∀ c ∈ cs, isSpace c = false) : strip cs = cs := by
  rw [strip, dropWhile_of_not_space h, dropWhile_of_not_space fun c hc => h c (List.mem_reverse.1 hc), List.reverse_reverse]

end Blanks

end CodeZard.Base64
