import Mathlib.Algebra.Order.BigOperators.Group.List
import Mathlib.Algebra.Order.Ring.Int
import Mathlib.Algebra.Order.Ring.Nat

namespace CodeZard.Lines

variable {α : Type} (sep : α) (n : Nat)

def keep (s : List α) : List α := s.drop (s.length - n)

theorem keep_suffix (n : Nat) (s : List α) : keep n s <:+ s := List.drop_suffix _ _

theorem length_keep (n : Nat) (s : List α) : (keep n s).length ≤ n := by
  rw [keep, List.length_drop]
  omega

theorem keep_of_length_le {n : Nat} {s : List α} (h : s.length ≤ n) : keep n s = s := by
  rw [keep, Nat.sub_eq_zero_of_le h, List.drop_zero]

theorem keep_append {n : Nat} (s : List α) {t : List α} (h : n ≤ t.length) : keep n (s ++ t) = keep n t := by
  rw [keep, keep, List.length_append, Nat.add_sub_assoc h, List.drop_append, List.drop_of_length_le (by omega),
    Nat.add_sub_cancel_left, List.nil_append]

theorem eq_append_cons_last {sep : α} {s : List α} (h : sep ∈ s) : ∃ a b, s = a ++ sep :: b ∧ sep ∉ b := by
  obtain ⟨b, a, hr, hb⟩ := List.eq_append_cons_of_mem (List.mem_reverse.2 h)
  refine ⟨a.reverse, b.reverse, ?_, by simpa using hb⟩
  rw [← List.reverse_reverse s, hr]
  simp

variable [DecidableEq α]

/-- The parts of a list that the separator ends. -/
def terminated (s : List α) : List (List α) := (s.splitOn sep).dropLast

def remainder (s : List α) : List α := (s.splitOn sep).getLastD []

/-- The parts handed on by a reader that is fed in chunks and keeps no more than
`n` elements of an unfinished part between two of them. -/
def handed : List α → List (List α) → List (List α)
  | _, [] => []
  | tail, c :: cs => terminated sep (tail ++ c) ++ handed (keep n (remainder sep (tail ++ c))) cs

/-- No part that is finished later has more than `n` elements when a chunk ends. -/
def Fits : List α → List (List α) → Prop
  | _, [] => True
  | s, c :: cs => (sep ∈ cs.flatten → (remainder sep (s ++ c)).length ≤ n) ∧ Fits (remainder sep (s ++ c)) cs

instance decidableFits : ∀ s cs, Decidable (Fits sep n s cs)
  | _, [] => inferInstanceAs (Decidable True)
  | s, c :: cs =>
      have := decidableFits (remainder sep (s ++ c)) cs
      inferInstanceAs (Decidable (_ ∧ _))

variable {sep n} {s t tail c : List α}

theorem terminated_of_notMem (h : sep ∉ s) : terminated sep s = [] := by
  rw [terminated, List.splitOn_eq_singleton h]
  rfl

theorem remainder_of_notMem (h : sep ∉ s) : remainder sep s = s := by
  rw [remainder, List.splitOn_eq_singleton h]
  rfl

theorem terminated_append_cons (s t : List α) :
    terminated sep (s ++ sep :: t) = s.splitOn sep ++ terminated sep t := by
  rw [terminated, List.splitOn_append_cons_self, List.dropLast_append_of_ne_nil (List.splitOn_ne_nil _ _)]
  rfl

theorem remainder_append_cons (s t : List α) : remainder sep (s ++ sep :: t) = remainder sep t := by
  have h := List.getLast?_eq_some_getLast (List.splitOn_ne_nil sep t)
  simp only [remainder, List.splitOn_append_cons_self, List.getLastD_eq_getLast?, List.getLast?_append, h,
    Option.some_or]

theorem remainder_append_of_mem (h : sep ∈ c) : remainder sep (s ++ c) = remainder sep c := by
  obtain ⟨a, b, rfl, _⟩ := List.eq_append_cons_of_mem h
  rw [← List.append_assoc, remainder_append_cons, remainder_append_cons]

theorem notMem_remainder (sep : α) (s : List α) : sep ∉ remainder sep s := by
  by_cases h : sep ∈ s
  · obtain ⟨a, b, rfl, hb⟩ := eq_append_cons_last h
    rwa [remainder_append_cons, remainder_of_notMem hb]
  · rwa [remainder_of_notMem h]

theorem terminated_append (s t : List α) :
    terminated sep (s ++ t) = terminated sep s ++ terminated sep (remainder sep s ++ t) := by
  by_cases h : sep ∈ s
  · obtain ⟨a, b, rfl, hb⟩ := eq_append_cons_last h
    rw [List.append_assoc, List.cons_append, terminated_append_cons, terminated_append_cons,
      remainder_append_cons, remainder_of_notMem hb, terminated_of_notMem hb, List.append_nil]
  · rw [terminated_of_notMem h, remainder_of_notMem h, List.nil_append]

theorem terminated_append_of_mem (ht : sep ∉ t) {a b : List α} (ha : sep ∉ a) :
    terminated sep (t ++ (a ++ sep :: b)) = (t ++ a) :: terminated sep b := by
  have hta : sep ∉ t ++ a := by simp [ht, ha]
  rw [← List.append_assoc, terminated_append_cons, List.splitOn_eq_singleton hta]
  rfl

theorem length_terminated_append (ht : sep ∉ t) (hs : sep ∉ s) (c : List α) :
    (terminated sep (s ++ c)).length = (terminated sep (t ++ c)).length := by
  by_cases h : sep ∈ c
  · obtain ⟨a, b, rfl, ha⟩ := List.eq_append_cons_of_mem h
    rw [terminated_append_of_mem hs ha, terminated_append_of_mem ht ha, List.length_cons, List.length_cons]
  · rw [terminated_of_notMem (by simp [hs, h]), terminated_of_notMem (by simp [ht, h])]

theorem terminated_append_inj (ht : sep ∉ t) (hs : sep ∉ s) :
    terminated sep (s ++ c) = terminated sep (t ++ c) ↔ (sep ∈ c → s = t) := by
  by_cases h : sep ∈ c
  · obtain ⟨a, b, rfl, ha⟩ := List.eq_append_cons_of_mem h
    rw [terminated_append_of_mem hs ha, terminated_append_of_mem ht ha]
    simp
  · rw [terminated_of_notMem (by simp [hs, h]), terminated_of_notMem (by simp [ht, h])]
    simp [h]

/-- The reader has kept all of an unfinished part after a chunk if it had kept
all of it before and the part is short enough. -/
theorem keep_remainder_eq_iff (ht : sep ∉ t) (hs : s <:+ t) (hc : sep ∈ c → s = t) :
    keep n (remainder sep (s ++ c)) = remainder sep (t ++ c) ↔
      (s = t ∨ sep ∈ c) ∧ (remainder sep (t ++ c)).length ≤ n := by
  by_cases h : sep ∈ c
  · rw [hc h]
    simp only [true_or, true_and]
    constructor
    · intro hk
      rw [← hk]
      exact length_keep n _
    · exact keep_of_length_le
  · have hst : sep ∉ s ++ c := by
      rw [List.mem_append]
      exact fun hm => hm.elim (fun hm => ht (hs.subset hm)) h
    rw [remainder_of_notMem hst, remainder_of_notMem (by simp [ht, h])]
    simp only [h, or_false]
    constructor
    · intro hk
      refine ⟨?_, hk ▸ length_keep n _⟩
      apply hs.eq_of_length
      have hle := hs.length_le
      have hlen := congrArg List.length hk
      have := (keep_suffix n (s ++ c)).length_le
      simp only [List.length_append] at hlen this
      omega
    · rintro ⟨rfl, hn⟩
      exact keep_of_length_le hn

theorem handed_eq_iff (ht : sep ∉ t) (hs : tail <:+ t) (cs : List (List α)) :
    handed sep n tail cs = terminated sep (t ++ cs.flatten) ↔
      (sep ∈ cs.flatten → tail = t) ∧ Fits sep n t cs := by
  induction cs generalizing tail t with
  | nil => simp [handed, Fits, terminated_of_notMem ht]
  | cons c cs ih =>
      have hs' : sep ∉ tail := fun hm => ht (hs.subset hm)
      have hsuf : keep n (remainder sep (tail ++ c)) <:+ remainder sep (t ++ c) := by
        refine (keep_suffix n _).trans ?_
        by_cases h : sep ∈ c
        · simp only [remainder_append_of_mem h, List.suffix_refl]
        · rw [remainder_of_notMem (by simp [hs', h]), remainder_of_notMem (by simp [ht, h])]
          obtain ⟨u, rfl⟩ := hs
          exact ⟨u, by simp⟩
      have hih := ih (notMem_remainder sep (t ++ c)) hsuf
      simp only [handed, Fits, List.flatten_cons]
      rw [← List.append_assoc, terminated_append (t ++ c)]
      constructor
      · intro h
        obtain ⟨h₁, h₂⟩ := List.append_inj h (length_terminated_append ht hs' c)
        have hc := (terminated_append_inj ht hs').1 h₁
        obtain ⟨hk, hf⟩ := hih.1 h₂
        refine ⟨fun hm => ?_, fun hm => ((keep_remainder_eq_iff ht hs hc).1 (hk hm)).2, hf⟩
        rcases List.mem_append.1 hm with hm | hm
        · exact hc hm
        · exact ((keep_remainder_eq_iff ht hs hc).1 (hk hm)).1.elim id hc
      · rintro ⟨htt, hn, hf⟩
        have hc (hm : sep ∈ c) : tail = t := htt (List.mem_append_left _ hm)
        have hk (hm : sep ∈ cs.flatten) : keep n (remainder sep (tail ++ c)) = remainder sep (t ++ c) :=
          (keep_remainder_eq_iff ht hs hc).2 ⟨.inl (htt (List.mem_append_right _ hm)), hn hm⟩
        rw [(terminated_append_inj ht hs').2 hc, hih.2 ⟨hk, hf⟩]

end CodeZard.Lines
