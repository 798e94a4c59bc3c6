import CodeZard.Tables
import Mathlib.Data.List.Dedup

namespace CodeZard.Recencies

open Tables

variable {ρ κ : Type} [DecidableEq κ] {key : ρ → κ}

/-- Of what was written, the last first, all that is newer than the last row
under a key. -/
def since (key : ρ → κ) (k : κ) (past : List ρ) : List ρ := past.takeWhile fun x => key x ≠ k

def others (key : ρ → κ) (k : κ) (past : List ρ) : Nat := ((since key k past).map key).dedup.length

/-- Each key was written after those before it. -/
def Ordered (key : ρ → κ) (past : List ρ) (ks : List κ) : Prop :=
  ks.Pairwise fun a b => (since key b past).length < (since key a past).length

variable {past : List ρ} {ks : List κ} {x w : ρ} {a b k : κ}

theorem since_cons_self (x : ρ) (past : List ρ) : since key (key x) (x :: past) = [] :=
  List.takeWhile_cons_of_neg (by simp)

theorem since_cons_of_ne (h : key x ≠ k) (past : List ρ) : since key k (x :: past) = x :: since key k past :=
  List.takeWhile_cons_of_pos (decide_eq_true h)

theorem mem_since (hb : row key b past = some w) (h : (since key b past).length < (since key a past).length) :
    w ∈ since key a past := by
  induction past with
  | nil => cases hb
  | cons x past ih =>
      rw [row_cons] at hb
      by_cases ha : key x = a
      · subst ha
        rw [since_cons_self] at h
        exact absurd h (Nat.not_lt_zero _)
      · rw [since_cons_of_ne ha] at h ⊢
        by_cases hx : key x = b
        · rw [if_pos hx] at hb
          obtain rfl := Option.some.inj hb
          exact List.mem_cons_self
        · rw [if_neg hx] at hb
          rw [since_cons_of_ne hx, List.length_cons, List.length_cons] at h
          exact List.mem_cons_of_mem x (ih hb (Nat.lt_of_succ_lt_succ h))

theorem others_cons_of_ne (h : key x ≠ k) (past : List ρ) : others key k past ≤ others key k (x :: past) := by
  rw [others, others, since_cons_of_ne h]
  apply (List.subperm_of_subset (List.nodup_dedup _) _).length_le
  intro y hy
  rw [List.mem_dedup] at hy ⊢
  exact List.mem_cons_of_mem _ hy

theorem Ordered.write (h : Ordered key past ks) (x : ρ) :
    Ordered key (x :: past) (ks.filter (fun k => k ≠ key x) ++ [key x]) := by
  have hne : ∀ a ∈ ks.filter (fun k => k ≠ key x), key x ≠ a := by
    intro a ha
    exact (of_decide_eq_true (List.mem_filter.1 ha).2).symm
  rw [Ordered, List.pairwise_append]
  refine ⟨?_, List.pairwise_singleton _ _, ?_⟩
  · apply (h.sublist List.filter_sublist).imp_of_mem
    intro a b ha hb hab
    rw [since_cons_of_ne (hne a ha), since_cons_of_ne (hne b hb)]
    exact Nat.succ_lt_succ hab
  · intro a ha b hb
    rw [List.mem_singleton] at hb
    rw [hb, since_cons_self, since_cons_of_ne (hne a ha)]
    exact Nat.succ_pos _

theorem Ordered.since_lt_of_dropped (h : Ordered key past ks) {n : Nat} (ha : a ∈ ks) (hgone : a ∉ ks.drop n)
    (hb : b ∈ ks.drop n) : (since key b past).length < (since key a past).length := by
  rw [← List.take_append_drop n ks, List.mem_append] at ha
  rw [Ordered, ← List.take_append_drop n ks, List.pairwise_append] at h
  exact h.2.2 a (ha.resolve_right hgone) b hb

/-- Where only so many keys are kept, as many others were written after one that
is not. -/
theorem Ordered.others_of_dropped (h : Ordered key past ks) (hn : ks.Nodup) (hpast : ∀ b ∈ ks, (row key b past).isSome)
    {n : Nat} (ha : a ∈ ks) (hgone : a ∉ ks.drop (ks.length - n)) : n ≤ others key a past := by
  have hlen : (ks.drop (ks.length - n)).length = n := by
    have hpos : ks.length - n ≠ 0 := by
      intro hzero
      rw [hzero, List.drop_zero] at hgone
      exact hgone ha
    rw [List.length_drop]
    omega
  calc n = (ks.drop (ks.length - n)).length := hlen.symm
    _ ≤ others key a past := by
        apply (List.subperm_of_subset (hn.sublist (List.drop_sublist _ _)) _).length_le
        intro b hb
        obtain ⟨w, hw⟩ := Option.isSome_iff_exists.1 (hpast b (List.mem_of_mem_drop hb))
        have hmem := mem_since hw (h.since_lt_of_dropped ha hgone hb)
        rw [List.mem_dedup, ← row_key hw]
        exact List.mem_map_of_mem hmem

end CodeZard.Recencies
