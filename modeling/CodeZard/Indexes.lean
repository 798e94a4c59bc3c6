import Mathlib.Data.List.Nodup
import Mathlib.Data.List.Sort

namespace CodeZard.Indexes

variable {ρ κ : Type}

/-- A unique index by what it holds of a row, nothing when it is partial and does
not cover the row. -/
abbrev Index (ρ κ : Type) := ρ → Option κ

def Unique (index : Index ρ κ) (rows : List ρ) : Prop := (rows.filterMap index).Nodup

theorem unique_nil (index : Index ρ κ) : Unique index [] := List.nodup_nil

variable [DecidableEq κ]

def refuses (index : Index ρ κ) (rows : List ρ) (x : ρ) : Bool :=
  (index x).any fun k => (rows.filterMap index).contains k

/-- `INSERT`: a row that no index refuses is added. -/
def insert (indexes : List (Index ρ κ)) (x : ρ) (rows : List ρ) : Option (List ρ) :=
  if indexes.any fun index => refuses index rows x then none else some (rows ++ [x])

section Uniqueness

variable {index : Index ρ κ} {indexes : List (Index ρ κ)} {rows rows' : List ρ} {x y : ρ}

theorem unique_concat (h : Unique index rows) (hx : refuses index rows x = false) : Unique index (rows ++ [x]) := by
  rw [Unique, List.filterMap_append]
  cases hk : index x with
  | none =>
      rw [List.filterMap_cons_none hk, List.filterMap_nil, List.append_nil]
      exact h
  | some k =>
      have hmem : k ∉ rows.filterMap index := by simpa [refuses, hk] using hx
      simp only [List.filterMap_cons, hk, List.filterMap_nil]
      exact List.nodup_append.2 ⟨h, List.nodup_singleton k, fun a ha b hb => by
        obtain rfl := List.mem_singleton.1 hb
        exact fun he => hmem (he ▸ ha)⟩

theorem unique_insert (hi : index ∈ indexes) (h : Unique index rows) (hx : insert indexes x rows = some rows') :
    Unique index rows' := by
  unfold insert at hx
  split at hx
  · cases hx
  · cases hx
    refine unique_concat h ?_
    simp only [List.any_eq_true, not_exists, not_and, Bool.not_eq_true] at *
    exact ‹∀ index ∈ indexes, refuses index rows x = false› index hi

omit [DecidableEq κ] in
theorem eq_of_unique (h : Unique index rows) (hx : x ∈ rows) (hy : y ∈ rows) {k : κ} (hkx : index x = some k)
    (hky : index y = some k) : x = y := by
  induction rows with
  | nil => cases hx
  | cons z zs ih =>
      have hfresh {u : ρ} (hu : u ∈ zs) (hku : index u = some k) : index z ≠ some k := by
        intro hkz
        rw [Unique, List.filterMap_cons_some hkz] at h
        exact (List.nodup_cons.1 h).1 (List.mem_filterMap.2 ⟨u, hu, hku⟩)
      rcases List.mem_cons.1 hx with rfl | hx'
      · rcases List.mem_cons.1 hy with rfl | hy'
        · rfl
        · exact absurd hkx (hfresh hy' hky)
      · rcases List.mem_cons.1 hy with rfl | hy'
        · exact absurd hky (hfresh hx' hkx)
        · refine ih (h.sublist ?_) hx' hy'
          exact (List.sublist_cons_self z zs).filterMap index

end Uniqueness

section Queries

variable (seq : ρ → Nat)

def ascending (rows : List ρ) : List ρ := rows.insertionSort fun x y => seq x ≤ seq y

def descending (rows : List ρ) : List ρ := rows.insertionSort fun x y => seq y ≤ seq x

def latest (n : Nat) (rows : List ρ) : List ρ := ascending seq ((descending seq rows).take n)

variable {seq} {rows : List ρ}

theorem ascending_eq (h : rows.Pairwise fun x y => seq x < seq y) : ascending seq rows = rows :=
  (h.imp fun hlt => Nat.le_of_lt hlt).insertionSort_eq

theorem eq_of_perm (h : rows.Pairwise fun x y => seq x < seq y) {l l' : List ρ} (hp : l.Perm l') (hs : l' ⊆ rows)
    {r : ρ → ρ → Prop} (hr : ∀ x y, r x y → r y x → seq x = seq y) (hl : l.Pairwise r) (hl' : l'.Pairwise r) :
    l = l' := by
  have hnodup : (rows.map seq).Nodup := List.pairwise_map.2 (h.imp fun hlt => Nat.ne_of_lt hlt)
  refine hp.eq_of_pairwise (fun x y hx hy hxy hyx => ?_) hl hl'
  exact List.inj_on_of_nodup_map hnodup (hs (hp.mem_iff.1 hx)) (hs hy) (hr x y hxy hyx)

theorem descending_eq (h : rows.Pairwise fun x y => seq x < seq y) : descending seq rows = rows.reverse := by
  refine eq_of_perm h ((List.perm_insertionSort _ rows).trans (List.reverse_perm rows).symm)
    (fun x hx => List.mem_reverse.1 hx) (fun x y hxy hyx => Nat.le_antisymm hyx hxy) (List.pairwise_insertionSort _ rows) ?_
  exact List.pairwise_reverse.2 (h.imp fun hlt => Nat.le_of_lt hlt)

theorem latest_eq (h : rows.Pairwise fun x y => seq x < seq y) (n : Nat) :
    latest seq n rows = (rows.reverse.take n).reverse := by
  have hsub : ((rows.reverse.take n).reverse).Sublist rows := by
    have htake := (List.take_sublist n rows.reverse).reverse
    rwa [List.reverse_reverse] at htake
  have hperm : (latest seq n rows).Perm (rows.reverse.take n).reverse := by
    rw [latest, descending_eq h]
    exact (List.perm_insertionSort _ _).trans (List.reverse_perm _).symm
  refine eq_of_perm h hperm hsub.subset (fun x y hxy hyx => Nat.le_antisymm hxy hyx) (List.pairwise_insertionSort _ _) ?_
  exact (h.sublist hsub).imp fun hlt => Nat.le_of_lt hlt

end Queries

end CodeZard.Indexes
