import CodeZard.Tables

namespace CodeZard.Columns

open Tables

abbrev Dict (κ α : Type) := List (κ × α)

section Dictionaries

variable {κ α : Type} [DecidableEq κ]

namespace Dict

def keys (d : Dict κ α) : List κ := d.map Prod.fst

def get (d : Dict κ α) (k : κ) : Option α := (row Prod.fst k d).map Prod.snd

def set (d : Dict κ α) (k : κ) (a : α) : Dict κ α := upsert Prod.fst (fun _ new => new) (k, a) d

def pop (d : Dict κ α) (k : κ) : Dict κ α := d.filter fun x => x.1 ≠ k

end Dict

variable {d : Dict κ α} {k : κ} {a : α}

theorem keys_pop (d : Dict κ α) (k : κ) : Dict.keys (Dict.pop d k) = (Dict.keys d).filter fun k' => k' ≠ k := by
  rw [Dict.keys, Dict.keys, List.filter_map]
  rfl

theorem foldl_pop (ks : List κ) (d : Dict κ α) : ks.foldl Dict.pop d = d.filter fun x => x.1 ∉ ks := by
  induction ks generalizing d with
  | nil => simp
  | cons k ks ih =>
      rw [List.foldl_cons, ih, Dict.pop, List.filter_filter]
      congr 1
      funext x
      simp only [List.mem_cons, not_or, Bool.decide_and, Bool.and_comm]

theorem pop_set (d : Dict κ α) (k : κ) (a : α) : Dict.pop (Dict.set d k a) k = Dict.pop d k := by
  induction d with
  | nil => simp [Dict.set, Dict.pop, upsert]
  | cons x d ih =>
      rw [Dict.set, upsert]
      split
      · simp_all [Dict.pop]
      · rw [Dict.pop, Dict.pop, List.filter_cons, List.filter_cons]
        split
        · exact congrArg _ ih
        · exact ih

theorem set_of_not_mem (h : k ∉ Dict.keys d) (a : α) : Dict.set d k a = d ++ [(k, a)] := by
  induction d with
  | nil => rfl
  | cons x d ih =>
      rw [Dict.keys, List.map_cons, List.mem_cons, not_or] at h
      rw [Dict.set, upsert, if_neg (Ne.symm h.1)]
      exact congrArg _ (ih h.2)

theorem get_eq_some (hn : (Dict.keys d).Nodup) : Dict.get d k = some a ↔ (k, a) ∈ d := by
  rw [Dict.get, Option.map_eq_some_iff]
  constructor
  · rintro ⟨x, hx, rfl⟩
    obtain rfl := row_key hx
    exact row_mem hx
  · intro h
    exact ⟨(k, a), row_of_mem hn h, rfl⟩

end Dictionaries

section Tables

variable {ρ κ α : Type} {key : ρ → κ}

def column (key : ρ → κ) (field : ρ → α) (rows : List ρ) : Dict κ α := rows.map fun x => (key x, field x)

variable {field : ρ → α} {rows : List ρ} {x : ρ} {k : κ}

theorem length_column (rows : List ρ) : (column key field rows).length = rows.length := List.length_map _

theorem keys_column (rows : List ρ) : Dict.keys (column key field rows) = rows.map key := List.map_map

variable [DecidableEq κ]

theorem get_column (rows : List ρ) (k : κ) : Dict.get (column key field rows) k = (row key k rows).map field := by
  induction rows with
  | nil => rfl
  | cons x xs ih =>
      have hcons : column key field (x :: xs) = (key x, field x) :: column key field xs := rfl
      rw [Dict.get, hcons, row_cons, row_cons]
      by_cases hx : key x = k
      · rw [if_pos hx, if_pos hx]
        rfl
      · rw [if_neg hx, if_neg hx]
        exact ih

theorem set_column (x : ρ) (rows : List ρ) :
    Dict.set (column key field rows) (key x) (field x) = column key field (upsert key (fun _ new => new) x rows) := by
  induction rows with
  | nil => rfl
  | cons y ys ih =>
      have hcons : column key field (y :: ys) = (key y, field y) :: column key field ys := rfl
      rw [Dict.set, hcons, upsert, upsert]
      by_cases hy : key y = key x
      · rw [if_pos hy, if_pos hy]
        rfl
      · rw [if_neg hy, if_neg hy]
        exact congrArg _ ih

theorem column_upsert_of_row {y : ρ} (hrow : row key (key x) rows = some y) (hfield : field y = field x) :
    column key field (upsert key (fun _ new => new) x rows) = column key field rows := by
  induction rows with
  | nil => cases hrow
  | cons z zs ih =>
      rw [row_cons] at hrow
      rw [upsert]
      by_cases hz : key z = key x
      · rw [if_pos hz] at hrow ⊢
        obtain rfl := Option.some.inj hrow
        simp only [column, List.map_cons, hz, hfield]
      · rw [if_neg hz] at hrow ⊢
        exact congrArg ((key z, field z) :: ·) (ih hrow)

theorem set_same (h : row key k rows = some x) : Dict.set (column key field rows) k (field x) = column key field rows := by
  obtain rfl := row_key h
  rw [set_column, column_upsert_of_row h rfl]

theorem pop_column (rows : List ρ) (k : κ) :
    Dict.pop (column key field rows) k = column key field (rows.filter fun x => key x ≠ k) := by
  rw [Dict.pop, column, List.filter_map]
  rfl

theorem filter_first (hn : ((x :: rows).map key).Nodup) : (x :: rows).filter (fun y => key y ≠ key x) = rows := by
  rw [List.map_cons, List.nodup_cons] at hn
  rw [List.filter_cons_of_neg (by simp), List.filter_eq_self]
  intro y hy
  apply decide_eq_true
  intro he
  exact hn.1 (he ▸ List.mem_map_of_mem hy)

end Tables

end CodeZard.Columns
