import Mathlib.Algebra.Order.BigOperators.Group.List
import Mathlib.Algebra.Order.Ring.Int
import Mathlib.Algebra.Order.Ring.Nat
import Mathlib.Data.List.Nodup

namespace CodeZard.Tables

variable {ρ κ : Type} [DecidableEq κ] (key : ρ → κ)

def row (k : κ) (rows : List ρ) : Option ρ := rows.find? (fun x => key x = k)

def upsert (merge : ρ → ρ → ρ) (x : ρ) : List ρ → List ρ
  | [] => [x]
  | y :: ys => if key y = key x then merge y x :: ys else y :: upsert merge x ys

variable {key}

theorem row_key {k : κ} {rows : List ρ} {x : ρ} (h : row key k rows = some x) : key x = k := by
  simpa using List.find?_some h

theorem row_mem {k : κ} {rows : List ρ} {x : ρ} (h : row key k rows = some x) : x ∈ rows :=
  List.mem_of_find?_eq_some h

@[simp] theorem row_nil (k : κ) : row key k [] = none := rfl

theorem row_cons (k : κ) (x : ρ) (rows : List ρ) :
    row key k (x :: rows) = if key x = k then some x else row key k rows := by
  by_cases h : key x = k <;> simp [row, h]

theorem row_upsert_self {merge : ρ → ρ → ρ} (hm : ∀ y x, key y = key x → key (merge y x) = key x) (x : ρ)
    (rows : List ρ) :
    row key (key x) (upsert key merge x rows) =
      some ((row key (key x) rows).elim x fun y => merge y x) := by
  induction rows with
  | nil => simp [upsert, row_cons]
  | cons y ys ih =>
      by_cases h : key y = key x
      · simp [upsert, row_cons, h, hm y x h]
      · simp [upsert, row_cons, h, ih]

theorem row_upsert_of_ne {merge : ρ → ρ → ρ} (hm : ∀ y x, key y = key x → key (merge y x) = key x) {k : κ} {x : ρ}
    (hk : key x ≠ k) (rows : List ρ) :
    row key k (upsert key merge x rows) = row key k rows := by
  induction rows with
  | nil => simp [upsert, row_cons, hk]
  | cons y ys ih =>
      by_cases h : key y = key x
      · simp [upsert, row_cons, h, hm y x h, hk]
      · simp [upsert, row_cons, h, ih]

theorem mem_upsert {merge : ρ → ρ → ρ} {x y : ρ} {rows : List ρ} (h : y ∈ upsert key merge x rows) :
    y ∈ rows ∨ y = x ∨ ∃ z ∈ rows, y = merge z x := by
  induction rows with
  | nil => exact .inr (.inl (List.mem_singleton.1 h))
  | cons z zs ih =>
      by_cases hz : key z = key x
      · rw [upsert, if_pos hz] at h
        rcases List.mem_cons.1 h with rfl | h
        · exact .inr (.inr ⟨z, List.mem_cons_self, rfl⟩)
        · exact .inl (List.mem_cons_of_mem z h)
      · rw [upsert, if_neg hz] at h
        rcases List.mem_cons.1 h with rfl | h
        · exact .inl List.mem_cons_self
        · rcases ih h with h | h | ⟨u, hu, h⟩
          · exact .inl (List.mem_cons_of_mem z h)
          · exact .inr (.inl h)
          · exact .inr (.inr ⟨u, List.mem_cons_of_mem z hu, h⟩)

theorem keys_upsert {merge : ρ → ρ → ρ} (hm : ∀ y x, key y = key x → key (merge y x) = key x) (x : ρ) (rows : List ρ) :
    (upsert key merge x rows).map key =
      if key x ∈ rows.map key then rows.map key else rows.map key ++ [key x] := by
  induction rows with
  | nil => rfl
  | cons y ys ih =>
      by_cases h : key y = key x
      · simp [upsert, h, hm y x h]
      · have hne : key x ≠ key y := fun he => h he.symm
        simp only [upsert, if_neg h, List.map_cons, ih, List.mem_cons, hne, false_or]
        split <;> rfl

theorem nodup_upsert {merge : ρ → ρ → ρ} (hm : ∀ y x, key y = key x → key (merge y x) = key x) {x : ρ}
    {rows : List ρ} (h : (rows.map key).Nodup) : ((upsert key merge x rows).map key).Nodup := by
  rw [keys_upsert hm]
  split
  · exact h
  · rename_i hx
    exact List.Nodup.append h (List.nodup_singleton _) (List.disjoint_singleton.2 hx)

theorem row_of_mem {x : ρ} {rows : List ρ} (hn : (rows.map key).Nodup) (hx : x ∈ rows) : row key (key x) rows = some x := by
  induction rows with
  | nil => cases hx
  | cons y ys ih =>
      rw [List.map_cons, List.nodup_cons] at hn
      rw [row_cons]
      rcases List.mem_cons.1 hx with rfl | hx
      · rw [if_pos rfl]
      · have hne : key y ≠ key x := by
          intro he
          apply hn.1
          rw [he]
          exact List.mem_map_of_mem hx
        rw [if_neg hne]
        exact ih hn.2 hx

theorem row_append (k : κ) (xs ys : List ρ) : row key k (xs ++ ys) = (row key k xs).or (row key k ys) := by
  rw [row, List.find?_append]
  rfl

theorem row_isSome {k : κ} {rows : List ρ} : (row key k rows).isSome = true ↔ k ∈ rows.map key := by
  simp [row, List.find?_isSome]

theorem row_foldl_upsert (k : κ) (rows start : List ρ) :
    row key k (rows.foldl (fun acc x => upsert key (fun _ new => new) x acc) start) =
      (row key k rows.reverse).or (row key k start) := by
  induction rows generalizing start with
  | nil => rfl
  | cons x xs ih =>
      rw [List.foldl_cons, ih, List.reverse_cons, row_append, Option.or_assoc]
      congr 1
      rw [row_cons, row_nil]
      by_cases h : key x = k
      · subst h
        rw [row_upsert_self (fun _ _ _ => rfl), if_pos rfl]
        cases row key (key x) start <;> rfl
      · rw [row_upsert_of_ne (fun _ _ _ => rfl) h, if_neg h]
        rfl

section Maps

variable {σ : Type} {key' : σ → κ} {f : ρ → σ}

theorem row_map (hkey : ∀ x, key' (f x) = key x) (k : κ) (rows : List ρ) :
    row key' k (rows.map f) = (row key k rows).map f := by
  induction rows with
  | nil => rfl
  | cons x xs ih =>
      rw [List.map_cons, row_cons, row_cons, hkey, ih]
      split <;> rfl

theorem upsert_map {merge : ρ → ρ → ρ} {merge' : σ → σ → σ} {x : ρ} (hkey : ∀ x, key' (f x) = key x)
    (hmerge : ∀ old, key old = key x → merge' (f old) (f x) = f (merge old x)) (rows : List ρ) :
    upsert key' merge' (f x) (rows.map f) = (upsert key merge x rows).map f := by
  induction rows with
  | nil => rfl
  | cons y ys ih =>
      rw [List.map_cons, upsert, upsert, hkey, hkey]
      by_cases h : key y = key x
      · rw [if_pos h, if_pos h, List.map_cons, hmerge y h]
      · rw [if_neg h, if_neg h, List.map_cons, ih]

end Maps

end CodeZard.Tables
