import Mathlib.Data.List.DropRight
import Mathlib.Data.List.TakeDrop

namespace CodeZard.Segments

variable {α β : Type}

/-- What one segment of a path does to a place: it stays there, goes up or goes
down. -/
inductive Turn (α : Type)
  | stay
  | up
  | down (a : α)
  deriving DecidableEq, Repr

def Turn.map (f : α → β) : Turn α → Turn β
  | .stay => .stay
  | .up => .up
  | .down a => .down (f a)

def Turn.apply (s : List α) : Turn α → List α
  | .stay => s
  | .up => s.dropLast
  | .down a => s ++ [a]

def walk (s : List α) (ts : List (Turn α)) : List α := ts.foldl Turn.apply s

/-- A way from some place: so many levels up, and then down again. -/
structure Way (α : Type) where
  ups : Nat := 0
  names : List α := []

namespace Way

def turn (w : Way α) : Turn α → Way α
  | .stay => w
  | .up => if w.names = [] then { w with ups := w.ups + 1 } else { w with names := w.names.dropLast }
  | .down a => { w with names := w.names ++ [a] }

def apply (w : Way α) (s : List α) : List α := s.take (s.length - w.ups) ++ w.names

def map (f : α → β) (w : Way α) : Way β := ⟨w.ups, w.names.map f⟩

theorem apply_turn (w : Way α) (t : Turn α) (s : List α) : (w.turn t).apply s = t.apply (w.apply s) := by
  cases t with
  | stay => rfl
  | up =>
      unfold turn
      dsimp only
      split
      · rename_i hnone
        simp only [apply, Turn.apply, hnone, List.append_nil]
        rw [List.dropLast_eq_take, List.take_take, List.length_take]
        congr 1
        omega
      · rename_i hsome
        simp only [apply, Turn.apply]
        rw [List.dropLast_append_of_ne_nil hsome]
  | down a => exact (List.append_assoc _ _ _).symm

theorem map_turn (f : α → β) (w : Way α) (t : Turn α) : (w.map f).turn (t.map f) = (w.turn t).map f := by
  cases t with
  | stay => rfl
  | up =>
      simp only [turn, map, Turn.map, List.map_eq_nil_iff]
      split
      · rfl
      · rw [List.map_dropLast]
  | down a => simp only [turn, map, Turn.map, List.map_append, List.map_cons, List.map_nil]

end Way

def way (ts : List (Turn α)) : Way α := ts.foldl Way.turn {}

theorem walk_append (s : List α) (ts us : List (Turn α)) : walk s (ts ++ us) = walk (walk s ts) us :=
  List.foldl_append

theorem walk_eq (s : List α) (ts : List (Turn α)) : walk s ts = (way ts).apply s := by
  have hfrom (w : Way α) : walk (w.apply s) ts = (ts.foldl Way.turn w).apply s := by
    induction ts generalizing w with
    | nil => rfl
    | cons t ts ih =>
        rw [List.foldl_cons, ← ih, Way.apply_turn]
        rfl
  have hhere : ({} : Way α).apply s = s := by simp [Way.apply]
  have h := hfrom {}
  rwa [hhere] at h

theorem way_map (f : α → β) (ts : List (Turn α)) : way (ts.map (Turn.map f)) = (way ts).map f := by
  have hfrom (w : Way α) : (ts.map (Turn.map f)).foldl Way.turn (w.map f) = (ts.foldl Way.turn w).map f := by
    induction ts generalizing w with
    | nil => rfl
    | cons t ts ih => rw [List.map_cons, List.foldl_cons, List.foldl_cons, Way.map_turn, ih]
  exact hfrom {}

/-- A way leads back below a place exactly when what it comes down through is
what it went up from. -/
theorem below_iff {s t : List α} (h : s <+: t) (w : Way α) :
    s <+: w.apply t ↔ s.drop (t.length - w.ups) <+: w.names := by
  obtain ⟨u, rfl⟩ := h
  unfold Way.apply
  generalize (s ++ u).length - w.ups = k
  rcases le_total s.length k with hk | hk
  · rw [List.drop_of_length_le hk]
    refine iff_of_true ?_ List.nil_prefix
    rw [List.take_append, List.take_of_length_le hk, List.append_assoc]
    exact List.prefix_append _ _
  · rw [List.take_append_of_le_length hk]
    have hsplit : s <+: s.take k ++ w.names ↔ s.take k ++ s.drop k <+: s.take k ++ w.names := by
      rw [List.take_append_drop]
    rw [hsplit, List.prefix_append_right_inj]

theorem rdropWhile_append (p : α → Bool) {us : List α} (hne : us ≠ []) (hlast : p (us.getLast hne) = false)
    (vs : List α) : (us ++ vs).rdropWhile p = us ++ vs.rdropWhile p := by
  induction vs using List.reverseRecOn with
  | nil =>
      rw [List.append_nil, List.rdropWhile_nil, List.append_nil, List.rdropWhile_eq_self_iff]
      intro _
      rw [hlast]
      exact Bool.false_ne_true
  | append_singleton vs v ih =>
      rw [← List.append_assoc, List.rdropWhile_concat, List.rdropWhile_concat, ih]
      split
      · rfl
      · rw [List.append_assoc]

end CodeZard.Segments
