import Mathlib.Data.List.Infix
import Mathlib.Data.Option.Basic

namespace CodeZard.Traces

variable {σ ε : Type} (step : σ → ε → Option σ)

/-- What some events lead to, if each of them can happen when it is its turn. -/
def run : σ → List ε → Option σ
  | s, [] => some s
  | s, e :: es => (step s e).bind fun t => run t es

/-- In every state that some events pass through. -/
def Throughout (P : σ → Prop) (s : σ) (es : List ε) : Prop :=
  ∀ es' t, es' <+: es → run step s es' = some t → P t

/-- In every step that is taken. -/
def Met (Q : σ → ε → Prop) (s : σ) (es : List ε) : Prop :=
  ∀ es' e t u, es' ++ [e] <+: es → run step s es' = some t → step t e = some u → Q t e

section Rules

variable {step} {P I : σ → Prop} {Q : σ → ε → Prop} {s t : σ} {e : ε} {es es' : List ε}

theorem run_cons_eq_some : run step s (e :: es) = some t ↔ ∃ u, step s e = some u ∧ run step u es = some t :=
  Option.bind_eq_some_iff

theorem run_invariant (hstep : ∀ s e t, I s → step s e = some t → I t) (hs : I s) (h : run step s es = some t) : I t := by
  induction es generalizing s with
  | nil =>
      cases h
      exact hs
  | cons e es ih =>
      obtain ⟨u, hu, h⟩ := run_cons_eq_some.1 h
      exact ih (hstep s e u hs hu) h

theorem throughout_nil : Throughout step P s [] ↔ P s := by
  constructor
  · intro h
    exact h [] s List.prefix_rfl rfl
  · intro h es' t hes' ht
    obtain rfl := List.prefix_nil.1 hes'
    cases ht
    exact h

theorem throughout_cons : Throughout step P s (e :: es) ↔ P s ∧ ∀ t, step s e = some t → Throughout step P t es := by
  constructor
  · intro h
    refine ⟨h [] s List.nil_prefix rfl, fun t ht es' u hes' hu => ?_⟩
    apply h (e :: es') u
    · exact (List.prefix_cons_inj e).2 hes'
    · exact run_cons_eq_some.2 ⟨t, ht, hu⟩
  · rintro ⟨hs, h⟩ es' u hes' hu
    rcases List.prefix_cons_iff.1 hes' with rfl | ⟨es'', rfl, hes''⟩
    · cases hu
      exact hs
    · obtain ⟨t, ht, hu⟩ := run_cons_eq_some.1 hu
      exact h t ht es'' u hes'' hu

theorem met_nil : Met step Q s [] := by
  intro es' e t u h
  exact absurd (List.prefix_nil.1 h) (by simp)

theorem met_cons : Met step Q s (e :: es) ↔ ∀ t, step s e = some t → Q s e ∧ Met step Q t es := by
  constructor
  · intro h t ht
    refine ⟨h [] e s t ?_ rfl ht, fun es' e' t' u hes' ht' hu => ?_⟩
    · exact (List.prefix_cons_inj e).2 List.nil_prefix
    · apply h (e :: es') e' t' u
      · exact (List.prefix_cons_inj e).2 hes'
      · exact run_cons_eq_some.2 ⟨t, ht, ht'⟩
      · exact hu
  · intro h es' e' t u hes' ht hu
    cases es' with
    | nil =>
        cases ht
        obtain ⟨rfl, -⟩ := List.cons_prefix_cons.1 hes'
        exact (h u hu).1
    | cons a es' =>
        obtain ⟨rfl, htail⟩ := List.cons_prefix_cons.1 hes'
        obtain ⟨v, hv, ht⟩ := run_cons_eq_some.1 ht
        exact (h v hv).2 es' e' t u htail ht hu

/-- Where a step that meets its condition keeps the invariant, and one that does
not leads out of what is promised, the promise is kept throughout exactly when
every step meets its condition. -/
theorem throughout_iff_met (hpromise : ∀ s, I s → P s) (hkeep : ∀ s e t, I s → step s e = some t → Q s e → I t)
    (hbreak : ∀ s e t, I s → step s e = some t → P t → Q s e) (hs : I s) :
    Throughout step P s es ↔ Met step Q s es := by
  induction es generalizing s with
  | nil => exact iff_of_true (throughout_nil.2 (hpromise s hs)) met_nil
  | cons e es ih =>
      rw [throughout_cons, met_cons]
      constructor
      · rintro ⟨-, h⟩ t ht
        have hpt : P t := h t ht [] t List.nil_prefix rfl
        have hq := hbreak s e t hs ht hpt
        exact ⟨hq, (ih (hkeep s e t hs ht hq)).1 (h t ht)⟩
      · intro h
        refine ⟨hpromise s hs, fun t ht => ?_⟩
        obtain ⟨hq, h⟩ := h t ht
        exact (ih (hkeep s e t hs ht hq)).2 h

theorem met_congr {R : σ → ε → Prop} (hstep : ∀ s e t, I s → step s e = some t → I t)
    (h : ∀ s e t, I s → step s e = some t → (Q s e ↔ R s e)) (hs : I s) : Met step Q s es ↔ Met step R s es := by
  induction es generalizing s with
  | nil => exact iff_of_true met_nil met_nil
  | cons e es ih =>
      rw [met_cons, met_cons]
      apply forall_congr'
      intro t
      apply imp_congr_right
      intro ht
      exact and_congr (h s e t hs ht) (ih (hstep s e t hs ht))

/-- Whether every step meets its condition can be found by taking them. -/
instance decidableMet [∀ s e, Decidable (Q s e)] : (s : σ) → (es : List ε) → Decidable (Met step Q s es)
  | _, [] => .isTrue met_nil
  | s, e :: es => match h : step s e with
    | none => .isTrue (met_cons.2 fun t ht => absurd (h.symm.trans ht) (Option.some_ne_none t).symm)
    | some t =>
        have := decidableMet t es
        decidable_of_iff (Q s e ∧ Met step Q t es) (by rw [met_cons]; simp [h])

end Rules

end CodeZard.Traces
