import CodeZard.Interleaving

namespace CodeZard.Histories

open Programs Interleaving

variable {Q C V W R : Type} {A : C → Type} {ε α : Type}

/-- The steps of a world that a rule allows. -/
def restrict (rule : W → C → R → Prop) [∀ w c r, Decidable (rule w c r)] (step : Step C A ε W R) : Step C A ε W R :=
  fun w c r => if rule w c r then step w c r else none

theorem restrict_eq_some {rule : W → C → R → Prop} [∀ w c r, Decidable (rule w c r)] {step : Step C A ε W R}
    {w : W} {c : C} {r : R} {x : Except ε (A c) × W} :
    restrict rule step w c r = some x ↔ rule w c r ∧ step w c r = some x := by
  unfold restrict
  split <;> simp [*]

/-- One request at a time, each with the replies to its calls, whether it
returns or raises. -/
def replay (body : Q → Prog C A ε α) (step : Step C A ε W R) : W → List (Q × List R) → Option W
  | w, [] => some w
  | w, (q, rs) :: h => (exec step (body q) w rs).bind fun s => replay body step s.2 h

section Runs

variable {step : Step C A ε W R} {stepV : Step C A ε V R} {guard : Log C A ε → C → Prop}
  {admits : Log C A ε → (c : C) → Except ε (A c) → Prop} {post : Except ε α → Log C A ε → Prop}

theorem always_invariant (Inv : W → Prop)
    (hstep : ∀ log w c r a w', Inv w → guard log c → step w c r = some (a, w') → admits log c a ∧ Inv w')
    {p : Prog C A ε α} {log : Log C A ε} (hp : Keeps guard admits post p log) {w : W} (hw : Inv w) :
    Always step (fun _ v => Inv v) p w := by
  induction p generalizing log w with
  | ret a => exact hw
  | raise e => exact hw
  | call c k ih =>
      intro r a w₁ hs
      obtain ⟨ha, hw₁⟩ := hstep log w c r a w₁ hw hp.1 hs
      exact ih a (hp.2 a ha) hw₁

theorem exec_invariant (Inv : W → Prop)
    (hstep : ∀ log w c r a w', Inv w → guard log c → step w c r = some (a, w') → admits log c a ∧ Inv w')
    {p : Prog C A ε α} {log : Log C A ε} (hp : Keeps guard admits post p log) {w w' : W} {rs : List R}
    {o : Except ε α} (he : exec step p w rs = some (o, w')) (hw : Inv w) : Inv w' :=
  (always_invariant Inv hstep hp hw).exec he

theorem exec_lockstep {Rel : W → V → Prop}
    (hstep : ∀ log w v c r a w', Rel w v → guard log c → step w c r = some (a, w') →
      admits log c a ∧ ∃ v', stepV v c r = some (a, v') ∧ Rel w' v')
    {p : Prog C A ε α} {log : Log C A ε} (hp : Keeps guard admits post p log) {w w' : W} {v : V} {rs : List R}
    {o : Except ε α} (he : exec step p w rs = some (o, w')) (hr : Rel w v) :
    ∃ v', exec stepV p v rs = some (o, v') ∧ Rel w' v' := by
  induction p generalizing log w v rs with
  | ret a =>
      cases rs with
      | nil => cases he; exact ⟨v, rfl, hr⟩
      | cons r rs => cases he
  | raise e =>
      cases rs with
      | nil => cases he; exact ⟨v, rfl, hr⟩
      | cons r rs => cases he
  | call c k ih =>
      cases rs with
      | nil => cases he
      | cons r rs =>
          obtain ⟨⟨a, w₁⟩, hs, hk⟩ := Option.bind_eq_some_iff.1 he
          obtain ⟨ha, v₁, hv₁, hr₁⟩ := hstep log w v c r a w₁ hr hp.1 hs
          obtain ⟨v', hv', hr'⟩ := ih a (hp.2 a ha) hk hr₁
          exact ⟨v', by rw [exec, hv₁]; exact hv', hr'⟩

end Runs

theorem replay_filter {body : Q → Prog C A ε α} {step : Step C A ε W R} {stepV : Step C A ε V R} {Rel : W → V → Prop}
    (keep : Q → Bool) {h : List (Q × List R)}
    (hkeep : ∀ q rs w v o w', (q, rs) ∈ h → keep q = true → Rel w v → exec step (body q) w rs = some (o, w') →
      ∃ v', exec stepV (body q) v rs = some (o, v') ∧ Rel w' v')
    (hdrop : ∀ q rs w v o w', (q, rs) ∈ h → keep q = false → Rel w v → exec step (body q) w rs = some (o, w') →
      Rel w' v)
    {w w' : W} {v : V} (hr : replay body step w h = some w') (hv : Rel w v) :
    ∃ v', replay body stepV v (h.filter fun p => keep p.1) = some v' ∧ Rel w' v' := by
  induction h generalizing w v with
  | nil =>
      cases hr
      exact ⟨v, rfl, hv⟩
  | cons p h ih =>
      obtain ⟨⟨o, w₁⟩, he, hr⟩ := Option.bind_eq_some_iff.1 hr
      have ih' {v : V} := ih (v := v) (fun q rs w v o w' hm => hkeep q rs w v o w' (List.mem_cons_of_mem _ hm))
        (fun q rs w v o w' hm => hdrop q rs w v o w' (List.mem_cons_of_mem _ hm)) hr
      cases hk : keep p.1 with
      | true =>
          obtain ⟨v₁, hv₁, hr₁⟩ := hkeep p.1 p.2 w v o w₁ List.mem_cons_self hk hv he
          obtain ⟨v', hv', hr'⟩ := ih' hr₁
          refine ⟨v', ?_, hr'⟩
          rw [List.filter_cons, if_pos hk, replay, hv₁]
          exact hv'
      | false =>
          obtain ⟨v', hv', hr'⟩ := ih' (hdrop p.1 p.2 w v o w₁ List.mem_cons_self hk hv he)
          refine ⟨v', ?_, hr'⟩
          rwa [List.filter_cons, if_neg (by simp [hk])]

/-- The worlds left by some calls, one at a time. Each call begins with `enter`
and ends by returning or raising. -/
inductive After (body : Q → Prog C A ε α) (step : Step C A ε W R) (enter : W → W) (starts : Q → Prop) (w : W) : W → Prop
  | init : After body step enter starts w w
  | call {u v : W} {q : Q} {rs : List R} {o : Except ε α} (h : After body step enter starts w u) (hq : starts q)
      (he : exec step (body q) (enter u) rs = some (o, v)) : After body step enter starts w v

theorem After.invariant {body : Q → Prog C A ε α} {step : Step C A ε W R} {enter : W → W} {starts : Q → Prop}
    {Inv : W → Prop} {w v : W} (h₀ : Inv w)
    (hcall : ∀ q u, starts q → Inv u → Always step (fun _ v => Inv v) (body q) (enter u))
    (h : After body step enter starts w v) : Inv v := by
  induction h with
  | init => exact h₀
  | call _ hq he ih => exact (hcall _ _ hq ih).exec he

end CodeZard.Histories
