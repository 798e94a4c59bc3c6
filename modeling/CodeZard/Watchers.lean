import CodeZard.Interleaving

namespace CodeZard.Watchers

open Programs Interleaving

variable {Q C W R O M : Type} {A : C → Type} {ε α : Type}

def calling (c : Config W Q C A ε α) : Event Q R → Option C
  | .step i _ => c.threads[i]?.bind fun t => match t.rest with
    | .call k _ => some k
    | _ => none
  | _ => none

def watch (body : Q → Prog C A ε α) (step : Step C A ε W R) (hear : W → C → O → O) (move : W → O → M → Option O)
    (s : Config W Q C A ε α × O) : Event Q R ⊕ M → Option (Config W Q C A ε α × O)
  | .inl e => (next body step s.1 e).map fun c => (c, (calling s.1 e).elim s.2 fun k => hear s.1.world k s.2)
  | .inr m => (move s.1.world s.2 m).map fun o => (s.1, o)

def Allowed (starts : Q → Prop) (cond : Condition W Q C A ε α R) (c : Config W Q C A ε α) : Event Q R ⊕ M → Prop
  | .inl e => Permits starts cond c e
  | .inr _ => True

inductive Watched (body : Q → Prog C A ε α) (step : Step C A ε W R) (starts : Q → Prop) (cond : Condition W Q C A ε α R)
    (hear : W → C → O → O) (move : W → O → M → Option O) (w : W) (o : O) : Config W Q C A ε α → O → Prop
  | init : Watched body step starts cond hear move w o ⟨w, []⟩ o
  | next {c d : Config W Q C A ε α} {o' o'' : O} {e : Event Q R ⊕ M} (h : Watched body step starts cond hear move w o c o')
      (hp : Allowed starts cond c e) (hn : watch body step hear move (c, o') e = some (d, o'')) :
      Watched body step starts cond hear move w o d o''

section Schedules

variable (body : Q → Prog C A ε α) (step : Step C A ε W R) (starts : Q → Prop) [DecidablePred starts]
  (cond : Condition W Q C A ε α R) [∀ w vs v c r, Decidable (cond w vs v c r)] (hear : W → C → O → O)
  (move : W → O → M → Option O)

def allowed (c : Config W Q C A ε α) : Event Q R ⊕ M → Bool
  | .inl e => permitted starts cond c e
  | .inr _ => true

def attend (s : Config W Q C A ε α × O) : List (Event Q R ⊕ M) → Option (Config W Q C A ε α × O)
  | [] => some s
  | e :: es => if allowed starts cond s.1 e then (watch body step hear move s e).bind fun s' => attend s' es else none

variable {body step starts cond hear move}

theorem Watched.attend {w : W} {o : O} {s s' : Config W Q C A ε α × O} {es : List (Event Q R ⊕ M)}
    (h : Watched body step starts cond hear move w o s.1 s.2)
    (hs : Watchers.attend body step starts cond hear move s es = some s') :
    Watched body step starts cond hear move w o s'.1 s'.2 := by
  induction es generalizing s with
  | nil =>
      cases hs
      exact h
  | cons e es ih =>
      simp only [Watchers.attend] at hs
      split at hs
      · rename_i hallowed
        obtain ⟨d, hn, hs⟩ := Option.bind_eq_some_iff.1 hs
        refine ih (h.next ?_ hn) hs
        cases e with
        | inl e => exact permits_of_permitted hallowed
        | inr m => trivial
      · cases hs

theorem watched_of_attend {w : W} {o : O} {es : List (Event Q R ⊕ M)} {p : Config W Q C A ε α × O → Bool}
    (h : (attend body step starts cond hear move (⟨w, []⟩, o) es).any p = true) :
    ∃ c o', Watched body step starts cond hear move w o c o' ∧ p (c, o') = true := by
  obtain ⟨s, hs, hp⟩ := (Option.any_eq_true _ _).1 h
  exact ⟨s.1, s.2, Watched.attend (s := (⟨w, []⟩, o)) .init hs, hp⟩

end Schedules

variable {body : Q → Prog C A ε α} {step : Step C A ε W R} {starts : Q → Prop} {cond : Condition W Q C A ε α R}
  {hear : W → C → O → O} {move : W → O → M → Option O}

theorem Watched.reaches {w : W} {o o' : O} {c : Config W Q C A ε α}
    (h : Watched body step starts cond hear move w o c o') : Reaches body step starts cond w c := by
  induction h with
  | init => exact .init
  | @next c d o' o'' e _ hp hn ih =>
      cases e with
      | inl e =>
          obtain ⟨d', hd, he⟩ := Option.map_eq_some_iff.1 hn
          cases he
          exact ih.next hp hd
      | inr m =>
          obtain ⟨o, _, hd⟩ := Option.map_eq_some_iff.1 hn
          cases hd
          exact ih

variable (step cond hear move) in
/-- An invariant of the pool and of those who overhear it, with what is `known` of the pool alone. -/
structure Vigil (known : W → List (View Q C A ε α) → Prop) where
  inv : W → List (View Q C A ε α) → O → Prop
  arrive : ∀ {q w vs o}, inv w vs o → inv w (vs ++ [⟨q, [], none⟩]) o
  heard : ∀ {w vs i q log c r a w' o}, inv w vs o → known w vs → vs[i]? = some ⟨q, log, none⟩ →
    known w' (vs.set i ⟨q, ⟨c, a⟩ :: log, none⟩) → cond w vs ⟨q, log, none⟩ c r → step w c r = some (a, w') →
    inv w' (vs.set i ⟨q, ⟨c, a⟩ :: log, none⟩) (hear w c o)
  leave : ∀ {w vs i q log x o}, inv w vs o → vs[i]? = some ⟨q, log, none⟩ → inv w (vs.set i ⟨q, log, some x⟩) o
  moved : ∀ {w vs o m o'}, inv w vs o → move w o m = some o' → inv w vs o'

theorem Vigil.invariant {known : W → List (View Q C A ε α) → Prop} (V : Vigil step cond hear move known) {w : W} {o o' : O}
    {c : Config W Q C A ε α} (hknown : ∀ {c}, Reaches body step starts cond w c → known c.world c.views)
    (h₀ : V.inv w [] o) (h : Watched body step starts cond hear move w o c o') : V.inv c.world c.views o' := by
  induction h with
  | init => exact h₀
  | @next c d o' o'' e h hp hn ih =>
      cases e with
      | inr m =>
          obtain ⟨o, hm, hd⟩ := Option.map_eq_some_iff.1 hn
          cases hd
          exact V.moved ih hm
      | inl e =>
          obtain ⟨d', hd, he⟩ := Option.map_eq_some_iff.1 hn
          obtain ⟨rfl, rfl⟩ := Prod.mk.inj he
          have hlater := hknown (h.reaches.next hp hd)
          cases e with
          | start q =>
              cases hd
              simpa [Config.views, calling] using V.arrive ih
          | step i r =>
              obtain ⟨t, ht, hd⟩ := Option.bind_eq_some_iff.1 hd
              rcases t with ⟨⟨q, log, result⟩, rest⟩
              cases result with
              | some o => cases hd
              | none =>
                  cases rest with
                  | ret a => cases hd
                  | raise e => cases hd
                  | call k f =>
                      obtain ⟨⟨a, w⟩, hs, rfl⟩ := Option.map_eq_some_iff.1 hd
                      have hv : c.views[i]? = some ⟨q, log, none⟩ := by simp [Config.views, ht]
                      have hcall : calling c (.step i r : Event Q R) = some k := by simp [calling, ht]
                      simp only [Config.views, List.map_set, hcall, Option.elim_some] at hlater ⊢
                      exact V.heard ih (hknown h.reaches) hv hlater (hp _ ht k f rfl) hs
          | finish i =>
              obtain ⟨t, ht, hd⟩ := Option.bind_eq_some_iff.1 hd
              rcases t with ⟨⟨q, log, result⟩, rest⟩
              cases result with
              | some o => cases hd
              | none =>
                  have hv : c.views[i]? = some ⟨q, log, none⟩ := by simp [Config.views, ht]
                  cases rest with
                  | call k f => cases hd
                  | ret a | raise e =>
                      cases hd
                      simpa [Config.views, List.map_set, calling] using V.leave ih hv

end CodeZard.Watchers
