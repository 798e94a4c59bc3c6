import CodeZard.Interleaving

namespace CodeZard.Simulations

open Programs Interleaving

variable {Q C W V R S : Type} {A : C → Type} {ε α : Type} {body : Q → Prog C A ε α} {step : Step C A ε W R}
  {stepV : Step C A ε V S} {starts : Q → Prop} {cond : Condition W Q C A ε α R} {condV : Condition V Q C A ε α S}
  {Rel : W → V → Prop}

def Simulates (step : Step C A ε W R) (stepV : Step C A ε V S) (cond : Condition W Q C A ε α R)
    (condV : Condition V Q C A ε α S) (Rel : W → V → Prop) : Prop :=
  ∀ {w v vs u c r a w'}, Rel w v → cond w vs u c r → step w c r = some (a, w') →
    ∃ s v', condV v vs u c s ∧ stepV v c s = some (a, v') ∧ Rel w' v'

def Alike (Rel : W → V → Prop) (c : Config W Q C A ε α) (d : Config V Q C A ε α) : Prop :=
  d.threads = c.threads ∧ Rel c.world d.world

theorem Alike.views {c : Config W Q C A ε α} {d : Config V Q C A ε α} (h : Alike Rel c d) : d.views = c.views := by
  rw [Config.views, Config.views, h.1]

theorem next_of_simulates (hsim : Simulates step stepV cond condV Rel) {c c' : Config W Q C A ε α}
    {d : Config V Q C A ε α} (h : Alike Rel c d) {e : Event Q R} (hp : Permits starts cond c e)
    (hn : next body step c e = some c') :
    ∃ e' d', Permits starts condV d e' ∧ next body stepV d e' = some d' ∧ Alike Rel c' d' := by
  obtain ⟨hthreads, hrel⟩ := h
  cases e with
  | start q =>
      cases hn
      exact ⟨.start q, _, hp, rfl, by rw [hthreads], hrel⟩
  | step i r =>
      obtain ⟨t, ht, hn⟩ := Option.bind_eq_some_iff.1 hn
      split at hn
      · rename_i k f hresult hrest
        obtain ⟨⟨a, w'⟩, hs, rfl⟩ := Option.map_eq_some_iff.1 hn
        obtain ⟨s, v', hcond, hstep, hrel'⟩ := hsim hrel (hp t ht _ _ hrest) hs
        have hviews : d.views = c.views := by rw [Config.views, Config.views, hthreads]
        refine ⟨.step i s, ⟨v', d.threads.set i ⟨⟨t.request, ⟨k, a⟩ :: t.log, none⟩, f a⟩⟩, ?_, ?_, ?_, hrel'⟩
        · intro t' ht' k' f' hrest'
          rw [hthreads, ht] at ht'
          obtain rfl := Option.some.inj ht'
          rw [hrest] at hrest'
          cases hrest'
          rw [hviews]
          exact hcond
        · simp only [next, hthreads, ht, Option.bind_some, hresult, hrest, hstep, Option.map_some]
        · rw [hthreads]
      · cases hn
  | finish i =>
      obtain ⟨t, ht, hn⟩ := Option.bind_eq_some_iff.1 hn
      split at hn
      · rename_i hresult hrest
        cases hn
        refine ⟨.finish i, ⟨d.world, _⟩, trivial, ?_, rfl, hrel⟩
        simp only [next, hthreads, ht, Option.bind_some, hresult, hrest]
      · rename_i hresult hrest
        cases hn
        refine ⟨.finish i, ⟨d.world, _⟩, trivial, ?_, rfl, hrel⟩
        simp only [next, hthreads, ht, Option.bind_some, hresult, hrest]
      · cases hn

theorem reaches_of_simulates (hsim : Simulates step stepV cond condV Rel) {w : W} {v : V} (h₀ : Rel w v)
    {c : Config W Q C A ε α} (h : Reaches body step starts cond w c) :
    ∃ d, Reaches body stepV starts condV v d ∧ Alike Rel c d := by
  induction h with
  | init => exact ⟨⟨v, []⟩, .init, rfl, h₀⟩
  | next _ hp hn ih =>
      obtain ⟨d, hd, halike⟩ := ih
      obtain ⟨e', d', hp', hn', halike'⟩ := next_of_simulates hsim halike hp hn
      exact ⟨d', hd.next hp' hn', halike'⟩

end CodeZard.Simulations
