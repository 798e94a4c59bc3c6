import CodeZard.Interleaving

namespace CodeZard.Compositions

open Programs Interleaving

variable {C D : Type} {A : C → Type} {B : D → Type} {ε δ α : Type}

def through (f : (c : C) → Prog D B δ (Except ε (A c))) : Prog C A ε α → Prog D B δ (Except ε α)
  | .ret a => .ret (.ok a)
  | .raise e => .ret (.error e)
  | .call c k => (f c).bind fun a => through f (k a)

@[simp] theorem through_ret (f : (c : C) → Prog D B δ (Except ε (A c))) (a : α) :
    through f (.ret a : Prog C A ε α) = .ret (.ok a) := rfl

@[simp] theorem through_raise (f : (c : C) → Prog D B δ (Except ε (A c))) (e : ε) :
    through f (.raise e : Prog C A ε α) = .ret (.error e) := rfl

section Protocols

variable {guard : Log C A ε → C → Prop} {admits : Log C A ε → (c : C) → Except ε (A c) → Prop}
  {post : Except ε α → Log C A ε → Prop} {guard' : Log D B δ → D → Prop}
  {admits' : Log D B δ → (d : D) → Except δ (B d) → Prop}

/-- A program that keeps to a protocol keeps to another one when its calls are
carried out, if what carries out a call does and answers as the first admits. -/
theorem keeps_through {f : (c : C) → Prog D B δ (Except ε (A c))} {J : Log C A ε → Log D B δ → Prop}
    (hf : ∀ log log' c, J log log' → guard log c → Keeps guard' admits' (fun o log'' =>
      ∃ a, o = .ok a ∧ admits log c a ∧ J (⟨c, a⟩ :: log) log'') (f c) log')
    {p : Prog C A ε α} {log : Log C A ε} {log' : Log D B δ} (hp : Keeps guard admits post p log) (hJ : J log log') :
    Keeps guard' admits' (fun o log'' => ∃ o' log, o = .ok o' ∧ post o' log ∧ J log log'') (through f p) log' := by
  induction p generalizing log log' with
  | ret a => exact ⟨.ok a, log, rfl, hp, hJ⟩
  | raise e => exact ⟨.error e, log, rfl, hp, hJ⟩
  | call c k ih =>
      refine keeps_bind.2 ((hf log log' c hJ hp.1).mono ?_)
      rintro _ log'' ⟨a, rfl, ha, hJ⟩
      exact ih a (hp.2 a ha) hJ

/-- If what carries out a call has then heard its answer, and forgets none, the
program has heard everything that it goes by. -/
theorem keeps_heard {f : (c : C) → Prog D B δ (Except ε (A c))} {Hears : Log D B δ → (c : C) → Except ε (A c) → Prop}
    (hf : ∀ log log' c, Keeps guard' admits' (fun o log'' => ∃ a, o = .ok a ∧ admits log c a ∧ Hears log'' c a ∧
      ∀ c' a', Hears log' c' a' → Hears log'' c' a') (f c) log')
    {p : Prog C A ε α} (hp : Keeps guard admits post p []) (log' : Log D B δ) :
    Keeps guard' admits' (fun o log'' => ∃ o' log, o = .ok o' ∧ post o' log ∧ ∀ x ∈ log, Hears log'' x.1 x.2)
      (through f p) log' := by
  refine keeps_through (J := fun log log' => ∀ x ∈ log, Hears log' x.1 x.2) ?_ hp (by simp)
  intro log log' c hJ _
  refine (hf log log' c).mono ?_
  rintro _ log'' ⟨a, rfl, ha, hnew, hold⟩
  refine ⟨a, rfl, ha, fun x hx => ?_⟩
  rcases List.mem_cons.1 hx with rfl | hx
  · exact hnew
  · exact hold _ _ (hJ x hx)

end Protocols

end CodeZard.Compositions
