import Mathlib.Algebra.Order.BigOperators.Group.List
import Mathlib.Algebra.Order.Ring.Int
import Mathlib.Algebra.Order.Ring.Nat

namespace CodeZard.Programs

/-- A program as the tree of its calls. It stops with a value or an error, or
makes one call and goes on with whatever that call answers or raises. -/
inductive Prog (C : Type) (A : C → Type) (ε α : Type) : Type
  | ret (a : α)
  | raise (e : ε)
  | call (c : C) (k : Except ε (A c) → Prog C A ε α)

variable {C W R : Type} {A : C → Type} {ε α β : Type}

def Prog.bind : Prog C A ε α → (α → Prog C A ε β) → Prog C A ε β
  | .ret a, f => f a
  | .raise e, _ => .raise e
  | .call c k, f => .call c (fun r => (k r).bind f)

def Prog.rescue : Prog C A ε α → (ε → Prog C A ε α) → Prog C A ε α
  | .ret a, _ => .ret a
  | .raise e, h => h e
  | .call c k, h => .call c (fun r => (k r).rescue h)

instance : Monad (Prog C A ε) where
  pure := .ret
  bind := .bind

def ofExcept : Except ε α → Prog C A ε α
  | .ok a => .ret a
  | .error e => .raise e

def perform (c : C) : Prog C A ε (A c) := .call c ofExcept

/-- `try: body finally: last`. What the body raises is raised again, unless the
last part raises something itself. -/
def Prog.ensuring (body : Prog C A ε α) (last : Prog C A ε Unit) : Prog C A ε α :=
  ((body.bind fun a => .ret (.ok a)).rescue fun e => .ret (.error e)).bind fun (o : Except ε α) =>
    last.bind fun _ => ofExcept o

@[simp] theorem pure_eq (a : α) : (pure a : Prog C A ε α) = .ret a := rfl

@[simp] theorem bind_eq (p : Prog C A ε α) (f : α → Prog C A ε β) : p >>= f = p.bind f := rfl

@[simp] theorem map_eq (p : Prog C A ε α) (f : α → β) : f <$> p = p.bind (fun a => .ret (f a)) := rfl

@[simp] theorem ret_bind (a : α) (f : α → Prog C A ε β) : (Prog.ret a : Prog C A ε α).bind f = f a := rfl

@[simp] theorem raise_bind (e : ε) (f : α → Prog C A ε β) :
    (Prog.raise e : Prog C A ε α).bind f = .raise e := rfl

@[simp] theorem ofExcept_ok (a : α) : (ofExcept (.ok a) : Prog C A ε α) = .ret a := rfl

@[simp] theorem ofExcept_error (e : ε) : (ofExcept (.error e) : Prog C A ε α) = .raise e := rfl

abbrev Step (C : Type) (A : C → Type) (ε W R : Type) :=
  W → (c : C) → R → Option (Except ε (A c) × W)

/-- Running alone: each reply answers one call, and none is left over. -/
def exec (step : Step C A ε W R) : Prog C A ε α → W → List R → Option (Except ε α × W)
  | .ret a, w, [] => some (.ok a, w)
  | .raise e, w, [] => some (.error e, w)
  | .call c k, w, r :: rs => (step w c r).bind fun s => exec step (k s.1) s.2 rs
  | _, _, _ => none

/-- `post` holds however the calls are answered, when nobody else runs. -/
def Always (step : Step C A ε W R) (post : Except ε α → W → Prop) : Prog C A ε α → W → Prop
  | .ret a, w => post (.ok a) w
  | .raise e, w => post (.error e) w
  | .call c k, w => ∀ r a w', step w c r = some (a, w') → Always step post (k a) w'

variable {step : Step C A ε W R} {post : Except ε α → W → Prop}

theorem Always.exec {P : Except ε α → W → Prop} {p : Prog C A ε α} {w w' : W} {rs : List R} {o : Except ε α}
    (h : Always step P p w) (he : exec step p w rs = some (o, w')) : P o w' := by
  induction p generalizing w rs with
  | ret a =>
      cases rs with
      | nil => cases he; exact h
      | cons r rs => cases he
  | raise e =>
      cases rs with
      | nil => cases he; exact h
      | cons r rs => cases he
  | call c k ih =>
      cases rs with
      | nil => cases he
      | cons r rs =>
          obtain ⟨⟨a, w₁⟩, hs, hk⟩ := Option.bind_eq_some_iff.1 he
          exact ih a (h r a w₁ hs) hk

theorem always_of_exec {p : Prog C A ε α} {w : W}
    (h : ∀ rs o w', exec step p w rs = some (o, w') → post o w') : Always step post p w := by
  induction p generalizing w with
  | ret a => exact h [] _ _ rfl
  | raise e => exact h [] _ _ rfl
  | call c k ih =>
      intro r a w₁ hs
      refine ih a fun rs o w' he => h (r :: rs) o w' ?_
      rw [Programs.exec, hs]
      exact he

theorem Always.mono {p : Prog C A ε α} {w : W} {post' : Except ε α → W → Prop}
    (h : Always step post p w) (hp : ∀ o w, post o w → post' o w) : Always step post' p w := by
  induction p generalizing w with
  | ret a => exact hp _ _ h
  | raise e => exact hp _ _ h
  | call c k ih => exact fun r a w' hs => ih a (h r a w' hs)

theorem always_bind {p : Prog C A ε β} {f : β → Prog C A ε α} {w : W} :
    Always step post (p.bind f) w ↔ Always step (fun o w => match o with
      | .ok b => Always step post (f b) w
      | .error e => post (.error e) w) p w := by
  induction p generalizing w with
  | ret b => rfl
  | raise e => rfl
  | call c k ih => exact forall_congr' fun r => forall_congr' fun a => forall_congr' fun w' =>
      forall_congr' fun _ => ih a

theorem always_perform {c : C} {post : Except ε (A c) → W → Prop} {w : W} :
    Always step post (perform c) w ↔ ∀ r a w', step w c r = some (a, w') → post a w' := by
  refine forall_congr' fun r => forall_congr' fun a => forall_congr' fun w' => forall_congr' fun _ => ?_
  cases a <;> rfl

theorem always_ofExcept {x : Except ε α} {w : W} :
    Always step post (ofExcept x : Prog C A ε α) w ↔ post x w := by
  cases x <;> rfl

theorem always_rescue {p : Prog C A ε α} {h : ε → Prog C A ε α} {w : W} :
    Always step post (p.rescue h) w ↔ Always step (fun o w => match o with
      | .ok a => post (.ok a) w
      | .error e => Always step post (h e) w) p w := by
  induction p generalizing w with
  | ret b => rfl
  | raise e => rfl
  | call c k ih => exact forall_congr' fun r => forall_congr' fun a => forall_congr' fun w' =>
      forall_congr' fun _ => ih a

end CodeZard.Programs
