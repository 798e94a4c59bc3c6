import CodeZard.Programs

namespace CodeZard.Scripts

open Programs

variable {C W : Type} {A : C → Type} {ε α β : Type}

abbrev Script (C : Type) (A : C → Type) (ε W : Type) := W → (c : C) → Except ε (A c) × W

variable (script : Script C A ε W)

def play : Prog C A ε α → W → Except ε α × W
  | .ret a, w => (.ok a, w)
  | .raise e, w => (.error e, w)
  | .call c k, w => play (k (script w c).1) (script w c).2

def caught (p : Prog C A ε α) : Prog C A ε (Except ε α) :=
  (Except.ok <$> p : Prog C A ε (Except ε α)).rescue fun e => .ret (.error e)

variable {script} {p : Prog C A ε α} {w w' : W}

@[simp] theorem ret_rescue (a : α) (h : ε → Prog C A ε α) : (Prog.ret a : Prog C A ε α).rescue h = .ret a := rfl

@[simp] theorem raise_rescue (e : ε) (h : ε → Prog C A ε α) : (Prog.raise e : Prog C A ε α).rescue h = h e := rfl

@[simp] theorem play_ret (a : α) : play script (.ret a : Prog C A ε α) w = (.ok a, w) := rfl

@[simp] theorem play_raise (e : ε) : play script (.raise e : Prog C A ε α) w = (.error e, w) := rfl

@[simp] theorem play_perform (c : C) : play script (perform c) w = script w c := by
  have hcall : play script (perform c) w = play script (ofExcept (script w c).1) (script w c).2 := rfl
  rw [hcall]
  rcases script w c with ⟨(e | a), w'⟩
  · rfl
  · rfl

theorem play_bind (f : α → Prog C A ε β) :
    play script (p.bind f) w = match play script p w with
      | (.ok a, w') => play script (f a) w'
      | (.error e, w') => (.error e, w') := by
  induction p generalizing w with
  | ret a => rfl
  | raise e => rfl
  | call c k ih => exact ih _

theorem play_rescue (h : ε → Prog C A ε α) :
    play script (p.rescue h) w = match play script p w with
      | (.ok a, w') => (.ok a, w')
      | (.error e, w') => play script (h e) w' := by
  induction p generalizing w with
  | ret a => rfl
  | raise e => rfl
  | call c k ih => exact ih _

theorem play_bind_ok {a : α} (h : play script p w = (.ok a, w')) (f : α → Prog C A ε β) :
    play script (p.bind f) w = play script (f a) w' := by
  rw [play_bind, h]

theorem play_bind_error {e : ε} (h : play script p w = (.error e, w')) (f : α → Prog C A ε β) :
    play script (p.bind f) w = (.error e, w') := by
  rw [play_bind, h]

@[simp] theorem play_caught : play script (caught p) w = (.ok (play script p w).1, (play script p w).2) := by
  have hmap : play script (p.bind fun a => .ret (Except.ok a : Except ε α)) w =
      ((play script p w).1.map Except.ok, (play script p w).2) := by
    rw [play_bind]
    rcases play script p w with ⟨(e | a), w'⟩
    · rfl
    · rfl
  rw [caught, map_eq, play_rescue, hmap]
  rcases play script p w with ⟨(e | a), w'⟩
  · rfl
  · rfl

end CodeZard.Scripts
