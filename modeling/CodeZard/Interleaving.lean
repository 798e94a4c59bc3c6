import CodeZard.Programs

namespace CodeZard.Interleaving

open Programs

variable {Q C W R : Type} {A : C → Type} {ε α β : Type}

abbrev Log (C : Type) (A : C → Type) (ε : Type) := List ((c : C) × Except ε (A c))

structure View (Q C : Type) (A : C → Type) (ε α : Type) where
  request : Q
  log : Log C A ε
  result : Option (Except ε α)

structure Thread (Q C : Type) (A : C → Type) (ε α : Type) extends View Q C A ε α where
  rest : Prog C A ε α

structure Config (W Q C : Type) (A : C → Type) (ε α : Type) where
  world : W
  threads : List (Thread Q C A ε α)

def Config.views (c : Config W Q C A ε α) : List (View Q C A ε α) := c.threads.map Thread.toView

inductive Event (Q R : Type)
  | start (q : Q)
  | step (i : Nat) (r : R)
  | finish (i : Nat)

/-- One atomic step of the pool: a request arrives, one of the running programs
makes its next call, or one that has no call left returns. -/
def next (body : Q → Prog C A ε α) (step : Step C A ε W R) (c : Config W Q C A ε α) :
    Event Q R → Option (Config W Q C A ε α)
  | .start q => some ⟨c.world, c.threads ++ [⟨⟨q, [], none⟩, body q⟩]⟩
  | .step i r => c.threads[i]?.bind fun t => match t.result, t.rest with
    | none, .call k f => (step c.world k r).map fun s =>
        ⟨s.2, c.threads.set i ⟨⟨t.request, ⟨k, s.1⟩ :: t.log, none⟩, f s.1⟩⟩
    | _, _ => none
  | .finish i => c.threads[i]?.bind fun t => match t.result, t.rest with
    | none, .ret a => some ⟨c.world, c.threads.set i ⟨⟨t.request, t.log, some (.ok a)⟩, t.rest⟩⟩
    | none, .raise e => some ⟨c.world, c.threads.set i ⟨⟨t.request, t.log, some (.error e)⟩, t.rest⟩⟩
    | _, _ => none

/-- What a step may be asked to meet: the world and the calls in progress before
it, the call that takes it, and the reply it gets. -/
abbrev Condition (W Q C : Type) (A : C → Type) (ε α R : Type) :=
  W → List (View Q C A ε α) → View Q C A ε α → C → R → Prop

def Permits (starts : Q → Prop) (cond : Condition W Q C A ε α R) (c : Config W Q C A ε α) :
    Event Q R → Prop
  | .start q => starts q
  | .step i r => ∀ t, c.threads[i]? = some t → ∀ k f, t.rest = .call k f →
      cond c.world c.views t.toView k r
  | .finish _ => True

inductive Reaches (body : Q → Prog C A ε α) (step : Step C A ε W R) (starts : Q → Prop)
    (cond : Condition W Q C A ε α R) (w : W) : Config W Q C A ε α → Prop
  | init : Reaches body step starts cond w ⟨w, []⟩
  | next {c d : Config W Q C A ε α} {e : Event Q R} (h : Reaches body step starts cond w c)
      (hp : Permits starts cond c e) (hn : next body step c e = some d) :
      Reaches body step starts cond w d

/-- The configurations that some more steps lead to. -/
inductive Leads (body : Q → Prog C A ε α) (step : Step C A ε W R) (starts : Q → Prop)
    (cond : Condition W Q C A ε α R) (c : Config W Q C A ε α) : Config W Q C A ε α → Prop
  | refl : Leads body step starts cond c c
  | next {d d' : Config W Q C A ε α} {e : Event Q R} (h : Leads body step starts cond c d)
      (hp : Permits starts cond d e) (hn : next body step d e = some d') : Leads body step starts cond c d'

theorem Reaches.leads {body : Q → Prog C A ε α} {step : Step C A ε W R} {starts : Q → Prop}
    {cond : Condition W Q C A ε α R} {w : W} {c d : Config W Q C A ε α} (h : Reaches body step starts cond w c)
    (hd : Leads body step starts cond c d) : Reaches body step starts cond w d := by
  induction hd with
  | refl => exact h
  | next _ hp hn ih => exact ih.next hp hn

theorem Leads.world {body : Q → Prog C A ε α} {step : Step C A ε W R} {starts : Q → Prop}
    {cond : Condition W Q C A ε α R} {P : W → Prop}
    (hstep : ∀ {w vs v c r a w'}, cond w vs v c r → step w c r = some (a, w') → P w → P w')
    {c d : Config W Q C A ε α} (h : Leads body step starts cond c d) (hc : P c.world) : P d.world := by
  induction h with
  | refl => exact hc
  | @next d d' e _ hp hn ih =>
      cases e with
      | start q => cases hn; exact ih
      | step i r =>
          obtain ⟨t, hg, hn⟩ := Option.bind_eq_some_iff.1 hn
          split at hn
          · obtain ⟨⟨a, w⟩, hs, rfl⟩ := Option.map_eq_some_iff.1 hn
            exact hstep (hp t hg _ _ ‹_›) hs ih
          · cases hn
      | finish i =>
          obtain ⟨t, hg, hn⟩ := Option.bind_eq_some_iff.1 hn
          split at hn
          · cases hn; exact ih
          · cases hn; exact ih
          · cases hn

def anyRequest : Q → Prop := fun _ => True

def anyStep : Condition W Q C A ε α R := fun _ _ _ _ _ => True

def both (cond cond' : Condition W Q C A ε α R) : Condition W Q C A ε α R :=
  fun w vs v c r => cond w vs v c r ∧ cond' w vs v c r

instance (cond cond' : Condition W Q C A ε α R) (w : W) (vs : List (View Q C A ε α)) (v : View Q C A ε α) (c : C)
    (r : R) [Decidable (cond w vs v c r)] [Decidable (cond' w vs v c r)] : Decidable (both cond cond' w vs v c r) :=
  inferInstanceAs (Decidable (_ ∧ _))

instance : DecidablePred (anyRequest : Q → Prop) := fun _ => .isTrue trivial

instance (w : W) (vs : List (View Q C A ε α)) (v : View Q C A ε α) (c : C) (r : R) :
    Decidable (anyStep w vs v c r) := .isTrue trivial

def permitted (starts : Q → Prop) [DecidablePred starts] (cond : Condition W Q C A ε α R)
    [∀ w vs v c r, Decidable (cond w vs v c r)] (c : Config W Q C A ε α) : Event Q R → Bool
  | .start q => starts q
  | .step i r => match c.threads[i]? with
    | some t => match t.rest with
      | .call k _ => cond c.world c.views t.toView k r
      | _ => true
    | none => true
  | .finish _ => true

section Schedules

variable (body : Q → Prog C A ε α) (step : Step C A ε W R) (starts : Q → Prop) [DecidablePred starts]
  (cond : Condition W Q C A ε α R) [∀ w vs v c r, Decidable (cond w vs v c r)]

/-- What a schedule leads to, if each of its events can happen and is permitted. -/
def run (c : Config W Q C A ε α) : List (Event Q R) → Option (Config W Q C A ε α)
  | [] => some c
  | e :: es => if permitted starts cond c e then (next body step c e).bind fun d => run d es else none

variable {body step starts cond}

theorem permits_of_permitted {c : Config W Q C A ε α} {e : Event Q R}
    (h : permitted starts cond c e = true) : Permits starts cond c e := by
  cases e with
  | start q => exact of_decide_eq_true (p := starts q) h
  | finish i => trivial
  | step i r =>
      intro t ht k f hf
      simp only [permitted, ht, hf] at h
      exact of_decide_eq_true h

theorem Leads.run {b c d : Config W Q C A ε α} {es : List (Event Q R)} (h : Leads body step starts cond b c)
    (hr : Interleaving.run body step starts cond c es = some d) : Leads body step starts cond b d := by
  induction es generalizing c with
  | nil => cases hr; exact h
  | cons e es ih =>
      simp only [Interleaving.run] at hr
      split at hr
      · obtain ⟨c', hn, hr⟩ := Option.bind_eq_some_iff.1 hr
        exact ih (h.next (permits_of_permitted ‹_›) hn) hr
      · cases hr

theorem Reaches.run {w : W} {c d : Config W Q C A ε α} {es : List (Event Q R)}
    (h : Reaches body step starts cond w c)
    (hr : Interleaving.run body step starts cond c es = some d) : Reaches body step starts cond w d :=
  h.leads (Leads.refl.run hr)

theorem reaches_of_run {w : W} {es : List (Event Q R)} {p : Config W Q C A ε α → Bool}
    (h : (run body step starts cond ⟨w, []⟩ es).any p = true) :
    ∃ c, Reaches body step starts cond w c ∧ p c = true := by
  obtain ⟨c, hc, hp⟩ := (Option.any_eq_true _ _).1 h
  exact ⟨c, Reaches.init.run hc, hp⟩

theorem run_start (c : Config W Q C A ε α) (es : List (Event Q R)) (q : Q) (later : List (Event Q R)) :
    run body step starts cond c (es ++ .start q :: later) = (run body step starts cond c es).bind fun d =>
      if permitted starts cond d (.start q) then
        run body step starts cond ⟨d.world, d.threads ++ [⟨⟨q, [], none⟩, body q⟩]⟩ later
      else none := by
  induction es generalizing c with
  | nil => rfl
  | cons e es ih =>
      simp only [List.cons_append, run]
      split
      · simp only [ih, Option.bind_assoc]
      · rfl

end Schedules

/-- A program follows a protocol when each of its calls is one its own log
allows, for every answer the protocol admits, and it stops only where it may. -/
def Keeps (guard : Log C A ε → C → Prop) (admits : Log C A ε → (c : C) → Except ε (A c) → Prop)
    (post : Except ε α → Log C A ε → Prop) : Prog C A ε α → Log C A ε → Prop
  | .ret a, log => post (.ok a) log
  | .raise e, log => post (.error e) log
  | .call c k, log => guard log c ∧ ∀ a, admits log c a → Keeps guard admits post (k a) (⟨c, a⟩ :: log)

section Rules

variable {guard : Log C A ε → C → Prop} {admits : Log C A ε → (c : C) → Except ε (A c) → Prop}
  {post : Except ε α → Log C A ε → Prop} {log : Log C A ε}

theorem Keeps.mono {post' : Except ε α → Log C A ε → Prop} {p : Prog C A ε α}
    (h : Keeps guard admits post p log) (hp : ∀ o log, post o log → post' o log) :
    Keeps guard admits post' p log := by
  induction p generalizing log with
  | ret a => exact hp _ _ h
  | raise e => exact hp _ _ h
  | call c k ih => exact ⟨h.1, fun a ha => ih a (h.2 a ha)⟩

theorem Keeps.restrict {admits' : Log C A ε → (c : C) → Except ε (A c) → Prop} {p : Prog C A ε α}
    (ha : ∀ log c a, admits' log c a → admits log c a) (h : Keeps guard admits post p log) :
    Keeps guard admits' post p log := by
  induction p generalizing log with
  | ret a => exact h
  | raise e => exact h
  | call c k ih => exact ⟨h.1, fun a ha' => ih a (h.2 a (ha log c a ha'))⟩

theorem Keeps.weaken {guard' : Log C A ε → C → Prop} {p : Prog C A ε α} (hg : ∀ log c, guard log c → guard' log c)
    (h : Keeps guard admits post p log) : Keeps guard' admits post p log := by
  induction p generalizing log with
  | ret a => exact h
  | raise e => exact h
  | call c k ih => exact ⟨hg log c h.1, fun a ha => ih a (h.2 a ha)⟩

theorem keeps_of_guard (hg : ∀ log c, guard log c) (p : Prog C A ε α) :
    Keeps guard admits (fun _ _ => True) p log := by
  induction p generalizing log with
  | ret a => trivial
  | raise e => trivial
  | call c k ih => exact ⟨hg log c, fun a _ => ih a⟩

theorem Keeps.and {guard' : Log C A ε → C → Prop} {post' : Except ε α → Log C A ε → Prop} {p : Prog C A ε α}
    (h : Keeps guard admits post p log) (h' : Keeps guard' admits post' p log) :
    Keeps (fun log c => guard log c ∧ guard' log c) admits (fun o log => post o log ∧ post' o log) p log := by
  induction p generalizing log with
  | ret a => exact ⟨h, h'⟩
  | raise e => exact ⟨h, h'⟩
  | call c k ih => exact ⟨⟨h.1, h'.1⟩, fun a ha => ih a (h.2 a ha) (h'.2 a ha)⟩

theorem Keeps.suffix {p : Prog C A ε α} (h : Keeps guard admits post p log) :
    Keeps guard admits (fun o log' => post o log' ∧ log <:+ log') p log := by
  induction p generalizing log with
  | ret a => exact ⟨h, List.suffix_refl log⟩
  | raise e => exact ⟨h, List.suffix_refl log⟩
  | call c k ih => exact ⟨h.1, fun a ha =>
      (ih a (h.2 a ha)).mono fun o log' hp => ⟨hp.1, (List.suffix_cons _ _).trans hp.2⟩⟩

theorem Keeps.invariant {I : Log C A ε → Prop}
    (hI : ∀ log c a, guard log c → admits log c a → I log → I (⟨c, a⟩ :: log)) {p : Prog C A ε α}
    (h : Keeps guard admits post p log) (hl : I log) :
    Keeps guard admits (fun o log => post o log ∧ I log) p log := by
  induction p generalizing log with
  | ret a => exact ⟨h, hl⟩
  | raise e => exact ⟨h, hl⟩
  | call c k ih => exact ⟨h.1, fun a ha => ih a (h.2 a ha) (hI log c a h.1 ha hl)⟩

theorem keeps_bind {p : Prog C A ε β} {f : β → Prog C A ε α} :
    Keeps guard admits post (p.bind f) log ↔ Keeps guard admits (fun o log => match o with
      | .ok b => Keeps guard admits post (f b) log
      | .error e => post (.error e) log) p log := by
  induction p generalizing log with
  | ret b => rfl
  | raise e => rfl
  | call c k ih => exact and_congr_right fun _ => forall_congr' fun a => forall_congr' fun _ => ih a

theorem keeps_rescue {p : Prog C A ε α} {h : ε → Prog C A ε α} :
    Keeps guard admits post (p.rescue h) log ↔ Keeps guard admits (fun o log => match o with
      | .ok a => post (.ok a) log
      | .error e => Keeps guard admits post (h e) log) p log := by
  induction p generalizing log with
  | ret b => rfl
  | raise e => rfl
  | call c k ih => exact and_congr_right fun _ => forall_congr' fun a => forall_congr' fun _ => ih a

theorem keeps_ofExcept {o : Except ε α} : Keeps guard admits post (ofExcept o) log ↔ post o log := by
  cases o <;> rfl

theorem keeps_ensuring {p : Prog C A ε α} {last : Prog C A ε Unit} :
    Keeps guard admits post (p.ensuring last) log ↔ Keeps guard admits (fun o log =>
      Keeps guard admits (fun o' log => match o' with
        | .ok _ => post o log
        | .error e => post (.error e) log) last log) p log := by
  have hlast (o : Except ε α) (log : Log C A ε) :
      Keeps guard admits post (last.bind fun _ => ofExcept o) log ↔
        Keeps guard admits (fun o' log => match o' with
          | .ok _ => post o log
          | .error e => post (.error e) log) last log := by
    rw [keeps_bind]
    constructor
    · intro h
      refine h.mono fun o' log h => ?_
      cases o' <;> cases o <;> exact h
    · intro h
      refine h.mono fun o' log h => ?_
      cases o' <;> cases o <;> exact h
  unfold Prog.ensuring
  rw [keeps_bind, keeps_rescue, keeps_bind]
  constructor
  · intro h
    refine h.mono fun o log h => ?_
    cases o with
    | ok a => exact (hlast _ log).1 h
    | error e => exact (hlast _ log).1 h
  · intro h
    refine h.mono fun o log h => ?_
    cases o with
    | ok a => exact (hlast _ log).2 h
    | error e => exact (hlast _ log).2 h

theorem keeps_perform {c : C} {post : Except ε (A c) → Log C A ε → Prop} :
    Keeps guard admits post (perform c) log ↔
      guard log c ∧ ∀ a, admits log c a → post a (⟨c, a⟩ :: log) := by
  refine and_congr_right fun _ => forall_congr' fun a => forall_congr' fun _ => ?_
  cases a <;> rfl

theorem keeps_perform_bind {c : C} {f : A c → Prog C A ε α} :
    Keeps guard admits post ((perform c).bind f) log ↔ guard log c ∧ ∀ a, admits log c a → match a with
      | .ok v => Keeps guard admits post (f v) (⟨c, .ok v⟩ :: log)
      | .error e => post (.error e) (⟨c, .error e⟩ :: log) := by
  rw [keeps_bind, keeps_perform]
  refine and_congr_right fun _ => forall_congr' fun a => forall_congr' fun _ => ?_
  cases a <;> rfl

/-- From any log of a kind the program keeps to the protocol and stops, however
it stops, with a log of that kind. -/
def Restores (guard : Log C A ε → C → Prop) (admits : Log C A ε → (c : C) → Except ε (A c) → Prop)
    (I : Log C A ε → Prop) (p : Prog C A ε α) : Prop :=
  ∀ log, I log → Keeps guard admits (fun _ log => I log) p log

variable {I : Log C A ε → Prop}

theorem restores_ret (a : α) : Restores guard admits I (.ret a) := fun _ h => h

theorem restores_raise (e : ε) : Restores guard admits I (.raise e : Prog C A ε α) := fun _ h => h

theorem restores_ofExcept (a : Except ε α) : Restores guard admits I (ofExcept a) := by
  cases a with
  | ok a => exact restores_ret a
  | error e => exact restores_raise e

theorem restores_perform {c : C} (hg : ∀ log, I log → guard log c)
    (hI : ∀ log a, I log → admits log c a → I (⟨c, a⟩ :: log)) : Restores guard admits I (perform c) :=
  fun log h => keeps_perform.2 ⟨hg log h, fun a ha => hI log a h ha⟩

theorem Restores.bind {p : Prog C A ε β} {f : β → Prog C A ε α} (hp : Restores guard admits I p)
    (hf : ∀ b, Restores guard admits I (f b)) : Restores guard admits I (p.bind f) := by
  intro log h
  refine keeps_bind.2 ((hp log h).mono fun o log h => ?_)
  cases o with
  | ok b => exact hf b log h
  | error e => exact h

theorem Restores.rescue {p : Prog C A ε α} {f : ε → Prog C A ε α} (hp : Restores guard admits I p)
    (hf : ∀ e, Restores guard admits I (f e)) : Restores guard admits I (p.rescue f) := by
  intro log h
  refine keeps_rescue.2 ((hp log h).mono fun o log h => ?_)
  cases o with
  | ok a => exact h
  | error e => exact hf e log h

theorem Restores.ensuring {p : Prog C A ε α} {last : Prog C A ε Unit} (hp : Restores guard admits I p)
    (hl : Restores guard admits I last) : Restores guard admits I (p.ensuring last) := by
  intro log h
  refine keeps_ensuring.2 ((hp log h).mono fun o log h => (hl log h).mono fun o' log h => ?_)
  cases o' with
  | ok u => exact h
  | error e => exact h

theorem Restores.map {p : Prog C A ε β} (hp : Restores guard admits I p) (f : β → α) :
    Restores guard admits I (f <$> p) :=
  hp.bind fun b => restores_ret (f b)

end Rules

theorem mem_set_self {β : Type} {vs : List β} {i : Nat} {v : β} (h : vs[i]? = some v) (v' : β) :
    v' ∈ vs.set i v' :=
  List.mem_set (List.getElem?_eq_some_iff.1 h).1 v'

theorem mem_concat {β : Type} {vs : List β} {u v : β} (h : u ∈ vs ++ [v]) : u ∈ vs ∨ u = v :=
  (List.mem_append.1 h).imp_right List.mem_singleton.1

theorem mem_set_or_eq {β : Type} {vs : List β} {i : Nat} {u v : β} (h : vs[i]? = some v) (hu : u ∈ vs)
    (v' : β) : u ∈ vs.set i v' ∨ u = v := by
  obtain ⟨j, hj⟩ := List.mem_iff_getElem?.1 hu
  by_cases hij : i = j
  · subst hij
    exact .inr (Option.some.inj (hj.symm.trans h))
  · exact .inl (List.mem_iff_getElem?.2 ⟨j, by rw [List.getElem?_set_ne hij, hj]⟩)

theorem exists_of_set {β : Type} {vs : List β} {i : Nat} {v' : β} {P : β → Prop} (h : ∃ v ∈ vs.set i v', P v) :
    P v' ∨ ∃ v ∈ vs, P v := by
  obtain ⟨v, hv, hp⟩ := h
  rcases List.mem_or_eq_of_mem_set hv with hv | rfl
  · exact .inr ⟨v, hv, hp⟩
  · exact .inl hp

theorem sum_set {β : Type} {f : β → Nat} {vs : List β} {i : Nat} {v : β} (h : vs[i]? = some v) (v' : β) :
    ((vs.set i v').map f).sum + f v = (vs.map f).sum + f v' := by
  induction vs generalizing i with
  | nil => cases h
  | cons u us ih =>
      cases i with
      | zero =>
          cases h
          simp only [List.set_cons_zero, List.map_cons, List.sum_cons]
          omega
      | succ i =>
          have := ih h
          simp only [List.set_cons_succ, List.map_cons, List.sum_cons]
          omega

section AtMostOne

variable {β : Type} {P : β → Prop} {vs : List β} {n : Nat} {v v' : β}

def AtMostOne (P : β → Prop) (vs : List β) : Prop :=
  ∀ (i j : Nat) (u v : β), vs[i]? = some u → vs[j]? = some v → P u → P v → i = j

theorem atMostOne_nil : AtMostOne P [] := by
  intro i j u v hu
  cases hu

theorem atMostOne_of_countP {p : β → Bool} (h : vs.countP p ≤ 1) : AtMostOne (fun v => p v = true) vs := by
  induction vs with
  | nil => exact atMostOne_nil
  | cons x xs ih =>
      have hx (hp : p x = true) (i : Nat) (u : β) (hu : xs[i]? = some u) : ¬ p u = true := by
        rw [List.countP_cons_of_pos hp] at h
        exact List.countP_eq_zero.1 (by omega) u (List.mem_of_getElem? hu)
      intro i j u v hu hv hpu hpv
      rcases i with _ | i <;> rcases j with _ | j
      · rfl
      · cases hu
        exact absurd hpv (hx hpu j v hv)
      · cases hv
        exact absurd hpu (hx hpv i u hu)
      · have hxs : xs.countP p ≤ 1 := by rw [List.countP_cons] at h; omega
        rw [ih hxs i j u v hu hv hpu hpv]

theorem AtMostOne.eq_of_mem (h : AtMostOne P vs) {u : β} (hu : u ∈ vs) (hv : v ∈ vs) (hpu : P u) (hpv : P v) :
    u = v := by
  obtain ⟨i, hi⟩ := List.mem_iff_getElem?.1 hu
  obtain ⟨j, hj⟩ := List.mem_iff_getElem?.1 hv
  obtain rfl := h i j u v hi hj hpu hpv
  exact Option.some.inj (hi.symm.trans hj)

theorem AtMostOne.concat (h : AtMostOne P vs) (hv : ¬ P v) : AtMostOne P (vs ++ [v]) := by
  have hold {i : Nat} {u : β} (hi : (vs ++ [v])[i]? = some u) (hu : P u) : vs[i]? = some u := by
    rcases List.getElem?_eq_some_iff.1 hi with ⟨hlt, rfl⟩
    by_cases hin : i < vs.length
    · rw [List.getElem?_eq_getElem hin, List.getElem_append_left hin]
    · rw [List.getElem_append_right (by omega)] at hu
      exact absurd (by simpa using hu) hv
  exact fun i j u u' hi hj hu hu' => h i j u u' (hold hi hu) (hold hj hu') hu hu'

theorem AtMostOne.set (h : AtMostOne P vs) (hn : vs[n]? = some v) (hv : P v' → P v) :
    AtMostOne P (vs.set n v') := by
  have hold {i : Nat} {u : β} (hi : (vs.set n v')[i]? = some u) (hu : P u) : ∃ u, vs[i]? = some u ∧ P u := by
    by_cases hin : n = i
    · subst hin
      rw [List.getElem?_set_self (List.getElem?_eq_some_iff.1 hn).1] at hi
      obtain rfl := Option.some.inj hi
      exact ⟨v, hn, hv hu⟩
    · rw [List.getElem?_set_ne hin] at hi
      exact ⟨u, hi, hu⟩
  intro i j u u' hi hj hu hu'
  obtain ⟨x, hx, hpx⟩ := hold hi hu
  obtain ⟨y, hy, hpy⟩ := hold hj hu'
  exact h i j x y hx hy hpx hpy

theorem atMostOne_set (h : ∀ u ∈ vs, ¬ P u) : AtMostOne P (vs.set n v') := by
  have hold {i : Nat} {u : β} (hi : (vs.set n v')[i]? = some u) (hu : P u) : i = n := by
    by_contra hin
    rw [List.getElem?_set_ne fun he => hin he.symm] at hi
    exact h u (List.mem_of_getElem? hi) hu
  exact fun i j u u' hi hj hu hu' => (hold hi hu).trans (hold hj hu').symm

theorem AtMostOne.others (h : AtMostOne P vs) (hn : vs[n]? = some v) (hv : P v) {u : β} (hu : u ∈ vs.set n v') :
    u = v' ∨ ¬ P u := by
  obtain ⟨i, hi⟩ := List.mem_iff_getElem?.1 hu
  by_cases hin : n = i
  · subst hin
    rw [List.getElem?_set_self (List.getElem?_eq_some_iff.1 hn).1] at hi
    exact .inl (Option.some.inj hi).symm
  · rw [List.getElem?_set_ne hin] at hi
    exact .inr fun hp => hin (h n i v u hn hi hv hp)

end AtMostOne

/-- An invariant over the world and the logs of all calls, together with the
protocol that the calls follow and that keeps it. -/
structure Protocol (body : Q → Prog C A ε α) (step : Step C A ε W R) (starts : Q → Prop)
    (cond : Condition W Q C A ε α R) where
  inv : W → List (View Q C A ε α) → Prop
  guard : Q → Log C A ε → C → Prop
  admits : Q → Log C A ε → (c : C) → Except ε (A c) → Prop
  post : Q → Except ε α → Log C A ε → Prop
  arrive : ∀ {q w vs}, starts q → inv w vs → inv w (vs ++ [⟨q, [], none⟩])
  follows : ∀ {q}, starts q → Keeps (guard q) (admits q) (post q) (body q) []
  sound : ∀ {w vs i q log c r a w'}, inv w vs → vs[i]? = some ⟨q, log, none⟩ → guard q log c →
    cond w vs ⟨q, log, none⟩ c r → step w c r = some (a, w') →
    inv w' (vs.set i ⟨q, ⟨c, a⟩ :: log, none⟩) ∧ admits q log c a
  leave : ∀ {w vs i q log o}, inv w vs → vs[i]? = some ⟨q, log, none⟩ → post q o log →
    inv w (vs.set i ⟨q, log, some o⟩)

namespace Protocol

variable {body : Q → Prog C A ε α} {step : Step C A ε W R} {starts : Q → Prop}
  {cond : Condition W Q C A ε α R} (P : Protocol body step starts cond)

def Running (t : Thread Q C A ε α) : Prop :=
  t.result = none → Keeps (P.guard t.request) (P.admits t.request) (P.post t.request) t.rest t.log

theorem next_inv {c d : Config W Q C A ε α} {e : Event Q R} (hi : P.inv c.world c.views)
    (ht : ∀ t ∈ c.threads, P.Running t) (hp : Permits starts cond c e)
    (hn : next body step c e = some d) : P.inv d.world d.views ∧ ∀ t ∈ d.threads, P.Running t := by
  cases e with
  | start q =>
      cases hn
      refine ⟨by simpa [Config.views] using P.arrive hp hi, fun t hm => ?_⟩
      rcases List.mem_append.1 hm with hm | hm
      · exact ht t hm
      · obtain rfl := List.mem_singleton.1 hm
        exact fun _ => P.follows hp
  | step i r =>
      obtain ⟨t, hg, hn⟩ := Option.bind_eq_some_iff.1 hn
      rcases t with ⟨⟨q, log, result⟩, rest⟩
      cases result with
      | some o => cases hn
      | none =>
          cases rest with
          | ret a => cases hn
          | raise e => cases hn
          | call k f =>
              obtain ⟨⟨a, w⟩, hs, rfl⟩ := Option.map_eq_some_iff.1 hn
              have hk := ht _ (List.mem_of_getElem? hg) rfl
              have hv : c.views[i]? = some ⟨q, log, none⟩ := by simp [Config.views, hg]
              obtain ⟨hi', ha⟩ := P.sound hi hv hk.1 (hp _ hg k f rfl) hs
              refine ⟨by simpa [Config.views, List.map_set] using hi', fun t hm => ?_⟩
              rcases List.mem_or_eq_of_mem_set hm with hm | rfl
              · exact ht t hm
              · exact fun _ => hk.2 a ha
  | finish i =>
      obtain ⟨t, hg, hn⟩ := Option.bind_eq_some_iff.1 hn
      rcases t with ⟨⟨q, log, result⟩, rest⟩
      have hv : result = none → c.views[i]? = some ⟨q, log, none⟩ := by
        rintro rfl; simp [Config.views, hg]
      have hk := ht _ (List.mem_of_getElem? hg)
      cases result with
      | some o => cases hn
      | none =>
          cases rest with
          | call k f => cases hn
          | ret a | raise e =>
              cases hn
              refine ⟨by simpa [Config.views, List.map_set] using P.leave hi (hv rfl) (hk rfl),
                fun t hm => ?_⟩
              rcases List.mem_or_eq_of_mem_set hm with hm | rfl
              · exact ht t hm
              · exact fun h => nomatch h

/-- What the protocol keeps holds in every configuration reached by steps that
meet the condition, in any order. -/
theorem invariant {w : W} (h₀ : P.inv w []) {c : Config W Q C A ε α}
    (h : Reaches body step starts cond w c) : P.inv c.world c.views := by
  suffices hs : P.inv c.world c.views ∧ ∀ t ∈ c.threads, P.Running t from hs.1
  induction h with
  | init => exact ⟨h₀, fun t hm => nomatch hm⟩
  | next _ hp hn ih => exact P.next_inv ih.1 ih.2 hp hn

end Protocol

end CodeZard.Interleaving
