import CodeZard.Interleaving
import CodeZard.Scripts

namespace CodeZard.Endings

open Programs Interleaving Scripts

variable {Q C W R : Type} {A : C → Type} {ε α : Type} {body : Q → Prog C A ε α} {step : Step C A ε W R}
  {starts : Q → Prop} {cond : Condition W Q C A ε α R}

theorem keeps_forall {ι : Sort*} {admits : Log C A ε → (c : C) → Except ε (A c) → Prop}
    {post : ι → Except ε α → Log C A ε → Prop} {p : Prog C A ε α} {log : Log C A ε}
    (h : ∀ x, Keeps (fun _ _ => True) admits (post x) p log) :
    Keeps (fun _ _ => True) admits (fun o log => ∀ x, post x o log) p log := by
  induction p generalizing log with
  | ret a => exact h
  | raise e => exact h
  | call c k ih => exact ⟨trivial, fun a ha => ih a fun x => (h x).2 a ha⟩

def Traced (guard : Log C A ε → C → Prop) : Log C A ε → Prop
  | [] => True
  | x :: log => guard log x.1 ∧ Traced guard log

theorem Traced.before {guard : Log C A ε → C → Prop} {log : Log C A ε} (h : Traced guard log)
    {x : (c : C) × Except ε (A c)} (hx : x ∈ log) : ∃ before, before <:+ log ∧ guard before x.1 := by
  induction log with
  | nil => cases hx
  | cons y log ih =>
      rcases List.mem_cons.1 hx with rfl | hx
      · exact ⟨log, List.suffix_cons _ _, h.1⟩
      · obtain ⟨before, hb, hg⟩ := ih h.2 hx
        exact ⟨before, hb.trans (List.suffix_cons _ _), hg⟩

section Followed

variable {admits : (c : C) → Except ε (A c) → Prop} {guard : Q → Log C A ε → C → Prop}
  {post : Q → Except ε α → Log C A ε → Prop}

def followed (hf : ∀ {q}, starts q → Keeps (guard q) (fun _ => admits) (post q) (body q) [])
    (hs : ∀ {w vs v c r a w'}, cond w vs v c r → step w c r = some (a, w') → admits c a) :
    Protocol body step starts cond where
  inv _ vs := ∀ v ∈ vs, Traced (guard v.request) v.log ∧ ∀ o, v.result = some o → post v.request o v.log
  guard := guard
  admits _ _ := admits
  post := post
  arrive {q w vs} _ h v hv := by
    rcases mem_concat hv with hv | rfl
    · exact h v hv
    · exact ⟨trivial, fun o ho => nomatch ho⟩
  follows := hf
  sound {w vs i q log c r a w'} h hi hg hc hstep := by
    refine ⟨fun v hv => ?_, hs hc hstep⟩
    rcases List.mem_or_eq_of_mem_set hv with hv | rfl
    · exact h v hv
    · exact ⟨⟨hg, (h _ (List.mem_of_getElem? hi)).1⟩, fun o ho => nomatch ho⟩
  leave {w vs i q log o} h hi hp v hv := by
    rcases List.mem_or_eq_of_mem_set hv with hv | rfl
    · exact h v hv
    · refine ⟨(h _ (List.mem_of_getElem? hi)).1, fun o' ho => ?_⟩
      cases ho
      exact hp

variable {w : W} {c : Config W Q C A ε α} {v : View Q C A ε α}

/-- What the program of every request keeps to holds of each call that has ended,
however the calls were interleaved. -/
theorem of_keeps (post : Q → Except ε α → Log C A ε → Prop)
    (hf : ∀ {q}, starts q → Keeps (guard q) (fun _ => admits) (post q) (body q) [])
    (hs : ∀ {w vs v c r a w'}, cond w vs v c r → step w c r = some (a, w') → admits c a)
    (h : Reaches body step starts cond w c) (hv : v ∈ c.views) {o : Except ε α} (ho : v.result = some o) :
    post v.request o v.log :=
  ((followed hf hs).invariant (fun _ hv => nomatch hv) h v hv).2 o ho

theorem of_traced (h : Reaches body step starts cond w c)
    (hf : ∀ {q}, starts q → Keeps (guard q) (fun _ => admits) (post q) (body q) [])
    (hs : ∀ {w vs v c r a w'}, cond w vs v c r → step w c r = some (a, w') → admits c a) (hv : v ∈ c.views) :
    Traced (guard v.request) v.log :=
  ((followed hf hs).invariant (fun _ hv => nomatch hv) h v hv).1

end Followed

theorem keeps_both {admits : Log C A ε → (c : C) → Except ε (A c) → Prop} {post post' : Except ε α → Log C A ε → Prop}
    {p : Prog C A ε α} {log : Log C A ε} (h : Keeps (fun _ _ => True) admits post p log)
    (h' : Keeps (fun _ _ => True) admits post' p log) :
    Keeps (fun _ _ => True) admits (fun o log => post o log ∧ post' o log) p log :=
  (h.and h').weaken fun _ _ _ => trivial

theorem keeps_after {β : Type} {admits : Log C A ε → (c : C) → Except ε (A c) → Prop}
    {post : Except ε α → Log C A ε → Prop} {p : Prog C A ε β} {f : β → Prog C A ε α}
    (he : ∀ e log, post (.error e) log) (hf : ∀ b log, Keeps (fun _ _ => True) admits post (f b) log)
    (log : Log C A ε) : Keeps (fun _ _ => True) admits post (p.bind f) log := by
  refine keeps_bind.2 ((keeps_of_guard (fun _ _ => trivial) p).mono fun o log _ => ?_)
  cases o with
  | ok b => exact hf b log
  | error e => exact he e log

theorem keeps_assuming {Fact : (c : C) → Except ε (A c) → Prop} {admits : Log C A ε → (c : C) → Except ε (A c) → Prop}
    {post : Except ε α → Log C A ε → Prop} {p : Prog C A ε α} {log : Log C A ε}
    (h : Keeps (fun _ _ => True) (fun log c a => admits log c a ∧ Fact c a) post p log) :
    Keeps (fun _ _ => True) admits (fun o log => (∀ x ∈ log, Fact x.1 x.2) → post o log) p log := by
  induction p generalizing log with
  | ret a => exact fun _ => h
  | raise e => exact fun _ => h
  | call c k ih =>
      refine ⟨trivial, fun a ha => ?_⟩
      by_cases hfact : Fact c a
      · exact ih a (h.2 a ⟨ha, hfact⟩)
      · refine (keeps_of_guard (fun _ _ => trivial) (k a)).suffix.mono fun o log' hs hall => ?_
        exact absurd (hall _ (hs.2.subset List.mem_cons_self)) hfact

theorem keeps_caught {guard : Log C A ε → C → Prop} {admits : Log C A ε → (c : C) → Except ε (A c) → Prop}
    {post : Except ε (Except ε α) → Log C A ε → Prop} {p : Prog C A ε α} {log : Log C A ε} :
    Keeps guard admits post (caught p) log ↔ Keeps guard admits (fun o log => post (.ok o) log) p log := by
  rw [caught, keeps_rescue]
  constructor
  · intro h
    refine (keeps_bind.1 h).mono fun o log ho => ?_
    cases o <;> exact ho
  · intro h
    refine keeps_bind.2 (h.mono fun o log ho => ?_)
    cases o <;> exact ho

theorem restores_caught {guard : Log C A ε → C → Prop} {admits : Log C A ε → (c : C) → Except ε (A c) → Prop}
    {I : Log C A ε → Prop} {p : Prog C A ε α} (hp : Restores guard admits I p) : Restores guard admits I (caught p) :=
  fun log h => keeps_caught.2 (hp log h)

/-- What is true of each answer when it is given, and stays true of the world,
is true of every answer that a call has had. -/
def remembered {Fact : W → (c : C) → Except ε (A c) → Prop}
    (hnew : ∀ {w vs v c r a w'}, cond w vs v c r → step w c r = some (a, w') → Fact w' c a)
    (hold : ∀ {w vs v c r a w'}, cond w vs v c r → step w c r = some (a, w') → ∀ d b, Fact w d b → Fact w' d b) :
    Protocol body step starts cond where
  inv w vs := ∀ v ∈ vs, ∀ x ∈ v.log, Fact w x.1 x.2
  guard _ _ _ := True
  admits _ _ _ _ := True
  post _ _ _ := True
  arrive {q w vs} _ h v hv x hx := by
    rcases mem_concat hv with hv | rfl
    · exact h v hv x hx
    · cases hx
  follows _ := keeps_of_guard (fun _ _ => trivial) _
  sound {w vs i q log c r a w'} h hi _ hc hs := by
    refine ⟨fun v hv x hx => ?_, trivial⟩
    rcases List.mem_or_eq_of_mem_set hv with hv | rfl
    · exact hold hc hs _ _ (h v hv x hx)
    rcases List.mem_cons.1 hx with rfl | hx
    · exact hnew hc hs
    · exact hold hc hs _ _ (h _ (List.mem_of_getElem? hi) x hx)
  leave {w vs i q log o} h hi _ v hv x hx := by
    rcases List.mem_or_eq_of_mem_set hv with hv | rfl
    · exact h v hv x hx
    · exact h _ (List.mem_of_getElem? hi) x hx

theorem of_remembered {w : W} {c : Config W Q C A ε α} (h : Reaches body step starts cond w c)
    {Fact : W → (c : C) → Except ε (A c) → Prop}
    (hnew : ∀ {w vs v c r a w'}, cond w vs v c r → step w c r = some (a, w') → Fact w' c a)
    (hold : ∀ {w vs v c r a w'}, cond w vs v c r → step w c r = some (a, w') → ∀ d b, Fact w d b → Fact w' d b)
    {v : View Q C A ε α} (hv : v ∈ c.views) {d : C} {b : Except ε (A d)} (hb : ⟨d, b⟩ ∈ v.log) :
    Fact c.world d b := by
  have hinv := (remembered hnew hold : Protocol body step starts cond).invariant (fun _ hv => nomatch hv) h
  exact hinv v hv ⟨d, b⟩ hb

def written {X : Type} {Holds : W → X → Prop} {puts : C → X → Prop} (w₀ : W)
    (hstep : ∀ {w vs v c r a w'}, cond w vs v c r → step w c r = some (a, w') → ∀ x, Holds w' x → Holds w x ∨ puts c x) :
    Protocol body step starts cond where
  inv w vs := ∀ x, Holds w x → Holds w₀ x ∨ ∃ v ∈ vs, ∃ y ∈ v.log, puts y.1 x
  guard _ _ _ := True
  admits _ _ _ _ := True
  post _ _ _ := True
  arrive {q w vs} _ h x hx := by
    apply (h x hx).imp_right
    rintro ⟨v, hv, hy⟩
    exact ⟨v, List.mem_append_left _ hv, hy⟩
  follows _ := keeps_of_guard (fun _ _ => trivial) _
  sound {w vs i q log c r a w'} h hi _ hc hs := by
    have hlater (v : View Q C A ε α) (hv : v ∈ vs) (y : (c : C) × Except ε (A c)) (hy : y ∈ v.log) :
        ∃ u ∈ vs.set i ⟨q, ⟨c, a⟩ :: log, none⟩, y ∈ u.log := by
      rcases mem_set_or_eq hi hv ⟨q, ⟨c, a⟩ :: log, none⟩ with hv | rfl
      · exact ⟨v, hv, hy⟩
      · exact ⟨_, mem_set_self hi _, List.mem_cons_of_mem _ hy⟩
    refine ⟨fun x hx => ?_, trivial⟩
    rcases hstep hc hs x hx with hx | hput
    · apply (h x hx).imp_right
      rintro ⟨v, hv, y, hy, hput⟩
      obtain ⟨u, hu, hy⟩ := hlater v hv y hy
      exact ⟨u, hu, y, hy, hput⟩
    · exact .inr ⟨_, mem_set_self hi _, _, List.mem_cons_self, hput⟩
  leave {w vs i q log o} h hi _ x hx := by
    apply (h x hx).imp_right
    rintro ⟨v, hv, y, hy, hput⟩
    rcases mem_set_or_eq hi hv ⟨q, log, some o⟩ with hv | rfl
    · exact ⟨v, hv, y, hy, hput⟩
    · exact ⟨_, mem_set_self hi _, y, hy, hput⟩

theorem of_written {X : Type} {w : W} {c : Config W Q C A ε α} (h : Reaches body step starts cond w c)
    {Holds : W → X → Prop} {puts : C → X → Prop}
    (hstep : ∀ {w vs v c r a w'}, cond w vs v c r → step w c r = some (a, w') → ∀ x, Holds w' x → Holds w x ∨ puts c x)
    {x : X} (hx : Holds c.world x) : Holds w x ∨ ∃ v ∈ c.views, ∃ y ∈ v.log, puts y.1 x := by
  have hinv := (written w hstep : Protocol body step starts cond).invariant (fun _ hx => .inl hx) h
  exact hinv x hx

/-- What holds of the world from some moment on, and whatever it makes of the
answers, is so for those who come later. -/
theorem answers_after {P : W → Prop} {Fact : (c : C) → Except ε (A c) → Prop} {c d : Config W Q C A ε α}
    (h : Leads body step starts cond c d) (hc : P c.world)
    (hkeep : ∀ {w vs v c r a w'}, cond w vs v c r → step w c r = some (a, w') → P w → P w')
    (hfact : ∀ {w vs v c r a w'}, cond w vs v c r → step w c r = some (a, w') → P w → Fact c a) {n : Nat}
    (hn : c.threads.length ≤ n) {v : View Q C A ε α} (hv : d.views[n]? = some v) : ∀ x ∈ v.log, Fact x.1 x.2 := by
  induction h generalizing v with
  | refl =>
      rw [List.getElem?_eq_none (by rwa [Config.views, List.length_map])] at hv
      cases hv
  | @next d d' e hd hp hs ih =>
      have hold {t : Thread Q C A ε α} (ht : d.threads[n]? = some t) : ∀ x ∈ t.log, Fact x.1 x.2 :=
        ih (v := t.toView) (by rw [Config.views, List.getElem?_map, ht, Option.map_some])
      rw [Config.views, List.getElem?_map] at hv
      obtain ⟨t', ht', rfl⟩ := Option.map_eq_some_iff.1 hv
      cases e with
      | start q =>
          cases hs
          rw [List.getElem?_append] at ht'
          split at ht'
          · exact hold ht'
          · rw [List.getElem?_singleton] at ht'
            split at ht'
            · cases ht'
              exact fun x hx => absurd hx List.not_mem_nil
            · cases ht'
      | step i r =>
          obtain ⟨t, ht, hs⟩ := Option.bind_eq_some_iff.1 hs
          split at hs
          · obtain ⟨⟨a, w⟩, hstep, rfl⟩ := Option.map_eq_some_iff.1 hs
            by_cases hi : i = n
            · subst hi
              rw [List.getElem?_set_self (List.getElem?_eq_some_iff.1 ht).1] at ht'
              cases ht'
              intro x hx
              rcases List.mem_cons.1 hx with rfl | hx
              · exact hfact (hp t ht _ _ ‹_›) hstep (hd.world hkeep hc)
              · exact hold ht x hx
            · rw [List.getElem?_set_ne hi] at ht'
              exact hold ht'
          · cases hs
      | finish i =>
          obtain ⟨t, ht, hs⟩ := Option.bind_eq_some_iff.1 hs
          have hsame {o : Except ε α} (ht' : (d.threads.set i ⟨⟨t.request, t.log, some o⟩, t.rest⟩)[n]? = some t') :
              ∀ x ∈ t'.log, Fact x.1 x.2 := by
            by_cases hi : i = n
            · subst hi
              rw [List.getElem?_set_self (List.getElem?_eq_some_iff.1 ht).1] at ht'
              obtain rfl := Option.some.inj ht'
              exact hold (t := t) ht
            · rw [List.getElem?_set_ne hi] at ht'
              exact hold ht'
          split at hs
          · cases hs
            exact hsame ht'
          · cases hs
            exact hsame ht'
          · cases hs

section Blame

variable {β : Type} {admits : Log C A ε → (c : C) → Except ε (A c) → Prop} {P : ε → Prop}

def Blames (admits : Log C A ε → (c : C) → Except ε (A c) → Prop) (P : ε → Prop) (p : Prog C A ε α) : Prop :=
  ∀ log, Keeps (fun _ _ => True) admits (fun o log => ∀ e, o = .error e → P e ∨ ∃ c, ⟨c, .error e⟩ ∈ log) p log

theorem Blames.mono {P' : ε → Prop} {p : Prog C A ε α} (h : Blames admits P p) (hp : ∀ e, P e → P' e) :
    Blames admits P' p :=
  fun log => (h log).mono fun _ _ ho e he => (ho e he).imp_left (hp e)

theorem blames_ret (a : α) : Blames admits P (.ret a : Prog C A ε α) := fun _ _ h => nomatch h

theorem blames_raise {e : ε} (h : P e) : Blames admits P (.raise e : Prog C A ε α) := by
  intro log e' he
  cases he
  exact .inl h

theorem blames_ofExcept {x : Except ε α} (h : ∀ e, x = .error e → P e) : Blames admits P (ofExcept x) := by
  cases x with
  | ok a => exact blames_ret a
  | error e => exact blames_raise (h e rfl)

theorem blames_perform (c : C) : Blames admits P (perform c : Prog C A ε (A c)) := by
  intro log
  refine keeps_perform.2 ⟨trivial, fun a _ e he => .inr ⟨c, ?_⟩⟩
  rw [← he]
  exact List.mem_cons_self

theorem Blames.bind {p : Prog C A ε β} {f : β → Prog C A ε α} (hp : Blames admits P p) (hf : ∀ b, Blames admits P (f b)) :
    Blames admits P (p.bind f) := by
  intro log
  refine keeps_bind.2 ((hp log).mono fun o log h => ?_)
  cases o with
  | ok b => exact hf b log
  | error e =>
      intro e' he
      cases he
      exact h e rfl

theorem Blames.map {p : Prog C A ε β} (hp : Blames admits P p) (f : β → α) : Blames admits P (f <$> p) :=
  hp.bind fun b => blames_ret (f b)

theorem Blames.rescue {p : Prog C A ε α} {f : ε → Prog C A ε α} (hp : Blames admits P p)
    (hf : ∀ e, (∃ a, f e = .ret a) ∨ f e = .raise e) : Blames admits P (p.rescue f) := by
  intro log
  refine keeps_rescue.2 ((hp log).mono fun o log h => ?_)
  cases o with
  | ok a => exact fun e' he => nomatch he
  | error e =>
      dsimp only
      rcases hf e with ⟨a, ha⟩ | he
      · rw [ha]
        exact fun e' he => nomatch he
      · rw [he]
        intro e' he'
        cases he'
        exact h e rfl

end Blame

end CodeZard.Endings
