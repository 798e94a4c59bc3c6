import CodeZard.Breakers
import CodeZard.Dispatches
import CodeZard.Endings

namespace CodeZard.Probes

open Programs Interleaving Endings Upstreams Decorators Dispatches Values

/-- How an admitted call ends. -/
inductive Verdict
  | success
  | failureStatus
  | upstreamError
  | cancelled
  deriving DecidableEq, Repr

def Verdict.method : Verdict → Breakers.Method
  | .success => .onSuccess
  | .failureStatus | .upstreamError => .onFailure
  | .cancelled => .onAbort

/-- A call asks to be let through, or one that was let through ends. -/
inductive Event
  | enter (call : Nat) (now : Int)
  | leave (call : Nat) (verdict : Verdict) (now : Int)
  deriving DecidableEq, Repr

/-- The breaker of an instance, the state in which each unfinished call was let
through, the call that raised the probe's flag last, and what the breaker was
told, the newest first. -/
structure Circuit where
  breaker : CircuitBreaker
  calls : Nat → Option CircuitState := fun _ => none
  setter : Option Nat := none
  history : List Breakers.Event := []

def Circuit.tell (c : Circuit) (e : Breakers.Event) : Circuit :=
  { c with breaker := Breakers.after c.breaker e, history := e :: c.history }

/-- The states are those after the question, as `previous_state` is. -/
def Circuit.step (c : Circuit) : Event → Option Circuit
  | .enter i now =>
      let asked := c.tell ⟨.tryAcquire, now⟩
      if (c.calls i).isSome then none
      else if (c.breaker.tryAcquire now).1 then
        some { asked with
          calls := Function.update c.calls i (some asked.breaker.state)
          setter := if asked.breaker.state = .halfOpen then some i else c.setter }
      else some asked
  | .leave i verdict now =>
      if (c.calls i).isNone then none
      else some { c.tell ⟨verdict.method, now⟩ with calls := Function.update c.calls i none }

abbrev Condition := Circuit → Event → Prop

inductive Reaches (b : CircuitBreaker) (cond : Condition) : Circuit → Prop
  | init : Reaches b cond { breaker := b }
  | next {c d : Circuit} {e : Event} (h : Reaches b cond c) (hp : cond c e) (hn : c.step e = some d) :
      Reaches b cond d

def anyEvent : Condition := fun _ _ => True

theorem Reaches.mono {b : CircuitBreaker} {cond cond' : Condition} {c : Circuit} (h : Reaches b cond c)
    (hc : ∀ c e, cond c e → cond' c e) : Reaches b cond' c := by
  induction h with
  | init => exact .init
  | next _ hp hn ih => exact ih.next (hc _ _ hp) hn

theorem step_cases {c d : Circuit} {e : Event} (h : c.step e = some d) :
    (∃ i now, e = .enter i now ∧ c.calls i = none ∧ (c.breaker.tryAcquire now).1 = true ∧
        d.breaker = Breakers.after c.breaker ⟨.tryAcquire, now⟩ ∧ d.history = ⟨.tryAcquire, now⟩ :: c.history ∧
        d.calls = Function.update c.calls i (some d.breaker.state) ∧
        d.setter = if d.breaker.state = .halfOpen then some i else c.setter) ∨
      (∃ i now, e = .enter i now ∧ (c.breaker.tryAcquire now).1 = false ∧
        d = c.tell ⟨.tryAcquire, now⟩) ∨
      (∃ i verdict now s, e = .leave i verdict now ∧ c.calls i = some s ∧
        d = { c.tell ⟨verdict.method, now⟩ with calls := Function.update c.calls i none }) := by
  cases e with
  | enter i now =>
      cases hc : c.calls i with
      | some s => simp [Circuit.step, hc] at h
      | none =>
          cases ha : (c.breaker.tryAcquire now).1 with
          | true =>
              simp only [Circuit.step, hc, ha, Option.isSome_none, Bool.false_eq_true, if_false, if_true,
                Option.some.injEq] at h
              subst h
              exact .inl ⟨i, now, rfl, hc, ha, rfl, rfl, rfl, rfl⟩
          | false =>
              simp only [Circuit.step, hc, ha, Option.isSome_none, Bool.false_eq_true, if_false,
                Option.some.injEq] at h
              exact .inr (.inl ⟨i, now, rfl, ha, h.symm⟩)
  | leave i verdict now =>
      cases hc : c.calls i with
      | none => simp [Circuit.step, hc] at h
      | some s =>
          simp only [Circuit.step, hc, Option.isNone_some, Bool.false_eq_true, if_false, Option.some.injEq] at h
          exact .inr (.inr ⟨i, verdict, now, s, rfl, hc, h.symm⟩)

theorem breaker_eq {b : CircuitBreaker} {cond : Condition} {c : Circuit} (h : Reaches b cond c) :
    c.breaker = Breakers.state b c.history := by
  induction h with
  | init => rfl
  | @next c d e _ _ hn ih =>
      rcases step_cases hn with ⟨i, now, _, _, _, hb, hh, _⟩ | ⟨i, now, _, _, rfl⟩ | ⟨i, verdict, now, s, _, _, rfl⟩
      · rw [hb, hh, ih]; rfl
      · simp only [Circuit.tell, Breakers.state, ih]
      · simp only [Circuit.tell, Breakers.state, ih]

theorem asked_cases {b : CircuitBreaker} (hf : b.probeInFlight = true → b.state = .halfOpen) (now : Int) :
    ((b.tryAcquire now).1 = true ∧ b.state = .closed ∧ Breakers.after b ⟨.tryAcquire, now⟩ = b) ∨
      ((b.tryAcquire now).1 = true ∧ b.state ≠ .closed ∧ b.probeInFlight = false ∧
        (Breakers.after b ⟨.tryAcquire, now⟩).state = .halfOpen ∧
        (Breakers.after b ⟨.tryAcquire, now⟩).probeInFlight = true) ∨
      ((b.tryAcquire now).1 = false ∧ b.state ≠ .closed ∧ Breakers.after b ⟨.tryAcquire, now⟩ = b) := by
  rcases Breakers.tryAcquire_cases b now with ⟨hs, h⟩ | ⟨hs, h⟩ | ⟨hs, _, h⟩ | ⟨hs, _, h⟩
  · exact .inl ⟨by rw [h], hs, by simp only [Breakers.after, h]⟩
  · cases hp : b.probeInFlight with
    | true =>
        refine .inr (.inr ⟨by simp [h, hp], by simp [hs], ?_⟩)
        simp only [Breakers.after, h]
        rw [← hp]
    | false => exact .inr (.inl ⟨by simp [h, hp], by simp [hs], rfl, by simp only [Breakers.after, h, hs], by
        simp only [Breakers.after, h]⟩)
  · exact .inr (.inr ⟨by rw [h], by simp [hs], by simp only [Breakers.after, h]⟩)
  · have hp : b.probeInFlight = false := by
      by_contra hp
      simp [hs] at hf
      exact hp hf
    exact .inr (.inl ⟨by simp [h, hp], by simp [hs], hp, by simp only [Breakers.after, h], by
      simp only [Breakers.after, h]⟩)

theorem probeInFlight_told {b : CircuitBreaker} (hf : b.probeInFlight = true → b.state = .halfOpen) (v : Verdict)
    (now : Int) : (Breakers.after b ⟨v.method, now⟩).probeInFlight = false := by
  have hfalse (hs : b.state ≠ .halfOpen) : b.probeInFlight = false := by
    simpa using fun h => hs (hf h)
  cases v with
  | success =>
      rcases Breakers.onSuccess_cases b with ⟨_, h⟩ | ⟨hs, h⟩ <;> simp only [Breakers.after, Verdict.method, h]
      exact hfalse hs
  | failureStatus | upstreamError =>
      rcases Breakers.onFailure_cases b now with ⟨_, h⟩ | ⟨hs, _, h⟩ | ⟨hs, h⟩ <;>
        simp only [Breakers.after, Verdict.method, h] <;>
        exact hfalse (by simp [hs])
  | cancelled => rfl

theorem halfOpen_told {b : CircuitBreaker} (hs : b.state = .halfOpen) (v : Verdict) (now : Int) :
    (Breakers.after b ⟨v.method, now⟩).state = .halfOpen ↔ v = .cancelled := by
  cases v <;> simp [Breakers.after, Verdict.method, CircuitBreaker.onSuccess, CircuitBreaker.onFailure,
    CircuitBreaker.trip, CircuitBreaker.onAbort, hs]

/-- The flag is raised in a half-open circuit only, and only while the call that
raised it is unfinished. -/
def Flagged (c : Circuit) : Prop :=
  c.breaker.probeInFlight = true →
    c.breaker.state = .halfOpen ∧ ∃ i, c.setter = some i ∧ c.calls i = some .halfOpen

theorem Flagged.halfOpen {c : Circuit} (h : Flagged c) (hf : c.breaker.probeInFlight = true) :
    c.breaker.state = .halfOpen :=
  (h hf).1

theorem Flagged.step {c d : Circuit} {e : Event} (hi : Flagged c) (h : c.step e = some d) : Flagged d := by
  rcases step_cases h with ⟨i, now, _, hc, ha, hb, _, hd, hset⟩ | ⟨i, now, _, ha, rfl⟩ | ⟨i, v, now, s, _, _, rfl⟩
  · intro hf
    rcases asked_cases hi.halfOpen now with ⟨_, hs, he⟩ | ⟨_, _, _, hs, hp⟩ | ⟨hr, _⟩
    · rw [hb, he] at hf
      exact absurd (hs.symm.trans (hi hf).1) (by simp)
    · have hs' : d.breaker.state = .halfOpen := by rw [hb, hs]
      exact ⟨hs', i, by rw [hset, if_pos hs'], by rw [hd, Function.update_self, hs']⟩
    · exact absurd (ha.symm.trans hr) (by simp)
  · rcases asked_cases hi.halfOpen now with ⟨hr, _⟩ | ⟨hr, _⟩ | ⟨_, _, he⟩
    · exact absurd (ha.symm.trans hr) (by simp)
    · exact absurd (ha.symm.trans hr) (by simp)
    · intro hf
      simp only [Circuit.tell, he] at hf ⊢
      exact hi hf
  · intro hf
    have := probeInFlight_told hi.halfOpen v now
    exact absurd (hf.symm.trans this) (by simp)

theorem make_ok {failureThreshold recoveryTimeout : Int} {b : CircuitBreaker}
    (h : Breakers.make failureThreshold recoveryTimeout = .ok b) : b.state = .closed ∧ b.probeInFlight = false := by
  simp only [Breakers.make] at h
  split at h
  · cases h
  · split at h
    · cases h
    · cases h
      exact ⟨rfl, rfl⟩

section Circuits

variable {failureThreshold recoveryTimeout : Int} {b : CircuitBreaker} {cond : Condition} {c d : Circuit} {e : Event}

theorem flagged (hb : Breakers.make failureThreshold recoveryTimeout = .ok b) (h : Reaches b cond c) : Flagged c := by
  induction h with
  | init => exact fun hf => absurd (hf.symm.trans (make_ok hb).2) (by simp)
  | next _ _ hn ih => exact ih.step hn

/-- However the calls of an instance are let through and end, the probe's flag is
raised in a half-open circuit only and only while the call that raised it is
unfinished, so that when no call is unfinished and the timeout is over the next
one is let through. -/
theorem never_locked_out (hb : Breakers.make failureThreshold recoveryTimeout = .ok b)
    (h : Reaches b anyEvent c) :
    (c.breaker.probeInFlight = true →
        c.breaker.state = .halfOpen ∧ ∃ i, c.setter = some i ∧ (c.calls i).isSome = true) ∧
      ((∀ i, c.calls i = none) → ∀ now : Int,
        (∀ t, Breakers.lastTrip b c.history = some t → b.recoveryTimeout ≤ now - t) →
        (c.breaker.tryAcquire now).1 = true) := by
  have hflag := flagged hb h
  constructor
  · intro hf
    obtain ⟨hs, i, hset, hi⟩ := hflag hf
    exact ⟨hs, i, hset, by rw [hi]; rfl⟩
  · intro hnone now ht
    have hdown : c.breaker.probeInFlight = false := by
      by_contra hf
      obtain ⟨_, i, _, hi⟩ := hflag (by simpa using hf)
      rw [hnone i] at hi
      cases hi
    have heq := breaker_eq h
    have hopened := (Breakers.inv hb c.history).opened
    have htime := (Breakers.inv hb c.history).timeout
    rw [← heq] at hopened htime
    rcases Breakers.tryAcquire_cases c.breaker now with ⟨_, ha⟩ | ⟨_, ha⟩ | ⟨hs, hlt, _⟩ | ⟨_, _, ha⟩
    · rw [ha]
    · simp [ha, hdown]
    · have := ht _ (hopened hs)
      rw [htime] at hlt
      omega
    · simp [ha, hdown]

/-- At most one of the calls let through half-open is unfinished. -/
def SingleProbe (c : Circuit) : Prop :=
  ∀ i j, c.calls i = some .halfOpen → c.calls j = some .halfOpen → i = j

/-- A circuit stops being half-open only when a call let through half-open ends. -/
def ClosedByProbe (c : Circuit) (e : Event) (d : Circuit) : Prop :=
  c.breaker.state = .halfOpen → d.breaker.state ≠ .halfOpen →
    ∃ i verdict now, e = .leave i verdict now ∧ c.calls i = some .halfOpen

/-- While the circuit is half-open no other call than the probe ends, unless it
is cancelled when no probe is there to be forgotten. -/
def OnlyProbeEnds : Condition
  | _, .enter .. => True
  | c, .leave i verdict _ => c.breaker.state = .halfOpen →
      c.calls i = some .halfOpen ∨ (verdict = .cancelled ∧ c.breaker.probeInFlight = false)

def Probing (c : Circuit) : Prop :=
  ∀ i, c.calls i = some .halfOpen →
    c.breaker.state = .halfOpen ∧ c.breaker.probeInFlight = true ∧ c.setter = some i

theorem Probing.singleProbe (h : Probing c) : SingleProbe c :=
  fun i j hi hj => Option.some.inj ((h i hi).2.2.symm.trans (h j hj).2.2)

theorem Probing.step (hf : Flagged c) (hi : Probing c) (hp : OnlyProbeEnds c e) (h : c.step e = some d) :
    Probing d := by
  rcases step_cases h with ⟨i, now, rfl, hc, ha, hb, _, hd, hset⟩ | ⟨i, now, rfl, ha, rfl⟩ |
    ⟨i, v, now, s, rfl, hc, rfl⟩
  · intro j hj
    rw [hd] at hj
    rcases asked_cases hf.halfOpen now with ⟨_, hs, he⟩ | ⟨_, _, hdown, hs, hup⟩ | ⟨hr, _⟩
    · by_cases hij : j = i
      · subst hij
        rw [Function.update_self, hb, he, hs] at hj
        simp at hj
      · rw [Function.update_of_ne hij] at hj
        exact absurd (hs.symm.trans (hi j hj).1) (by simp)
    · by_cases hij : j = i
      · subst hij
        rw [hset, hb]
        exact ⟨hs, hup, if_pos hs⟩
      · rw [Function.update_of_ne hij] at hj
        exact absurd (hdown.symm.trans (hi j hj).2.1) (by simp)
    · exact absurd (ha.symm.trans hr) (by simp)
  · rcases asked_cases hf.halfOpen now with ⟨hr, _⟩ | ⟨hr, _⟩ | ⟨_, _, he⟩
    · exact absurd (ha.symm.trans hr) (by simp)
    · exact absurd (ha.symm.trans hr) (by simp)
    · intro j hj
      simp only [Circuit.tell, he] at hj ⊢
      exact hi j hj
  · intro j hj
    by_cases hij : j = i
    · subst hij
      simp at hj
    · simp only [Function.update_of_ne hij] at hj
      obtain ⟨hs, hup, hset⟩ := hi j hj
      rcases hp hs with hprobe | ⟨_, hdown⟩
      · exact absurd (Option.some.inj (hset.symm.trans (hi i hprobe).2.2)) hij
      · exact absurd (hup.symm.trans hdown) (by simp)

theorem probing (hb : Breakers.make failureThreshold recoveryTimeout = .ok b) (h : Reaches b OnlyProbeEnds c) :
    Probing c := by
  induction h with
  | init => exact fun i hi => absurd hi (by simp)
  | next hr hp hn ih => exact ih.step (flagged hb hr) hp hn

theorem closedByProbe (hf : Flagged c) (hp : OnlyProbeEnds c e) (h : c.step e = some d) : ClosedByProbe c e d := by
  intro hs hne
  rcases step_cases h with ⟨i, now, rfl, _, ha, hb, _⟩ | ⟨i, now, rfl, ha, rfl⟩ | ⟨i, v, now, s, rfl, hc, rfl⟩
  · rcases asked_cases hf.halfOpen now with ⟨_, hs', _⟩ | ⟨_, _, _, hs', _⟩ | ⟨hr, _⟩
    · exact absurd (hs.symm.trans hs') (by simp)
    · exact absurd (hb ▸ hs') hne
    · exact absurd (ha.symm.trans hr) (by simp)
  · rcases asked_cases hf.halfOpen now with ⟨hr, _⟩ | ⟨hr, _⟩ | ⟨_, _, he⟩
    · exact absurd (ha.symm.trans hr) (by simp)
    · exact absurd (ha.symm.trans hr) (by simp)
    · exact absurd (by simp only [Circuit.tell, he, hs]) hne
  · rcases hp hs with hprobe | ⟨rfl, _⟩
    · exact ⟨i, v, now, rfl, hprobe⟩
    · exact absurd ((halfOpen_told hs .cancelled now).2 rfl) hne

theorem enter_of_down {i : Nat} (hs : c.breaker.state = .halfOpen) (hdown : c.breaker.probeInFlight = false)
    (hi : c.calls i = none) (now : Int) :
    ∃ d, c.step (.enter i now) = some d ∧ d.calls = Function.update c.calls i (some .halfOpen) := by
  have hask : c.breaker.tryAcquire now = (true, { c.breaker with probeInFlight := true }) := by
    simp [CircuitBreaker.tryAcquire, CircuitBreaker.probe, hs, hdown]
  have hs' : (c.tell ⟨.tryAcquire, now⟩).breaker.state = .halfOpen := by
    simp [Circuit.tell, Breakers.after, hask, hs]
  simp only [Circuit.step, hi, hask, hs', Option.isSome_none, Bool.false_eq_true, if_false, if_true]
  exact ⟨_, rfl, rfl⟩

theorem onlyProbeEnds_of (hf : Flagged c) (h : c.step e = some d) (hp : ClosedByProbe c e d)
    (hn : ∀ i now d', d.step (.enter i now) = some d' → SingleProbe d') : OnlyProbeEnds c e := by
  rcases step_cases h with ⟨i, now, rfl, _⟩ | ⟨i, now, rfl, _⟩ | ⟨i, v, now, s, rfl, hc, rfl⟩
  · trivial
  · trivial
  · intro hs
    by_cases hv : v = .cancelled
    · subst hv
      by_cases hup : c.breaker.probeInFlight = true
      · obtain ⟨_, j, _, hj⟩ := hf hup
        by_cases hij : j = i
        · exact .inl (hij ▸ hj)
        · obtain ⟨d, hd, hcalls⟩ := enter_of_down (c := { c.tell ⟨.onAbort, now⟩ with calls := Function.update c.calls i none })
            (i := i) hs rfl (Function.update_self ..) now
          have hsingle := hn i now d hd j i (by rw [hcalls, Function.update_of_ne hij]; exact
            (Function.update_of_ne hij ..).trans hj) (by rw [hcalls, Function.update_self])
          exact absurd hsingle hij
      · exact .inr ⟨rfl, by simpa using hup⟩
    · obtain ⟨j, v', now', he, hj⟩ := hp hs fun hs' => hv ((halfOpen_told hs v now).1 hs')
      cases he
      exact .inl hj

/-- As long as no other call than the probe ends while the circuit is half-open,
one call at a time is let through half-open and the circuit is closed or opened
again by its end alone. Any other end of a call breaks the one or the other. -/
theorem single_probe (hb : Breakers.make failureThreshold recoveryTimeout = .ok b)
    (h : Reaches b OnlyProbeEnds c) :
    SingleProbe c ∧ ∀ e d, c.step e = some d → (OnlyProbeEnds c e ↔
      ClosedByProbe c e d ∧ ∀ i now d', d.step (.enter i now) = some d' → SingleProbe d') := by
  have hflag := flagged hb h
  have hprobing := probing hb h
  refine ⟨hprobing.singleProbe, fun e d hn => ⟨fun hp => ⟨closedByProbe hflag hp hn, fun i now d' hd => ?_⟩,
    fun hp => onlyProbeEnds_of hflag hn hp.1 hp.2⟩⟩
  have hp' : OnlyProbeEnds d (.enter i now) := trivial
  exact ((hprobing.step hflag hp hn).step (hflag.step hn) hp' hd).singleProbe

end Circuits

instance : ∀ c e, Decidable (OnlyProbeEnds c e)
  | _, .enter .. => inferInstanceAs (Decidable True)
  | c, .leave i verdict _ => inferInstanceAs (Decidable (c.breaker.state = .halfOpen →
      c.calls i = some .halfOpen ∨ (verdict = .cancelled ∧ c.breaker.probeInFlight = false)))

instance : ∀ c e, Decidable (anyEvent c e) := fun _ _ => .isTrue trivial

section Schedules

variable (cond : Condition) [∀ c e, Decidable (cond c e)]

/-- What a schedule leads to, if each of its events can happen and is permitted. -/
def run (c : Circuit) : List Event → Option Circuit
  | [] => some c
  | e :: es => if cond c e then (c.step e).bind fun d => run d es else none

variable {cond}

theorem Reaches.run {b : CircuitBreaker} {c d : Circuit} {es : List Event} (h : Reaches b cond c)
    (hr : Probes.run cond c es = some d) : Reaches b cond d := by
  induction es generalizing c with
  | nil => cases hr; exact h
  | cons e es ih =>
      simp only [Probes.run] at hr
      split at hr
      · obtain ⟨c', hn, hr⟩ := Option.bind_eq_some_iff.1 hr
        exact ih (h.next ‹_› hn) hr
      · cases hr

theorem reaches_of_run {b : CircuitBreaker} {es : List Event} {p : Circuit → Bool}
    (h : (run cond { breaker := b } es).any p = true) : ∃ c, Reaches b cond c ∧ p c = true := by
  obtain ⟨c, hc, hp⟩ := (Option.any_eq_true _ _).1 h
  exact ⟨c, Reaches.init.run hc, hp⟩

end Schedules

def fragile : CircuitBreaker := { failureThreshold := 1 }

theorem make_fragile : Breakers.make 1 30 = .ok fragile := rfl

def probed : List Event := [.enter 0 0, .leave 0 .upstreamError 1, .enter 1 31]

theorem single_probe_closed :
    ∃ c d, Reaches fragile OnlyProbeEnds c ∧ c.step (.leave 1 .success 32) = some d ∧
      c.calls 1 = some .halfOpen ∧ d.breaker.state = .closed ∧ SingleProbe c ∧
      ClosedByProbe c (.leave 1 .success 32) d := by
  have hrun : (run OnlyProbeEnds { breaker := fragile } probed).any (fun c =>
      (c.calls 1 == some .halfOpen) && (c.breaker.state == .halfOpen)) = true := by
    decide +kernel
  obtain ⟨c, hc, hp⟩ := reaches_of_run hrun
  simp only [Bool.and_eq_true, beq_iff_eq] at hp
  have hn : c.step (.leave 1 .success 32) =
      some { c.tell ⟨.onSuccess, 32⟩ with calls := Function.update c.calls 1 none } := by
    simp [Circuit.step, hp.1, Verdict.method]
  obtain ⟨hsingle, hiff⟩ := single_probe make_fragile hc
  refine ⟨c, _, hc, hn, hp.1, ?_, hsingle, ((hiff _ _ hn).1 fun _ => .inl hp.1).1⟩
  simp [Circuit.tell, Breakers.after, CircuitBreaker.onSuccess, hp.2]

def recovering : Circuit where
  breaker := { failureThreshold := 1, state := .opened, openedAt := 1 }
  calls := Function.update (Function.update (fun _ => none) 0 (some .closed)) 0 none
  history := [⟨.onFailure, 1⟩, ⟨.tryAcquire, 0⟩]

theorem never_locked_out_recovering :
    Reaches fragile anyEvent recovering ∧ recovering.breaker.state = .opened ∧
      (recovering.breaker.tryAcquire 31).1 = true := by
  have hr : Reaches fragile anyEvent recovering := by
    have hrun : run anyEvent { breaker := fragile } [.enter 0 0, .leave 0 .upstreamError 1] = some recovering := rfl
    exact Reaches.init.run hrun
  refine ⟨hr, rfl, (never_locked_out make_fragile hr).2 ?_ 31 ?_⟩
  · intro i
    simp [recovering]
  · intro t ht
    have hlast : Breakers.lastTrip fragile recovering.history = some 1 := by decide
    obtain rfl := Option.some.inj (hlast.symm.trans ht)
    decide

/-- A call that was let through before the circuit opened is cancelled in time to
be taken for the probe. -/
def overtaken : List Event :=
  [.enter 0 0, .enter 1 0, .leave 1 .upstreamError 1, .enter 2 31, .leave 0 .cancelled 32, .enter 3 33]

theorem probe_overtaken :
    ¬ ∀ (failureThreshold recoveryTimeout : Int) (b : CircuitBreaker),
      Breakers.make failureThreshold recoveryTimeout = .ok b → ∀ c, Reaches b anyEvent c →
        SingleProbe c ∧ ∀ e d, c.step e = some d → ClosedByProbe c e d := by
  intro h
  have hrun : (run anyEvent { breaker := fragile } overtaken).any (fun c =>
      (c.calls 2 == some .halfOpen) && (c.calls 3 == some .halfOpen)) = true := by
    decide +kernel
  obtain ⟨c, hc, hp⟩ := reaches_of_run hrun
  simp only [Bool.and_eq_true, beq_iff_eq] at hp
  exact absurd ((h 1 30 fragile make_fragile c hc).1 2 3 hp.1 hp.2) (by decide)

def held : UpstreamLog → Option String
  | [] => none
  | ⟨.tryAcquire target, .ok true⟩ :: _ => some target
  | ⟨.onSuccess _, _⟩ :: _ | ⟨.onFailure _, _⟩ :: _ | ⟨.onAbort _, _⟩ :: _ => none
  | _ :: log => held log

def asks (log : UpstreamLog) : Call → Prop
  | .tryAcquire _ => held log = none
  | .onSuccess target | .onFailure target | .onAbort target => held log = some target
  | _ => True

section Requests

variable {settings : Settings} {mode : Mode} {request : OutboundRequest}

theorem restores_transport (o : Option String) :
    Restores asks admits (fun log => held log = o) (ask (.transport mode request)) :=
  restores_perform (fun _ _ => trivial) fun _ _ h _ => h

theorem attempting_restores (o : Option String) (attempt : Nat) : Restores asks admits (fun log => held log = o)
    (Retrying.attempting settings.retry (retrying mode request) request attempt) := by
  have hdiscard : Restores asks admits (fun log => held log = o) (ask (.discard mode)) :=
    restores_perform (fun _ _ => trivial) fun _ _ h _ => h
  have hsleep : Restores asks admits (fun log => held log = o) (ask (.sleep attempt)) :=
    restores_perform (fun _ _ => trivial) fun _ _ h _ => h
  have hbackoff : Restores asks admits (fun log => held log = o)
      (Retrying.backoff (retrying mode request) request attempt) := (restores_ofExcept _).bind fun _ => hsleep
  rw [Retrying.attempting]
  apply (restores_caught (restores_transport o)).bind
  intro outcome
  cases outcome with
  | error e =>
      dsimp only
      split
      · exact restores_raise _
      · exact hbackoff.bind fun _ => attempting_restores o (attempt + 1)
  | ok outcome =>
      dsimp only
      split
      · exact restores_ret _
      · exact hdiscard.bind fun _ => hbackoff.bind fun _ => attempting_restores o (attempt + 1)
  termination_by settings.retry.maxAttempts - attempt

theorem attempts_restores (o : Option String) :
    Restores asks admits (fun log => held log = o) (attempts settings mode request) := by
  unfold attempts Retrying.attempts
  split
  · exact restores_transport o
  · exact attempting_restores o 1

theorem guarded_restores : Restores asks admits (fun log => held log = none) (guarded settings mode request) := by
  intro log h
  refine keeps_perform_bind.2 ⟨h, ?_⟩
  rintro _ ⟨acquired, rfl⟩
  cases acquired with
  | false => exact h
  | true =>
      refine keeps_bind.2 (keeps_rescue.2 ?_)
      refine (attempts_restores (some request.target) _ rfl).mono fun o log h => ?_
      cases o with
      | ok outcome =>
          dsimp only
          split
          all_goals
            refine keeps_perform_bind.2 ⟨h, ?_⟩
            rintro _ rfl
            rfl
      | error e =>
          dsimp only
          split
          all_goals
            refine keeps_perform_bind.2 ⟨h, ?_⟩
            rintro _ rfl
            rfl

theorem sendTo_restores (server : ServiceInstance) :
    Restores asks admits (fun log => held log = none) ((balancing settings mode).sendTo server request) :=
  guarded_restores.bind fun _ => restores_ret _

theorem failover_restores (errors : List Error) (servers : List ServiceInstance) :
    Restores asks admits (fun log => held log = none) ((balancing settings mode).failover request errors servers) := by
  induction servers generalizing errors with
  | nil => exact restores_raise _
  | cons server servers ih =>
      rw [Balancing.failover]
      apply Restores.bind
      · apply Restores.rescue ((sendTo_restores server).map _)
        intro e
        split
        · exact restores_ret _
        · exact restores_raise _
      · intro result
        cases result with
        | ok outcome => exact restores_ret _
        | error e => exact ih (errors ++ [e])

theorem body_restores (q : Sending) : Restores asks admits (fun log => held log = none) (body settings q) := by
  unfold body dispatched Balancing.balanced
  cases q.2.server with
  | some server => exact sendTo_restores server
  | none =>
      have hrotation : Restores asks admits (fun log => held log = none) (ask (.rotation q.2.service)) :=
        restores_perform (fun _ _ => trivial) fun _ _ h _ => h
      exact hrotation.bind fun servers => failover_restores [] servers

end Requests

abbrev SendingView := View Sending Call Call.Answer Error Outcome

def Holds (target : String) (vs : List SendingView) (i : Nat) : Prop :=
  ∃ v, vs[i]? = some v ∧ held v.log = some target

section Pools

variable {target : String} {vs : List SendingView} {i : Nat} {v v' : SendingView} {calls : Nat → Option CircuitState}

theorem holds_set (h : vs[i]? = some v) (j : Nat) :
    Holds target (vs.set i v') j ↔ if j = i then held v'.log = some target else Holds target vs j := by
  by_cases hij : j = i
  · subst hij
    simp [Holds, List.getElem?_set_self (List.getElem?_eq_some_iff.1 h).1]
  · simp [Holds, hij, List.getElem?_set_ne fun he : i = j => hij he.symm]

theorem holds_self (h : vs[i]? = some v) : Holds target vs i ↔ held v.log = some target := by
  simp [Holds, h]

def Tracks (target : String) (calls : Nat → Option CircuitState) (vs : List SendingView) : Prop :=
  ∀ i, (calls i).isSome = true ↔ Holds target vs i

theorem Tracks.same (ht : Tracks target calls vs) (h : vs[i]? = some v)
    (hv : held v'.log = some target ↔ held v.log = some target) : Tracks target calls (vs.set i v') := by
  intro j
  rw [ht j, holds_set h]
  split
  · subst j
    rw [holds_self h, hv]
  · rfl

theorem Tracks.update (ht : Tracks target calls vs) (h : vs[i]? = some v) {s : Option CircuitState}
    (hv : s.isSome = true ↔ held v'.log = some target) :
    Tracks target (Function.update calls i s) (vs.set i v') := by
  intro j
  rw [holds_set h]
  by_cases hij : j = i
  · subst hij
    rw [Function.update_self, if_pos rfl, hv]
  · rw [Function.update_of_ne hij, if_neg hij, ht j]

theorem Tracks.arrive (ht : Tracks target calls vs) (hv : held v.log = none) : Tracks target calls (vs ++ [v]) := by
  intro j
  rw [ht j]
  constructor
  · rintro ⟨u, hu, hh⟩
    exact ⟨u, List.getElem?_append_left (List.getElem?_eq_some_iff.1 hu).1 ▸ hu, hh⟩
  · rintro ⟨u, hu, hh⟩
    by_cases hj : j < vs.length
    · exact ⟨u, List.getElem?_append_left hj ▸ hu, hh⟩
    · rw [List.getElem?_append_right (by omega)] at hu
      obtain rfl := List.mem_singleton.1 (List.mem_of_getElem? hu)
      exact absurd (hv.symm.trans hh) (by simp)

end Pools

def Stands (b : CircuitBreaker) (target : String) (w : World) (vs : List SendingView) : Prop :=
  ∃ c, Reaches b anyEvent c ∧ c.breaker = w.breakers target ∧ Tracks target c.calls vs

section Simulation

variable {b : CircuitBreaker} {target : String} {w w' : World} {vs : List SendingView} {i : Nat} {q : Sending}
  {log : UpstreamLog}

theorem Stands.asked (h : Stands b target w vs) (hv : vs[i]? = some ⟨q, log, none⟩) (hg : held log = none)
    (asked : String) (now : Int) :
    Stands b target (w.breaker asked ((w.breakers asked).tryAcquire now).2)
      (vs.set i ⟨q, ⟨.tryAcquire asked, .ok ((w.breakers asked).tryAcquire now).1⟩ :: log, none⟩) := by
  obtain ⟨c, hr, hb, ht⟩ := h
  have hnone : ¬ held log = some target := by simp [hg]
  by_cases hat : asked = target
  · subst hat
    have hfree : c.calls i = none := by
      by_contra hn
      exact hnone ((holds_self hv).1 ((ht i).1 (Option.isSome_iff_ne_none.2 hn)))
    cases ha : ((w.breakers asked).tryAcquire now).1 with
    | true =>
        have hn : c.step (.enter i now) = some { c.tell ⟨.tryAcquire, now⟩ with
            calls := Function.update c.calls i (some (c.tell ⟨.tryAcquire, now⟩).breaker.state)
            setter := if (c.tell ⟨.tryAcquire, now⟩).breaker.state = .halfOpen then some i else c.setter } := by
          simp [Circuit.step, hfree, hb, ha]
        refine ⟨_, hr.next trivial hn, ?_, ?_⟩
        · simp [Circuit.tell, Breakers.after, World.breaker, hb]
        · exact ht.update hv (by simp [held])
    | false =>
        have hn : c.step (.enter i now) = some (c.tell ⟨.tryAcquire, now⟩) := by
          simp [Circuit.step, hfree, hb, ha]
        refine ⟨_, hr.next trivial hn, ?_, ?_⟩
        · simp [Circuit.tell, Breakers.after, World.breaker, hb]
        · exact ht.same hv (by simp [held])
  · refine ⟨c, hr, ?_, ?_⟩
    · exact hb.trans (Function.update_of_ne (Ne.symm hat) _ _).symm
    · apply ht.same hv
      cases ((w.breakers asked).tryAcquire now).1 <;> simp [held, hat, hg]

theorem Stands.told (h : Stands b target w vs) (hv : vs[i]? = some ⟨q, log, none⟩) {told : String}
    (hg : held log = some told) (verdict : Verdict) (now : Int) {x : (c : Call) × Except Error c.Answer}
    (hx : held (x :: log) = none) :
    Stands b target (w.breaker told (Breakers.after (w.breakers told) ⟨verdict.method, now⟩))
      (vs.set i ⟨q, x :: log, none⟩) := by
  obtain ⟨c, hr, hb, ht⟩ := h
  by_cases hat : told = target
  · subst hat
    have hsome : (c.calls i).isSome = true := (ht i).2 ((holds_self hv).2 hg)
    have hn : c.step (.leave i verdict now) =
        some { c.tell ⟨verdict.method, now⟩ with calls := Function.update c.calls i none } := by
      cases hc : c.calls i with
      | none => simp [hc] at hsome
      | some s => simp [Circuit.step, hc]
    refine ⟨_, hr.next trivial hn, ?_, ?_⟩
    · simp [Circuit.tell, World.breaker, hb]
    · exact ht.update hv (by simp [hx])
  · refine ⟨c, hr, ?_, ht.same hv ?_⟩
    · exact hb.trans (Function.update_of_ne (Ne.symm hat) _ _).symm
    · simp [hx, hg, hat]

theorem Stands.other (h : Stands b target w vs) (hv : vs[i]? = some ⟨q, log, none⟩)
    (hw : w'.breakers = w.breakers) {x : (c : Call) × Except Error c.Answer} (hx : held (x :: log) = held log) :
    Stands b target w' (vs.set i ⟨q, x :: log, none⟩) := by
  obtain ⟨c, hr, hb, ht⟩ := h
  exact ⟨c, hr, by rw [hb, hw], ht.same hv (by simp only [hx])⟩

theorem Stands.step (h : Stands b target w vs) (hv : vs[i]? = some ⟨q, log, none⟩) {c : Call} (hg : asks log c)
    {r : Reply} {a : Except Error c.Answer} (hs : w.step c r = some (a, w')) :
    Stands b target w' (vs.set i ⟨q, ⟨c, a⟩ :: log, none⟩) := by
  cases c with
  | tryAcquire asked =>
      cases r <;> cases hs
      exact h.asked hv hg asked _
  | onSuccess told =>
      cases r <;> cases hs
      exact h.told hv hg .success 0 rfl
  | onFailure told =>
      cases r <;> cases hs
      exact h.told hv hg .upstreamError _ rfl
  | onAbort told =>
      cases r <;> cases hs
      exact h.told hv hg .cancelled 0 rfl
  | rotation service =>
      cases r <;> cases hs
      exact h.other hv rfl rfl
  | transport mode request | discard mode | sleep attempt =>
      cases r <;> cases hs <;> exact h.other hv rfl rfl

end Simulation

def circuitProtocol (settings : Settings) (b : CircuitBreaker) (target : String) :
    Protocol (body settings) World.step anyRequest anyStep where
  inv := Stands b target
  guard _ := asks
  admits _ := admits
  post _ _ log := held log = none
  arrive _ hi := by
    obtain ⟨c, hr, hb, ht⟩ := hi
    exact ⟨c, hr, hb, ht.arrive rfl⟩
  follows _ := body_restores _ [] rfl
  sound hi hv hg _ hs := ⟨hi.step hv hg hs, admits_step hs⟩
  leave hi hv hp := by
    obtain ⟨c, hr, hb, ht⟩ := hi
    exact ⟨c, hr, hb, ht.same hv (by simp [hp])⟩

theorem circuit_of_pool {settings : Settings} {w : World} {c : Config World Sending Call Call.Answer Error Outcome}
    (h : Interleaving.Reaches (body settings) World.step anyRequest anyStep w c) (target : String) :
    Stands (w.breakers target) target c.world c.views := by
  apply (circuitProtocol settings (w.breakers target) target).invariant _ h
  exact ⟨_, .init, rfl, fun i => by simp [Holds]⟩

end CodeZard.Probes
