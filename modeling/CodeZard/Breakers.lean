import CodeZard.Upstreams

namespace CodeZard.Breakers

open Upstreams Values

/-- A breaker as it is built. -/
def make (failureThreshold recoveryTimeout : Int) : Except Failure CircuitBreaker :=
  if failureThreshold < 1 then .error (.exception "ValueError" "failure_threshold must be at least 1")
  else if recoveryTimeout ≤ 0 then .error (.exception "ValueError" "recovery_timeout_seconds must be positive")
  else .ok { failureThreshold := failureThreshold.toNat, recoveryTimeout := recoveryTimeout }

inductive Method
  | tryAcquire
  | onSuccess
  | onFailure
  | onAbort
  deriving DecidableEq, Repr

/-- A method is called, and the clock of the breaker says `now`. -/
structure Event where
  method : Method
  now : Int
  deriving DecidableEq, Repr

def after (b : CircuitBreaker) (e : Event) : CircuitBreaker :=
  match e.method with
  | .tryAcquire => (b.tryAcquire e.now).2
  | .onSuccess => b.onSuccess
  | .onFailure => b.onFailure e.now
  | .onAbort => b.onAbort

/-- The breaker after a history, which has its newest event first. -/
def state (b : CircuitBreaker) : List Event → CircuitBreaker
  | [] => b
  | e :: earlier => after (state b earlier) e

/-- The event opens the circuit. -/
def trips (b : CircuitBreaker) (e : Event) : Bool := b.state ≠ .opened && (after b e).state = .opened

def lastTrip (b : CircuitBreaker) : List Event → Option Int
  | [] => none
  | e :: earlier => if trips (state b earlier) e then some e.now else lastTrip b earlier

def resets (b : CircuitBreaker) (e : Event) : Bool :=
  e.method = .onSuccess || trips b e || (b.state ≠ .closed && (after b e).state = .closed)

/-- The failures recorded since the circuit last closed, tripped or recorded a
success. -/
def failures (b : CircuitBreaker) : List Event → Nat
  | [] => 0
  | e :: earlier =>
      if resets (state b earlier) e then 0
      else if e.method = .onFailure then failures b earlier + 1
      else failures b earlier

def Ordered (h : List Event) : Prop := h.Pairwise fun later sooner => sooner.now ≤ later.now

section Steps

variable {b : CircuitBreaker} {e : Event} {now : Int}

theorem tryAcquire_cases (b : CircuitBreaker) (now : Int) :
    (b.state = .closed ∧ b.tryAcquire now = (true, b)) ∨
      (b.state = .halfOpen ∧ b.tryAcquire now = (!b.probeInFlight, { b with probeInFlight := true })) ∨
      (b.state = .opened ∧ now - b.openedAt < b.recoveryTimeout ∧ b.tryAcquire now = (false, b)) ∨
      (b.state = .opened ∧ b.recoveryTimeout ≤ now - b.openedAt ∧
        b.tryAcquire now = (!b.probeInFlight, { b with state := .halfOpen, probeInFlight := true })) := by
  have hprobe (b : CircuitBreaker) : b.probe = (!b.probeInFlight, { b with probeInFlight := true }) := by
    unfold CircuitBreaker.probe
    cases hp : b.probeInFlight with
    | true => simp [← hp]
    | false => simp
  cases hs : b.state with
  | closed => exact .inl ⟨rfl, by simp [CircuitBreaker.tryAcquire, hs]⟩
  | halfOpen => exact .inr (.inl ⟨rfl, by simp only [CircuitBreaker.tryAcquire, hs, hprobe]⟩)
  | opened =>
      by_cases hn : now - b.openedAt < b.recoveryTimeout
      · exact .inr (.inr (.inl ⟨rfl, hn, by simp only [CircuitBreaker.tryAcquire, hs, hn, if_true]⟩))
      · refine .inr (.inr (.inr ⟨rfl, by omega, ?_⟩))
        simp only [CircuitBreaker.tryAcquire, hs, hn, if_false, hprobe]

theorem onSuccess_cases (b : CircuitBreaker) :
    (b.state = .halfOpen ∧ b.onSuccess = { b with state := .closed, probeInFlight := false, failures := 0 }) ∨
      (b.state ≠ .halfOpen ∧ b.onSuccess = { b with failures := 0 }) := by
  by_cases hs : b.state = .halfOpen
  · exact .inl ⟨hs, by simp only [CircuitBreaker.onSuccess, hs, if_true]⟩
  · exact .inr ⟨hs, by simp only [CircuitBreaker.onSuccess, hs, if_false]⟩

theorem onFailure_cases (b : CircuitBreaker) (now : Int) :
    ((b.state = .halfOpen ∨ (b.state = .closed ∧ b.failureThreshold ≤ b.failures + 1)) ∧ b.onFailure now =
        { b with state := .opened, openedAt := now, failures := 0, probeInFlight := false }) ∨
      (b.state = .closed ∧ b.failures + 1 < b.failureThreshold ∧
        b.onFailure now = { b with failures := b.failures + 1 }) ∨
      (b.state = .opened ∧ b.onFailure now = b) := by
  cases hs : b.state with
  | halfOpen => exact .inl ⟨.inl rfl, by simp only [CircuitBreaker.onFailure, hs, CircuitBreaker.trip]⟩
  | opened => exact .inr (.inr ⟨rfl, by simp only [CircuitBreaker.onFailure, hs]⟩)
  | closed =>
      by_cases hf : b.failureThreshold ≤ b.failures + 1
      · refine .inl ⟨.inr ⟨rfl, hf⟩, ?_⟩
        simp only [CircuitBreaker.onFailure, hs, hf, if_true, CircuitBreaker.trip]
      · refine .inr (.inl ⟨rfl, by omega, ?_⟩)
        simp only [CircuitBreaker.onFailure, hs, hf, if_false]

theorem after_settings (b : CircuitBreaker) (e : Event) :
    (after b e).failureThreshold = b.failureThreshold ∧ (after b e).recoveryTimeout = b.recoveryTimeout := by
  obtain ⟨method, now⟩ := e
  cases method with
  | tryAcquire =>
      rcases tryAcquire_cases b now with ⟨_, h⟩ | ⟨_, h⟩ | ⟨_, _, h⟩ | ⟨_, _, h⟩ <;> simp only [after, h, and_self]
  | onSuccess => rcases onSuccess_cases b with ⟨_, h⟩ | ⟨_, h⟩ <;> simp only [after, h, and_self]
  | onFailure =>
      rcases onFailure_cases b now with ⟨_, h⟩ | ⟨_, _, h⟩ | ⟨_, h⟩ <;> simp only [after, h, and_self]
  | onAbort => exact ⟨rfl, rfl⟩

theorem trips_iff : trips b e = true ↔ e.method = .onFailure ∧
    (b.state = .halfOpen ∨ (b.state = .closed ∧ b.failureThreshold ≤ b.failures + 1)) := by
  obtain ⟨method, now⟩ := e
  cases method with
  | tryAcquire =>
      rcases tryAcquire_cases b now with ⟨hs, h⟩ | ⟨hs, h⟩ | ⟨hs, _, h⟩ | ⟨hs, _, h⟩ <;> simp [trips, after, h, hs]
  | onSuccess =>
      rcases onSuccess_cases b with ⟨hs, h⟩ | ⟨hs, h⟩
      · simp [trips, after, h]
      · simp [trips, after, h]
  | onFailure =>
      rcases onFailure_cases b now with ⟨hs, h⟩ | ⟨hs, hf, h⟩ | ⟨hs, h⟩
      · rcases hs with hs | hs <;> simp [trips, after, h, hs]
      · simp [trips, after, h, hs, hf]
      · simp [trips, after, h, hs]
  | onAbort =>
      by_cases hs : b.state = .opened <;> simp [trips, after, CircuitBreaker.onAbort, hs]

theorem openedAt_of_trips (h : trips b e = true) : (after b e).openedAt = e.now := by
  obtain ⟨hm, hs⟩ := trips_iff.1 h
  obtain ⟨method, now⟩ := e
  cases hm
  rcases onFailure_cases b now with ⟨_, h⟩ | ⟨hc, hf, _⟩ | ⟨ho, _⟩
  · simp only [after, h]
  · rcases hs with hs | ⟨_, hs⟩
    · exact absurd (hc.symm.trans hs) (by simp)
    · omega
  · rcases hs with hs | ⟨hs, _⟩ <;> exact absurd (ho.symm.trans hs) (by simp)

theorem opened_after (hs : b.state = .opened) (hm : e.method ≠ .tryAcquire) :
    (after b e).state = .opened ∧ (after b e).openedAt = b.openedAt := by
  obtain ⟨method, now⟩ := e
  cases method with
  | tryAcquire => exact absurd rfl hm
  | onSuccess =>
      rcases onSuccess_cases b with ⟨h, _⟩ | ⟨_, h⟩
      · exact absurd (hs.symm.trans h) (by simp)
      · simp only [after, h, hs, and_self]
  | onFailure => simp only [after, CircuitBreaker.onFailure, hs, and_self]
  | onAbort => exact ⟨hs, rfl⟩

theorem ne_opened_of_trips (h : trips b e = false) (hs : b.state ≠ .opened) : (after b e).state ≠ .opened := by
  intro ho
  simp [trips, hs, ho] at h

theorem waited_of_ne (hs : b.state = .opened) (ha : (after b e).state ≠ .opened) :
    b.recoveryTimeout ≤ e.now - b.openedAt := by
  by_cases hm : e.method = .tryAcquire
  · rcases tryAcquire_cases b e.now with ⟨h, _⟩ | ⟨h, _⟩ | ⟨_, _, h⟩ | ⟨_, hw, _⟩
    · exact absurd (hs.symm.trans h) (by simp)
    · exact absurd (hs.symm.trans h) (by simp)
    · simp only [after, hm, h] at ha
      exact absurd hs ha
    · exact hw
  · exact absurd (opened_after hs hm).1 ha

end Steps

/-- What ties the counter, the time and the state to the history. -/
structure Inv (b : CircuitBreaker) (h : List Event) : Prop where
  threshold : (state b h).failureThreshold = b.failureThreshold
  timeout : (state b h).recoveryTimeout = b.recoveryTimeout
  closed : (state b h).state = .closed →
    (state b h).failures = failures b h ∧ (state b h).failures < b.failureThreshold
  opened : (state b h).state = .opened → lastTrip b h = some (state b h).openedAt
  recovered : (state b h).state ≠ .opened → ∀ t, lastTrip b h = some t → ∀ now, (∀ e ∈ h, e.now ≤ now) →
    b.recoveryTimeout ≤ now - t

section Histories

variable {b : CircuitBreaker} {e : Event} {h : List Event}

theorem Inv.closed_cons (hb : 1 ≤ b.failureThreshold) (hi : Inv b h) (hs : (state b (e :: h)).state = .closed) :
    (state b (e :: h)).failures = failures b (e :: h) ∧ (state b (e :: h)).failures < b.failureThreshold := by
  obtain ⟨method, now⟩ := e
  have hthr := hi.threshold
  simp only [state] at hs ⊢
  cases method with
  | tryAcquire =>
      rcases tryAcquire_cases (state b h) now with ⟨hc, ha⟩ | ⟨hc, ha⟩ | ⟨hc, _, ha⟩ | ⟨hc, _, ha⟩ <;>
        simp only [after, ha, hc, reduceCtorEq] at hs ⊢
      have hr : resets (state b h) ⟨.tryAcquire, now⟩ = false := by simp [resets, trips, after, ha, hc]
      simpa [failures, hr] using hi.closed hc
  | onSuccess =>
      rcases onSuccess_cases (state b h) with ⟨hc, ha⟩ | ⟨hc, ha⟩ <;>
        exact ⟨by simp [after, ha, failures, resets], by simpa only [after, ha] using Nat.pos_of_ne_zero (by omega)⟩
  | onFailure =>
      rcases onFailure_cases (state b h) now with ⟨hc, ha⟩ | ⟨hc, hf, ha⟩ | ⟨hc, ha⟩ <;>
        simp only [after, ha, hc, reduceCtorEq] at hs ⊢
      have hr : resets (state b h) ⟨.onFailure, now⟩ = false := by simp [resets, trips, after, ha, hc]
      obtain ⟨he, _⟩ := hi.closed hc
      refine ⟨by simp [failures, hr, he], ?_⟩
      rw [← hthr]
      exact hf
  | onAbort =>
      simp only [after, CircuitBreaker.onAbort] at hs ⊢
      have hr : resets (state b h) ⟨.onAbort, now⟩ = false := by
        simp [resets, trips, after, CircuitBreaker.onAbort, hs]
      simpa [failures, hr] using hi.closed hs

theorem Inv.cons (hb : 1 ≤ b.failureThreshold) (hi : Inv b h) : Inv b (e :: h) := by
  obtain ⟨hthr, htime⟩ := after_settings (state b h) e
  have hlast (now : Int) (hn : ∀ e' ∈ e :: h, e'.now ≤ now) : e.now ≤ now := hn e List.mem_cons_self
  refine ⟨hthr.trans hi.threshold, htime.trans hi.timeout, hi.closed_cons hb, ?_, ?_⟩
  · intro hs
    cases ht : trips (state b h) e with
    | true => simp only [lastTrip, ht, if_true, state, openedAt_of_trips ht]
    | false =>
        have hopen : (state b h).state = .opened := by
          by_contra hn
          exact ne_opened_of_trips ht hn hs
        have hat : (after (state b h) e).openedAt = (state b h).openedAt := by
          by_cases hm : e.method = .tryAcquire
          · simp only [after, hm]
            rcases tryAcquire_cases (state b h) e.now with ⟨_, ha⟩ | ⟨_, ha⟩ | ⟨_, _, ha⟩ | ⟨_, _, ha⟩ <;> rw [ha]
          · exact (opened_after hopen hm).2
        simp only [lastTrip, ht, state, hat]
        exact hi.opened hopen
  · intro hs t hl now hn
    have htrips : trips (state b h) e = false := by
      cases ht : trips (state b h) e with
      | false => rfl
      | true =>
          simp only [trips, Bool.and_eq_true, decide_eq_true_eq] at ht
          exact absurd ht.2 hs
    simp only [lastTrip, htrips] at hl
    by_cases hopen : (state b h).state = .opened
    · have hw := waited_of_ne hopen hs
      have hat : (state b h).openedAt = t := Option.some.inj ((hi.opened hopen).symm.trans hl)
      have := hlast now hn
      rw [hi.timeout, hat] at hw
      omega
    · exact hi.recovered hopen t hl now fun e' he' => hn e' (List.mem_cons_of_mem e he')

end Histories

theorem inv {failureThreshold recoveryTimeout : Int} {b : CircuitBreaker}
    (hb : make failureThreshold recoveryTimeout = .ok b) (h : List Event) : Inv b h := by
  simp only [make] at hb
  split at hb
  · cases hb
  · split at hb
    · cases hb
    · cases hb
      induction h with
      | nil => exact ⟨rfl, rfl, fun _ => ⟨rfl, by simp only [state]; omega⟩, by simp [state], by simp [lastTrip]⟩
      | cons e h ih => exact ih.cons (by simp only; omega)

/-- No request is admitted before the recovery timeout is over since the last
trip, a closed circuit trips at the failure that completes the threshold and at
no other event, and an outcome moves nothing of a circuit that is open. -/
theorem stays_shut {failureThreshold recoveryTimeout : Int} {b : CircuitBreaker}
    (hb : make failureThreshold recoveryTimeout = .ok b) (e : Event) (h : List Event) (ho : Ordered (e :: h)) :
    (e.method = .tryAcquire → ((state b h).tryAcquire e.now).1 = true →
        ∀ t, lastTrip b h = some t → recoveryTimeout ≤ e.now - t) ∧
      ((state b h).state = .closed →
        (trips (state b h) e = true ↔ e.method = .onFailure ∧ (failures b h + 1 : Int) = failureThreshold)) ∧
      ((state b h).state = .opened → e.method ≠ .tryAcquire →
        (state b (e :: h)).state = .opened ∧ (state b (e :: h)).openedAt = (state b h).openedAt) := by
  have hi := inv hb h
  have hset : (b.failureThreshold : Int) = failureThreshold ∧ b.recoveryTimeout = recoveryTimeout := by
    simp only [make] at hb
    split at hb
    · cases hb
    · split at hb
      · cases hb
      · cases hb
        exact ⟨by simp only; omega, rfl⟩
  refine ⟨fun _ ha t ht => ?_, fun hs => ?_, fun hs hm => opened_after hs hm⟩
  · rw [← hset.2]
    by_cases hs : (state b h).state = .opened
    · rcases tryAcquire_cases (state b h) e.now with ⟨hc, _⟩ | ⟨hc, _⟩ | ⟨_, _, h'⟩ | ⟨_, hw, _⟩
      · exact absurd (hs.symm.trans hc) (by simp)
      · exact absurd (hs.symm.trans hc) (by simp)
      · simp [h'] at ha
      · rwa [hi.timeout, Option.some.inj ((hi.opened hs).symm.trans ht)] at hw
    · exact hi.recovered hs t ht e.now (List.pairwise_cons.1 ho).1
  · obtain ⟨hf, hlt⟩ := hi.closed hs
    have hthr := hi.threshold
    rw [trips_iff]
    simp only [hs, reduceCtorEq, false_or, true_and]
    rw [hthr]
    constructor
    · rintro ⟨hm, hle⟩
      exact ⟨hm, by omega⟩
    · rintro ⟨hm, he⟩
      exact ⟨hm, by omega⟩

theorem stays_shut_opened :
    ∃ b, make 2 30 = .ok b ∧
      (failures b [⟨.onFailure, 1⟩] + 1 : Int) = 2 ∧ lastTrip b [⟨.onSuccess, 3⟩, ⟨.onFailure, 2⟩, ⟨.onFailure, 1⟩] = some 2 ∧
      trips (state b [⟨.onFailure, 1⟩]) ⟨.onFailure, 2⟩ = true ∧
      (state b [⟨.onSuccess, 3⟩, ⟨.onFailure, 2⟩, ⟨.onFailure, 1⟩]).state = .opened ∧ (30 : Int) ≤ 32 - 2 := by
  have hb : make 2 30 = .ok { failureThreshold := 2, recoveryTimeout := 30 } := rfl
  refine ⟨_, hb, by decide, by decide, ?_, ?_, ?_⟩
  · exact ((stays_shut hb ⟨.onFailure, 2⟩ [⟨.onFailure, 1⟩] (by simp [Ordered])).2.1 (by decide)).2 (by decide)
  · exact ((stays_shut hb ⟨.onSuccess, 3⟩ [⟨.onFailure, 2⟩, ⟨.onFailure, 1⟩] (by simp [Ordered])).2.2
      (by decide) (by decide)).1
  · exact (stays_shut hb ⟨.tryAcquire, 32⟩ [⟨.onSuccess, 3⟩, ⟨.onFailure, 2⟩, ⟨.onFailure, 1⟩]
      (by simp [Ordered])).1 rfl (by decide) 2 (by decide)

end CodeZard.Breakers
