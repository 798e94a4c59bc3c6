import CodeZard.Bookkeeping
import CodeZard.Traces
import Mathlib.Logic.Relation

namespace CodeZard.Wakings

open Bookkeeping Followers RunLogs Tables Traces

/-- What `start` does once there is room. -/
def opened (l : RunLog) (runId : String) : RunLog :=
  { l.put ⟨runId, l.objects, 0, false, l.objects + 1⟩ with
    lists := Function.update l.lists l.objects []
    fired := Function.update l.fired (l.objects + 1) false
    objects := l.objects + 2 }

/-- One thing that a call does to the log of a run. The log is only opened anew
where the event of the one it replaces is free. -/
inductive Op (runId : String) (free : Nat → Prop) (l : RunLog) : RunLog → Prop
  | evict : Op runId free l l.evict
  | open_ (h : ∀ e, l.find runId = some e → free e.woken) : Op runId free l (opened l runId)
  | fill (e : Entry) (he : l.find runId = some e) (chunks : List Bytes) :
      Op runId free l { l with lists := Function.update l.lists e.chunks chunks }
  | wake (e e' : Entry) (he : l.find runId = some e) (hid : e'.runId = e.runId) (hchunks : e'.chunks = e.chunks)
      (hwoken : e'.woken = e.woken) (hended : e.ended = true → e'.ended = true) : Op runId free l (l.wake e')

abbrev Ops (runId : String) (free : Nat → Prop) : RunLog → RunLog → Prop := Relation.ReflTransGen (Op runId free)

/-- Every event of a log is one that was handed out, its own, and not set. -/
structure Live (l : RunLog) : Prop where
  sound : Sound l
  made : ∀ runId e, l.find runId = some e → e.woken < l.objects
  apart : ∀ runId runId' e e', l.find runId = some e → l.find runId' = some e' → e.woken = e'.woken → runId = runId'
  armed : ∀ runId e, l.find runId = some e → l.fired e.woken = false

/-- A reader that waits was let go, or waits on the event of its log, which goes
on; the list that it goes through is of no other run. -/
structure Tuned (l : RunLog) (r : Reader) : Prop where
  waits : ∀ event, r.place = .waiting event → event < l.objects ∧
    (l.fired event = true ∨ ∃ e, l.find r.runId = some e ∧ e.woken = event ∧ e.ended = false)
  yields : ∀ chunks rest, r.place = .yielding chunks rest → chunks < l.objects ∧
    ∀ runId e, l.find runId = some e → e.chunks = chunks → runId = r.runId

section Calls

variable {l l' : RunLog} {runId : String} {free : Nat → Prop} {e : Entry}

theorem start_ops (free : Nat → Prop) (h : ∀ e, l.evict.find runId = some e → free e.woken) : Ops runId free l (l.start runId) :=
  .tail (.single .evict) (.open_ h)

theorem append_ops (l : RunLog) (runId : String) (free : Nat → Prop) (chunk : Bytes) :
    Ops runId free l (l.append runId chunk) := by
  have hfound (l : RunLog) (e : Entry) (he : l.find runId = some e) : Ops runId free l (l.append runId chunk) := by
    rw [append_found he]
    refine .tail (.single (.fill e he _)) (.wake e _ he rfl rfl rfl id)
  cases he : l.find runId with
  | some e => exact hfound l e he
  | none =>
      rw [append_missing he]
      refine .trans (start_ops _ fun e hevict => ?_) (hfound _ _ (find_start l runId))
      have hmem : e ∈ l.entries := (suffix_evict l).subset (row_mem hevict)
      have hkey : e.runId = runId := row_key hevict
      have hnone : row Entry.runId runId l.entries = none := he
      have hsome := row_isSome.2 (List.mem_map_of_mem (f := Entry.runId) hmem)
      rw [hkey, hnone] at hsome
      cases hsome

theorem end_ops (l : RunLog) (runId : String) (free : Nat → Prop) : Ops runId free l (l.end_ runId) := by
  cases he : l.find runId with
  | none =>
      rw [RunLog.end_, he]
  | some e =>
      rw [end_of_find he]
      exact .single (.wake e _ he rfl rfl rfl fun _ => rfl)

end Calls

section Evicting

variable {l : RunLog} {runId : String} {e : Entry}

theorem evictFrom_split (es : List Entry) (h : l.entries = es) : ∃ out, es = out ++ (l.evictFrom es).entries ∧
    ∀ n, (l.evictFrom es).fired n = true ↔ l.fired n = true ∨ ∃ e ∈ out, e.woken = n := by
  induction es generalizing l with
  | nil => exact ⟨[], by rw [RunLog.evictFrom, h]; rfl, by simp [RunLog.evictFrom]⟩
  | cons e es ih =>
      rw [RunLog.evictFrom]
      split
      · obtain ⟨out, hout, hfired⟩ := ih (l := { l with entries := es, fired := Function.update l.fired e.woken true }) rfl
        refine ⟨e :: out, congrArg (e :: ·) hout, fun n => ?_⟩
        rw [hfired]
        by_cases hn : n = e.woken
        · subst hn
          simp
        · simp [Function.update_of_ne hn, Ne.symm hn]
      · exact ⟨[], by rw [h]; rfl, by simp⟩

theorem evict_cases (hs : Sound l) (h : l.find runId = some e) :
    l.evict.find runId = some e ∨ l.evict.find runId = none ∧ l.evict.fired e.woken = true := by
  obtain ⟨out, hout, hfired⟩ := evictFrom_split (l := l) l.entries rfl
  have hmem : e ∈ out ++ l.evict.entries := hout ▸ row_mem h
  have hid : e.runId = runId := row_key h
  have hkeys : ((out ++ l.evict.entries).map Entry.runId).Nodup := hout ▸ hs.keys
  rw [List.map_append, List.nodup_append] at hkeys
  rcases List.mem_append.1 hmem with hmem | hmem
  · refine .inr ⟨?_, (hfired _).2 (.inr ⟨e, hmem, rfl⟩)⟩
    rw [← Option.not_isSome_iff_eq_none, RunLog.find, row_isSome]
    intro hkept
    exact hkeys.2.2 _ (List.mem_map_of_mem hmem) _ hkept hid
  · left
    rw [← hid]
    exact row_of_mem hkeys.2.1 hmem

theorem Live.fired_evict (h : Live l) (he : l.evict.find runId = some e) : l.evict.fired e.woken = false := by
  obtain ⟨out, hout, hfired⟩ := evictFrom_split (l := l) l.entries rfl
  have hfound := find_of_evict h.sound he
  rw [← Bool.not_eq_true]
  intro hset
  rcases (hfired e.woken).1 hset with hset | ⟨x, hx, hxe⟩
  · rw [h.armed runId e hfound] at hset
    cases hset
  · have hmem : x ∈ l.entries := hout ▸ List.mem_append_left _ hx
    have hsame := h.apart x.runId runId x e (row_of_mem h.sound.keys hmem) hfound hxe
    have hkeys : ((out ++ l.evict.entries).map Entry.runId).Nodup := hout ▸ h.sound.keys
    rw [List.map_append, List.nodup_append] at hkeys
    have hid : e.runId = runId := row_key he
    exact hkeys.2.2 _ (List.mem_map_of_mem hx) _ (List.mem_map_of_mem (row_mem he)) (hsame.trans hid.symm)

theorem sound_evict (h : Sound l) : Sound l.evict := by
  have hsuf := suffix_evict l
  constructor
  · exact h.keys.sublist (hsuf.sublist.map _)
  · intro e he
    rw [objects_evict]
    exact h.made e (hsuf.subset he)
  · intro e he e' he'
    exact h.apart e (hsuf.subset he) e' (hsuf.subset he')

theorem Live.evict (h : Live l) : Live l.evict := by
  refine ⟨sound_evict h.sound, ?_, ?_, ?_⟩
  · intro runId e he
    rw [objects_evict]
    exact h.made runId e (find_of_evict h.sound he)
  · intro runId runId' e e' he he'
    exact h.apart runId runId' e e' (find_of_evict h.sound he) (find_of_evict h.sound he')
  · intro runId e he
    exact h.fired_evict he

end Evicting

section Operations

variable {l l' : RunLog} {runId other : String} {free : Nat → Prop} {e e' : Entry}

theorem find_opened (l : RunLog) (runId : String) :
    (opened l runId).find runId = some ⟨runId, l.objects, 0, false, l.objects + 1⟩ := find_put l ⟨runId, _, _, _, _⟩

theorem find_opened_of_ne (l : RunLog) (h : runId ≠ other) : (opened l runId).find other = l.find other :=
  find_put_of_ne l (e := ⟨runId, _, _, _, _⟩) h

theorem fired_opened {n : Nat} (h : n < l.objects) (runId : String) : (opened l runId).fired n = l.fired n :=
  Function.update_of_ne (Nat.ne_of_lt (Nat.lt_succ_of_lt h)) _ _

theorem lists_opened {n : Nat} (h : n < l.objects) (runId : String) : (opened l runId).lists n = l.lists n :=
  Function.update_of_ne (Nat.ne_of_lt h) _ _

theorem fired_wake {n : Nat} (h : n < l.objects) (e : Entry) : (l.wake e).fired n = true ↔ n = e.woken ∨ l.fired n = true := by
  have hn : (l.wake e).fired n = Function.update l.fired e.woken true n := Function.update_of_ne (Nat.ne_of_lt h) _ _
  rw [hn]
  by_cases he : n = e.woken
  · subst he
    simp
  · rw [Function.update_of_ne he]
    simp [he]

theorem find_opened_cases {x : Entry} (h : (opened l runId).find other = some x) :
    runId = other ∧ x = ⟨runId, l.objects, 0, false, l.objects + 1⟩ ∨ runId ≠ other ∧ l.find other = some x := by
  by_cases ho : runId = other
  · subst ho
    rw [find_opened] at h
    exact .inl ⟨rfl, (Option.some.inj h).symm⟩
  · rw [find_opened_of_ne l ho] at h
    exact .inr ⟨ho, h⟩

theorem find_wake_cases {x : Entry} (hid : e.runId = runId) (h : (l.wake e).find other = some x) :
    runId = other ∧ x = { e with woken := l.objects } ∨ runId ≠ other ∧ l.find other = some x := by
  subst hid
  by_cases ho : e.runId = other
  · subst ho
    rw [find_wake] at h
    exact .inl ⟨rfl, (Option.some.inj h).symm⟩
  · rw [find_wake_of_ne l ho] at h
    exact .inr ⟨ho, h⟩

theorem Live.renewed (h : Live l) (runId : String) (hsound : Sound l') {n : Nat} (hn : l.objects ≤ n ∧ n < l'.objects)
    (hcases : ∀ other x, l'.find other = some x → runId = other ∧ x.woken = n ∨ runId ≠ other ∧ l.find other = some x)
    (hnew : l'.fired n = false)
    (hold : ∀ other x, runId ≠ other → l.find other = some x → l'.fired x.woken = false) : Live l' := by
  refine ⟨hsound, ?_, ?_, ?_⟩
  · intro other x hx
    rcases hcases other x hx with ⟨-, hw⟩ | ⟨-, hx⟩
    · rw [hw]
      exact hn.2
    · have hmade := h.made other x hx
      omega
  · intro other other' x x' hx hx' hsame
    rcases hcases other x hx with ⟨ho, hw⟩ | ⟨ho, hx⟩ <;> rcases hcases other' x' hx' with ⟨ho', hw'⟩ | ⟨ho', hx'⟩
    · exact ho.symm.trans ho'
    · have hmade := h.made other' x' hx'
      omega
    · have hmade := h.made other x hx
      omega
    · exact h.apart other other' x x' hx hx' hsame
  · intro other x hx
    rcases hcases other x hx with ⟨-, hw⟩ | ⟨ho, hx⟩
    · rw [hw]
      exact hnew
    · exact hold other x ho hx

theorem Live.opened (h : Live l) (runId : String) : Live (opened l runId) := by
  have hmore : Sound { l with objects := l.objects + 1 } := h.sound.more rfl (Nat.le_succ _)
  have hput : Sound (Wakings.opened l runId) := by
    refine (hmore.put (e := ⟨runId, l.objects, 0, false, l.objects + 1⟩) (Nat.lt_succ_self _) ?_).more rfl (Nat.le_succ _)
    intro x hx hc
    exact absurd hc (Nat.ne_of_lt (h.sound.made x hx))
  refine h.renewed runId hput ⟨Nat.le_succ _, Nat.lt_succ_self _⟩ ?_ (Function.update_self ..) ?_
  · intro other x hx
    rcases find_opened_cases hx with ⟨ho, rfl⟩ | hother
    · exact .inl ⟨ho, rfl⟩
    · exact .inr hother
  · intro other x _ hx
    rw [fired_opened (h.made other x hx)]
    exact h.armed other x hx

theorem Live.wake (h : Live l) (he : l.find runId = some e) (hid : e'.runId = e.runId) (hchunks : e'.chunks = e.chunks)
    (hwoken : e'.woken = e.woken) : Live (l.wake e') := by
  refine h.renewed runId (h.sound.wake he hid hchunks) ⟨Nat.le_refl _, Nat.lt_succ_self _⟩ ?_
    (Function.update_self ..) ?_
  · intro other x hx
    rcases find_wake_cases (hid.trans (row_key he)) hx with ⟨ho, rfl⟩ | hother
    · exact .inl ⟨ho, rfl⟩
    · exact .inr hother
  · intro other x ho hx
    rw [← Bool.not_eq_true, fired_wake (h.made other x hx)]
    rintro (hsame | hset)
    · rw [hwoken] at hsame
      exact ho (h.apart runId other e x he hx hsame.symm)
    · rw [h.armed other x hx] at hset
      cases hset

theorem Live.op (h : Live l) (hop : Op runId free l l') : Live l' := by
  cases hop with
  | evict => exact h.evict
  | open_ _ => exact h.opened runId
  | fill e he chunks => exact ⟨h.sound.more rfl (Nat.le_refl _), h.made, h.apart, h.armed⟩
  | wake e e' he hid hchunks hwoken _ => exact h.wake he hid hchunks hwoken

end Operations

section Readers

variable {l l' : RunLog} {r r' : Reader} {runId : String} {free : Nat → Prop}

theorem Tuned.op (h : Tuned l r) (hl : Live l) (hop : Op runId free l l')
    (hfree : r.runId = runId → ∀ event, free event → r.place ≠ .waiting event) : Tuned l' r := by
  cases hop with
  | evict =>
      obtain ⟨_, _, hfired⟩ := evictFrom_split (l := l) l.entries rfl
      constructor
      · intro event hp
        obtain ⟨hmade, hset⟩ := h.waits event hp
        rw [objects_evict]
        refine ⟨hmade, ?_⟩
        rcases hset with hset | ⟨e, he, hw, hended⟩
        · exact .inl ((hfired event).2 (.inl hset))
        · rcases evict_cases hl.sound he with hkept | ⟨-, hset⟩
          · exact .inr ⟨e, hkept, hw, hended⟩
          · exact .inl (hw ▸ hset)
      · intro chunks rest hp
        obtain ⟨hmade, hown⟩ := h.yields chunks rest hp
        rw [objects_evict]
        exact ⟨hmade, fun other e he => hown other e (find_of_evict hl.sound he)⟩
  | open_ hopen =>
      constructor
      · intro event hp
        obtain ⟨hmade, hset⟩ := h.waits event hp
        refine ⟨Nat.lt_succ_of_lt (Nat.lt_succ_of_lt hmade), ?_⟩
        rw [fired_opened hmade]
        rcases hset with hset | ⟨e, he, hw, hended⟩
        · exact .inl hset
        · by_cases ho : r.runId = runId
          · exact absurd hp (hfree ho event (hw ▸ hopen e (ho ▸ he)))
          · rw [find_opened_of_ne l (Ne.symm ho)]
            exact .inr ⟨e, he, hw, hended⟩
      · intro chunks rest hp
        obtain ⟨hmade, hown⟩ := h.yields chunks rest hp
        refine ⟨Nat.lt_succ_of_lt (Nat.lt_succ_of_lt hmade), fun other e he hc => ?_⟩
        rcases find_opened_cases he with ⟨-, rfl⟩ | ⟨-, he⟩
        · exact absurd hc.symm (Nat.ne_of_lt hmade)
        · exact hown other e he hc
  | fill e he list => exact ⟨h.waits, h.yields⟩
  | wake e e' he hid hchunks hwoken _ =>
      have hkey : e'.runId = runId := hid.trans (row_key he)
      constructor
      · intro event hp
        obtain ⟨hmade, hset⟩ := h.waits event hp
        refine ⟨Nat.lt_succ_of_lt hmade, ?_⟩
        rw [fired_wake hmade]
        rcases hset with hset | ⟨x, hx, hw, hended⟩
        · exact .inl (.inr hset)
        · by_cases ho : r.runId = runId
          · rw [ho, he] at hx
            cases hx
            exact .inl (.inl (hw.symm.trans hwoken.symm))
          · rw [find_wake_of_ne l (hkey.trans_ne (Ne.symm ho))]
            exact .inr ⟨x, hx, hw, hended⟩
      · intro chunks rest hp
        obtain ⟨hmade, hown⟩ := h.yields chunks rest hp
        refine ⟨Nat.lt_succ_of_lt hmade, fun other x hx hc => ?_⟩
        rcases find_wake_cases hkey hx with ⟨rfl, rfl⟩ | ⟨-, hx⟩
        · exact hown runId e he (hchunks.symm.trans hc)
        · exact hown other x hx hc

theorem Tuned.ops (h : Tuned l r) (hl : Live l) (hops : Ops runId free l l')
    (hfree : r.runId = runId → ∀ event, free event → r.place ≠ .waiting event) : Live l' ∧ Tuned l' r := by
  induction hops with
  | refl => exact ⟨hl, h⟩
  | tail _ hop ih => exact ⟨ih.1.op hop, ih.2.op ih.1 hop hfree⟩

theorem Live.ops (h : Live l) (hops : Ops runId free l l') : Live l' := by
  induction hops with
  | refl => exact h
  | tail _ hop ih => exact ih.op hop

theorem Tuned.top (hl : Live l) (r : Reader) : Tuned l (r.top l) := by
  have hid := top_runId r l
  unfold Reader.top at hid ⊢
  cases he : l.find r.runId with
  | none => exact ⟨by simp, by simp⟩
  | some e =>
      dsimp only
      split
      · refine ⟨by simp, ?_⟩
        rintro chunks rest hp
        cases hp
        refine ⟨hl.sound.made e (row_mem he), fun other x hx hc => ?_⟩
        have hsame := hl.sound.apart x (row_mem hx) e (row_mem he) hc
        have hother : x.runId = other := row_key hx
        have hown : e.runId = r.runId := row_key he
        rw [← hother, hsame, hown]
      · split
        · exact ⟨by simp, by simp⟩
        · rename_i hended
          refine ⟨?_, by simp⟩
          rintro event hp
          cases hp
          exact ⟨hl.made _ e he, .inr ⟨e, he, rfl, eq_false_of_ne_true hended⟩⟩

theorem Tuned.resume (h : Tuned l r) (hl : Live l) (hr : r.resume l = some r') : Tuned l r' := by
  unfold Reader.resume at hr
  split at hr
  · cases hr
    exact .top hl r
  · rename_i chunks chunk rest hp
    cases hr
    refine ⟨by simp, ?_⟩
    rintro chunks' rest' hp'
    cases hp'
    exact h.yields _ _ hp
  · cases hr
    exact .top hl _
  · split at hr
    · cases hr
      exact .top hl r
    · cases hr
  · cases hr

theorem overtake_place (r : Reader) (runId : String) : (r.overtake runId).place = r.place := by
  unfold Reader.overtake
  split
  · split <;> rfl
  · rfl

theorem Tuned.overtake (h : Tuned l r) (runId : String) : Tuned l (r.overtake runId) := by
  have hplace := overtake_place r runId
  have hid := overtake_runId r runId
  constructor
  · intro event hp
    rw [hid]
    exact h.waits event (hplace ▸ hp)
  · intro chunks rest hp
    rw [hid]
    exact h.yields chunks rest (hplace ▸ hp)

end Readers

def Heard (b : Broadcast) : Prop :=
  ∀ r ∈ b.readers, ∀ event, r.place = .waiting event →
    b.log.fired event = true ∨ ∃ e, b.log.find r.runId = some e ∧ e.woken = event

def Releases (b : Broadcast) : Event → Prop
  | .start runId => ∀ r ∈ b.readers, r.runId = runId → ∀ e, b.log.evict.find runId = some e → r.place ≠ .waiting e.woken
  | _ => True

def Writes (runId : String) : Event → Prop
  | .start other | .append other _ => other = runId
  | _ => False

/-- However the rest goes on, as long as nothing more is said in its run, a
reader is resumed so many times at most, and can be until it returns. -/
def Finishes (b : Broadcast) (i : Nat) (runId : String) : Prop :=
  ∃ n, ∀ es c, (∀ e ∈ es, ¬ Writes runId e) → run next b es = some c →
    es.count (.resume i) ≤ n ∧ ∃ r, c.readers[i]? = some r ∧ (r.place = .returned ∨ (r.resume c.log).isSome)

/-- Nobody is left waiting: in a run that has ended or gone every reader
finishes. -/
structure Served (b : Broadcast) : Prop where
  heard : Heard b
  finishes : ∀ (i : Nat) r, b.readers[i]? = some r → b.log.ended r.runId = true → Finishes b i r.runId

structure Armed (b : Broadcast) : Prop where
  live : Live b.log
  tuned : ∀ (i : Nat) r, b.readers[i]? = some r → Tuned b.log r

section Steps

variable {b d : Broadcast} {ev : Event}

theorem armed_init (maxBytes maxRuns : Nat) : Armed { log := { maxBytes := maxBytes, maxRuns := maxRuns } } where
  live := ⟨sound_of_reachable (.init maxBytes maxRuns), by simp [RunLog.find], by simp [RunLog.find], by simp [RunLog.find]⟩
  tuned := by simp

theorem log_step (hn : next b ev = some d) (hq : Releases b ev) :
    d.log = b.log ∨ ∃ runId free, Ops runId free b.log d.log ∧
      ∀ r ∈ b.readers, r.runId = runId → ∀ event, free event → r.place ≠ .waiting event := by
  cases ev with
  | start runId =>
      cases hn
      refine .inr ⟨runId, fun n => ∀ r ∈ b.readers, r.runId = runId → r.place ≠ .waiting n, ?_, ?_⟩
      · exact start_ops _ fun e he r hr hid => hq r hr hid e he
      · intro r hr hid event hfree
        exact hfree r hr hid
  | append runId chunk =>
      cases hn
      exact .inr ⟨runId, fun _ => False, append_ops b.log runId _ chunk, by simp⟩
  | end_ runId =>
      cases hn
      exact .inr ⟨runId, fun _ => False, end_ops b.log runId _, by simp⟩
  | follow runId =>
      cases hn
      exact .inl rfl
  | resume i =>
      obtain ⟨r, _, hn⟩ := Option.bind_eq_some_iff.1 hn
      obtain ⟨r', _, rfl⟩ := Option.map_eq_some_iff.1 hn
      exact .inl rfl

theorem Armed.next (h : Armed b) (hn : next b ev = some d) (hq : Releases b ev) : Armed d := by
  have hkept (r : Reader) (hr : r ∈ b.readers) (ht : Tuned b.log r) : Tuned d.log r := by
    rcases log_step hn hq with hlog | ⟨runId, free, hops, hfree⟩
    · rw [hlog]
      exact ht
    · exact (ht.ops h.live hops (hfree r hr)).2
  constructor
  · rcases log_step hn hq with hlog | ⟨runId, free, hops, _⟩
    · rw [hlog]
      exact h.live
    · exact h.live.ops hops
  · intro i r' hr'
    rcases readers_step hn hr' with ⟨r, hr, hm⟩ | ⟨other, rfl, rfl⟩
    · have ht := hkept r (List.mem_of_getElem? hr) (h.tuned i r hr)
      cases ev with
      | start _ | end_ _ | follow _ =>
          obtain rfl := hm
          exact ht
      | append other _ =>
          obtain rfl := hm
          exact ht.overtake other
      | resume j =>
          have hlog : d.log = b.log := by
            obtain ⟨x, _, hn⟩ := Option.bind_eq_some_iff.1 hn
            obtain ⟨y, _, rfl⟩ := Option.map_eq_some_iff.1 hn
            rfl
          simp only at hm
          split at hm
          · rw [hlog]
            exact (h.tuned i r hr).resume h.live hm
          · obtain rfl := hm
            exact ht
    · exact ⟨by simp, by simp⟩

theorem releases_of_heard (h : Armed b) (hn : next b ev = some d) (hd : Heard d) : Releases b ev := by
  cases ev with
  | start runId =>
      cases hn
      intro r hr hid e he hp
      have hmade : e.woken < b.log.evict.objects := h.live.evict.made runId e he
      have hstart : b.log.start runId = opened b.log.evict runId := rfl
      rcases hd r hr e.woken hp with hset | ⟨x, hx, hw⟩
      · simp only [hstart] at hset
        rw [fired_opened hmade, h.live.fired_evict he] at hset
        cases hset
      · simp only [hstart, hid] at hx
        rw [find_opened] at hx
        cases hx
        exact absurd hw.symm (Nat.ne_of_lt (Nat.lt_succ_of_lt hmade))
  | _ => exact trivial

end Steps

/-- The chunks that are kept for a run. -/
def kept (l : RunLog) (runId : String) : List Bytes := (l.find runId).elim [] fun e => l.lists e.chunks

def left (l : RunLog) (r : Reader) : Nat :=
  match r.place with
  | .created | .waiting _ => ((kept l r.runId).drop r.cursor).length + 1
  | .yielding chunks rest => rest.length + 1 + ((kept l r.runId).drop (l.lists chunks).length).length
  | .returned => 0

section Finishing

variable {l l' : RunLog} {r r' : Reader} {runId other : String} {free : Nat → Prop} {e : Entry}

theorem kept_of_find (h : l.find runId = some e) : kept l runId = l.lists e.chunks := by rw [kept, h]; rfl

theorem find_op (hl : Live l) (hop : Op other free l l') (hne : other ≠ runId) :
    l'.find runId = l.find runId ∨ l'.find runId = none := by
  cases hop with
  | evict =>
      cases he : l.find runId with
      | some e =>
          rcases evict_cases hl.sound he with hsame | ⟨hnone, -⟩
          · exact .inl hsame
          · exact .inr hnone
      | none =>
          right
          rw [Option.eq_none_iff_forall_ne_some]
          intro e hevict
          rw [find_of_evict hl.sound hevict] at he
          cases he
  | open_ _ => exact .inl (find_opened_of_ne l hne)
  | fill e he chunks => exact .inl rfl
  | wake e e' he hid _ _ _ => exact .inl (find_wake_of_ne l ((hid.trans (row_key he)).trans_ne hne))

theorem lists_op (hop : Op other free l l') {n : Nat} (hn : n < l.objects)
    (hown : ∀ e, l.find other = some e → e.chunks ≠ n) : l'.lists n = l.lists n := by
  cases hop with
  | evict => exact congrFun (lists_evict l) n
  | open_ _ => exact lists_opened hn other
  | fill e he chunks => exact Function.update_of_ne (Ne.symm (hown e he)) _ _
  | wake e e' he hid _ _ _ => rfl

theorem ended_op (hl : Live l) (hop : Op other free l l') (hne : other ≠ runId) (h : l.ended runId = true) :
    l'.ended runId = true := by
  rcases find_op hl hop hne with hfind | hfind
  · rwa [RunLog.ended, hfind]
  · rw [RunLog.ended, hfind]
    rfl

theorem kept_op (hl : Live l) (hop : Op other free l l') (hne : other ≠ runId) :
    kept l' runId = kept l runId ∨ kept l' runId = [] := by
  rcases find_op hl hop hne with hfind | hfind
  · left
    rw [kept, kept, hfind]
    cases he : l.find runId with
    | none => rfl
    | some e =>
        apply lists_op hop (hl.sound.made e (row_mem he))
        intro x hx hc
        apply hne
        have hsame := hl.sound.apart x (row_mem hx) e (row_mem he) hc
        have hother : x.runId = other := row_key hx
        have hown : e.runId = runId := row_key he
        rw [← hother, hsame, hown]
  · right
    rw [kept, hfind]
    rfl

theorem left_op (hl : Live l) (ht : Tuned l r) (hop : Op other free l l') (hne : other ≠ r.runId) :
    left l' r ≤ left l r := by
  have hdrop (n : Nat) : ((kept l' r.runId).drop n).length ≤ ((kept l r.runId).drop n).length := by
    rcases kept_op hl hop hne with hsame | hnone
    · rw [hsame]
    · rw [hnone, List.drop_nil]
      exact Nat.zero_le _
  unfold left
  split
  · exact Nat.succ_le_succ (hdrop _)
  · exact Nat.succ_le_succ (hdrop _)
  · rename_i chunks rest hp
    obtain ⟨hmade, hown⟩ := ht.yields chunks rest hp
    have hlist : l'.lists chunks = l.lists chunks := by
      apply lists_op hop hmade
      intro e he hc
      exact hne (hown other e he hc)
    rw [hlist]
    exact Nat.add_le_add_left (hdrop _) _
  · exact Nat.le_refl _

/-- A reader that is on its last so many resumptions. -/
structure Winding (l : RunLog) (r : Reader) (n : Nat) : Prop where
  live : Live l
  tuned : Tuned l r
  ended : l.ended r.runId = true
  soon : left l r ≤ n

theorem Winding.ops {n : Nat} (h : Winding l r n) (hops : Ops other free l l') (hne : other ≠ r.runId) : Winding l' r n := by
  induction hops with
  | refl => exact h
  | tail _ hop ih =>
      have hfree : r.runId = other → ∀ event, free event → r.place ≠ .waiting event := fun heq => absurd heq.symm hne
      exact ⟨ih.live.op hop, ih.tuned.op ih.live hop hfree, ended_op ih.live hop hne ih.ended,
        (left_op ih.live ih.tuned hop hne).trans ih.soon⟩

theorem left_end (h : l.ended runId = true) (hid : r.runId = runId) :
    (l.end_ runId).ended runId = true ∧ left (l.end_ runId) r = left l r := by
  cases he : l.find runId with
  | none =>
      rw [RunLog.end_, he]
      exact ⟨h, rfl⟩
  | some e =>
      have hkey : e.runId = runId := row_key he
      have hfind := find_wake l { e with ended := true }
      simp only [hkey] at hfind
      rw [end_of_find he]
      have hsame : kept (l.wake { e with ended := true }) runId = kept l runId := by
        rw [kept_of_find he]
        rw [kept, hkey, hfind]
        rfl
      constructor
      · rw [RunLog.ended, hkey, hfind]
        rfl
      · rw [left, left, hid, hsame]
        rfl

theorem left_top (h : l.ended r.runId = true) : left l (r.top l) = ((kept l r.runId).drop r.cursor).length := by
  unfold Reader.top
  cases he : l.find r.runId with
  | none =>
      rw [kept, he]
      simp [left]
  | some e =>
      have hended : e.ended = true := by rwa [RunLog.ended, he] at h
      have hkept := kept_of_find he
      dsimp only
      rw [hkept]
      cases hdrop : (l.lists e.chunks).drop r.cursor with
      | nil => simp [left, hended]
      | cons chunk rest => simp [left, hkept]

theorem left_resume (h : l.ended r.runId = true) (hr : r.resume l = some r') : left l r' + 1 = left l r := by
  unfold Reader.resume at hr
  split at hr
  · rename_i hp
    cases hr
    rw [left_top h]
    simp [left, hp]
  · rename_i chunks chunk rest hp
    cases hr
    simp [left, hp]
    omega
  · rename_i chunks hp
    cases hr
    have htop := left_top (r := { r with cursor := (l.lists chunks).length }) h
    rw [htop]
    simp [left, hp]
    omega
  · rename_i event hp
    split at hr
    · cases hr
      rw [left_top h]
      simp [left, hp]
    · cases hr
  · cases hr

theorem Tuned.resumable (h : Tuned l r) (hended : l.ended r.runId = true) :
    r.place = .returned ∨ (r.resume l).isSome := by
  unfold Reader.resume
  cases hp : r.place with
  | created => exact .inr rfl
  | returned => exact .inl rfl
  | yielding chunks rest => cases rest <;> exact .inr rfl
  | waiting event =>
      right
      dsimp only
      rcases (h.waits event hp).2 with hset | ⟨e, he, _, hgoes⟩
      · rw [if_pos hset]
        rfl
      · rw [RunLog.ended, he] at hended
        exact absurd hended (by simp [hgoes])

end Finishing

section Runs

variable {b c d : Broadcast} {ev : Event} {i n : Nat} {r : Reader} {runId : String}

theorem reader_stays (hn : next b ev = some d) (hr : b.readers[i]? = some r) :
    ∃ r', d.readers[i]? = some r' ∧ match ev with
      | .append other _ => r' = r.overtake other
      | .resume j => if j = i then r.resume b.log = some r' else r' = r
      | _ => r' = r := by
  have hlength : b.readers.length ≤ d.readers.length := by
    cases ev with
    | start _ | end_ _ => cases hn; exact Nat.le_refl _
    | append _ _ => cases hn; exact (List.length_map _).ge
    | follow _ => cases hn; simp
    | resume j =>
        obtain ⟨x, _, hn⟩ := Option.bind_eq_some_iff.1 hn
        obtain ⟨y, _, rfl⟩ := Option.map_eq_some_iff.1 hn
        simp
  have hi : i < d.readers.length := Nat.lt_of_lt_of_le (List.getElem?_eq_some_iff.1 hr).1 hlength
  refine ⟨d.readers[i], List.getElem?_eq_getElem hi, ?_⟩
  rcases readers_step hn (List.getElem?_eq_getElem hi) with ⟨x, hx, hm⟩ | ⟨other, rfl, hnew⟩
  · rw [hr] at hx
    cases hx
    exact hm
  · cases hn
    dsimp only
    rw [List.getElem_append_left (List.getElem?_eq_some_iff.1 hr).1]
    exact (List.getElem?_eq_some_iff.1 hr).2

theorem Winding.end_ (h : Winding b.log r n) (other : String) : Winding (b.log.end_ other) r n := by
  by_cases ho : other = r.runId
  · subst ho
    obtain ⟨hlive, ht⟩ := h.tuned.ops h.live (end_ops b.log r.runId fun _ => False) (by simp)
    obtain ⟨hended, hleft⟩ := left_end h.ended rfl
    exact ⟨hlive, ht, hended, hleft.le.trans h.soon⟩
  · exact h.ops (end_ops b.log other fun _ => False) ho

theorem Winding.overtake (h : Winding b.log r n) (other : String) : Winding b.log (r.overtake other) n := by
  have hcursor : (r.overtake other).cursor = r.cursor := by
    unfold Reader.overtake
    split
    · split <;> rfl
    · rfl
  have hleft : left b.log (r.overtake other) = left b.log r := by
    rw [left, left, overtake_place, overtake_runId, hcursor]
  refine ⟨h.live, h.tuned.overtake other, ?_, ?_⟩
  · rw [overtake_runId]
    exact h.ended
  · rw [hleft]
    exact h.soon

theorem Winding.resume {r' : Reader} (h : Winding b.log r n) (hr : r.resume b.log = some r') :
    ∃ m, n = m + 1 ∧ Winding b.log r' m := by
  have hleft := left_resume h.ended hr
  have hsoon := h.soon
  refine ⟨n - 1, by omega, h.live, h.tuned.resume h.live hr, ?_, by omega⟩
  rw [resume_runId hr]
  exact h.ended

theorem winding_next (h : Winding b.log r n) (hr : b.readers[i]? = some r) (hn : next b ev = some d)
    (hw : ¬ Writes r.runId ev) : ∃ r', d.readers[i]? = some r' ∧ r'.runId = r.runId ∧
      if ev = .resume i then ∃ m, n = m + 1 ∧ Winding d.log r' m else Winding d.log r' n := by
  obtain ⟨r', hr', hm⟩ := reader_stays hn hr
  refine ⟨r', hr', ?_⟩
  cases ev with
  | start other =>
      cases hn
      obtain rfl := hm
      exact ⟨rfl, h.ops (start_ops (fun _ => True) (by simp)) hw⟩
  | append other chunk =>
      cases hn
      obtain rfl := hm
      exact ⟨overtake_runId r other, (h.overtake other).ops (append_ops b.log other (fun _ => False) chunk)
        ((overtake_runId r other).symm ▸ hw)⟩
  | end_ other =>
      cases hn
      obtain rfl := hm
      exact ⟨rfl, h.end_ other⟩
  | follow other =>
      cases hn
      obtain rfl := hm
      exact ⟨rfl, h⟩
  | resume j =>
      have hlog : d.log = b.log := by
        obtain ⟨x, _, hn⟩ := Option.bind_eq_some_iff.1 hn
        obtain ⟨y, _, rfl⟩ := Option.map_eq_some_iff.1 hn
        rfl
      rw [hlog]
      dsimp only at hm
      by_cases hj : j = i
      · subst hj
        rw [if_pos rfl] at hm ⊢
        exact ⟨resume_runId hm, h.resume hm⟩
      · rw [if_neg hj] at hm
        obtain rfl := hm
        rw [if_neg (by simpa using hj)]
        exact ⟨rfl, h⟩

theorem winding_run (h : Winding b.log r n) (hr : b.readers[i]? = some r) {es : List Event}
    (hw : ∀ e ∈ es, ¬ Writes r.runId e) (hrun : run next b es = some c) :
    es.count (.resume i) ≤ n ∧ ∃ r', c.readers[i]? = some r' ∧ (r'.place = .returned ∨ (r'.resume c.log).isSome) := by
  induction es generalizing b r n with
  | nil =>
      cases hrun
      exact ⟨Nat.zero_le _, r, hr, h.tuned.resumable h.ended⟩
  | cons e es ih =>
      obtain ⟨d, hn, hrun'⟩ := run_cons_eq_some.1 hrun
      obtain ⟨r', hr', hid, h'⟩ := winding_next h hr hn (hw e List.mem_cons_self)
      have hrest : ∀ e ∈ es, ¬ Writes r'.runId e := fun e he => hid.symm ▸ hw e (List.mem_cons_of_mem _ he)
      by_cases he : e = .resume i
      · subst he
        rw [if_pos rfl] at h'
        obtain ⟨m, rfl, h'⟩ := h'
        obtain ⟨hcount, hend⟩ := ih h' hr' hrest hrun'
        rw [List.count_cons_self]
        exact ⟨Nat.succ_le_succ hcount, hend⟩
      · rw [if_neg he] at h'
        rw [List.count_cons_of_ne he]
        exact ih h' hr' hrest hrun'

theorem Armed.served (h : Armed b) : Served b where
  heard r hr event hp := by
    obtain ⟨i, hi⟩ := List.getElem?_of_mem hr
    rcases ((h.tuned i r hi).waits event hp).2 with hset | ⟨e, he, hw, _⟩
    · exact .inl hset
    · exact .inr ⟨e, he, hw⟩
  finishes i r hr hended := by
    refine ⟨left b.log r, fun es c hw hrun => ?_⟩
    exact winding_run ⟨h.live, h.tuned i r hr, hended, Nat.le_refl _⟩ hr hw hrun

end Runs

/-- All along a run nobody is left waiting exactly when no log is started again
while somebody waits on it. -/
theorem served_iff_released (maxBytes maxRuns : Nat) (es : List Event) :
    Throughout next Served { log := { maxBytes := maxBytes, maxRuns := maxRuns } } es ↔
      Met next Releases { log := { maxBytes := maxBytes, maxRuns := maxRuns } } es := by
  refine throughout_iff_met (I := Armed) ?_ ?_ ?_ (armed_init maxBytes maxRuns)
  · intro b h
    exact h.served
  · intro b ev d h hn hq
    exact h.next hn hq
  · intro b ev d h hn hd
    exact releases_of_heard h hn hd.heard

/-- A reader waits when its run is started again, and after that its run ends. -/
def restarted : List Event := [.start "r", .follow "r", .resume 0, .start "r", .end_ "r"]

/-- The event that the reader waits on is not the one that is set. -/
theorem waits_for_ever : ¬ Throughout next Served {} restarted := by
  have hwaits : (run next {} (restarted.take 4)).any (fun b => b.readers[0]?.any fun r =>
      r.place = .waiting 1 ∧ b.log.fired 1 = false ∧ (b.log.find r.runId).map Entry.woken = some 3) = true := by decide +kernel
  obtain ⟨b, hb, hwaits⟩ := (Option.any_eq_true _ _).1 hwaits
  obtain ⟨r, hr, hwaits⟩ := (Option.any_eq_true _ _).1 hwaits
  obtain ⟨hp, hset, hwoken⟩ := of_decide_eq_true hwaits
  intro h
  rcases (h _ b (List.take_prefix 4 restarted) hb).heard r (List.mem_of_getElem? hr) 1 hp with hfired | ⟨e, he, hw⟩
  · rw [hset] at hfired
    cases hfired
  · rw [he, Option.map_some, hw] at hwoken
    exact absurd (Option.some.inj hwoken) (by decide)

end CodeZard.Wakings
