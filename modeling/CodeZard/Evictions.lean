import CodeZard.Wakings

namespace CodeZard.Evictions

open Bookkeeping Followers RunLogs Tables Traces Wakings

/-- The run whose log a call puts into the dictionaries, after it has made room. -/
def opens (l : RunLog) : Call → Option String
  | .start runId => some runId
  | .append runId _ => if l.has runId then none else some runId
  | .end_ _ => none

def evicted (l : RunLog) (c : Call) : List Entry :=
  if (opens l c).isSome then l.entries.filter fun e => !(l.evict.has e.runId) else []

/-- The log, and for each run the number of the call that opened its log and of
the last one that started it or appended to it. A log that is started again in
its place is not opened again. -/
structure Timed where
  log : RunLog
  clock : Nat := 0
  opened : String → Nat := fun _ => 0
  touched : String → Nat := fun _ => 0

def Timed.next (t : Timed) (c : Call) : Timed where
  log := called t.log c
  clock := t.clock + 1
  opened := match opens t.log c with
    | some runId => if t.log.evict.has runId then t.opened else Function.update t.opened runId t.clock
    | none => t.opened
  touched := match c with
    | .start runId | .append runId _ => Function.update t.touched runId t.clock
    | .end_ _ => t.touched

/-- Of the logs that are kept none was started or appended to before one that is
evicted, and none goes when a run is started that has one. -/
structure LeastRecent (t : Timed) (c : Call) : Prop where
  least : ∀ e ∈ evicted t.log c, ∀ x ∈ t.log.entries, ¬ t.touched x.runId < t.touched e.runId
  spared : ∀ runId, c = .start runId → t.log.has runId = true → evicted t.log c = []

/-- Where there is no room for another log, the run has none yet, and the one
that was opened first is the one that was last started or appended to first. -/
def FirstLeast (t : Timed) (c : Call) : Prop :=
  ∀ runId, opens t.log c = some runId → t.log.maxRuns ≤ t.log.entries.length → t.log.has runId = false ∧
    ∀ e ∈ t.log.entries, (∀ x ∈ t.log.entries, t.opened e.runId ≤ t.opened x.runId) →
      ∀ x ∈ t.log.entries, t.touched e.runId ≤ t.touched x.runId

instance (t : Timed) (c : Call) : Decidable (FirstLeast t c) :=
  decidable_of_iff (∀ runId ∈ opens t.log c, t.log.maxRuns ≤ t.log.entries.length → t.log.has runId = false ∧
    ∀ e ∈ t.log.entries, (∀ x ∈ t.log.entries, t.opened e.runId ≤ t.opened x.runId) →
      ∀ x ∈ t.log.entries, t.touched e.runId ≤ t.touched x.runId) Iff.rfl

section Keys

variable {l : RunLog} {runId : String} {e : Entry} {c : Call}

def runIds (l : RunLog) : List String := l.entries.map Entry.runId

theorem has_iff (l : RunLog) (runId : String) : l.has runId = true ↔ runId ∈ runIds l := row_isSome

theorem runIds_put (l : RunLog) (e : Entry) :
    runIds (l.put e) = if e.runId ∈ runIds l then runIds l else runIds l ++ [e.runId] :=
  keys_upsert (fun _ _ _ => rfl) e l.entries

theorem runIds_wake (h : l.find runId = some e) (e' : Entry) (hid : e'.runId = e.runId) : runIds (l.wake e') = runIds l := by
  have hmem : ({ e' with woken := l.objects } : Entry).runId ∈ runIds l := by
    rw [hid]
    exact List.mem_map_of_mem (row_mem h)
  exact (runIds_put l { e' with woken := l.objects }).trans (if_pos hmem)

theorem runIds_start (l : RunLog) (runId : String) :
    runIds (l.start runId) = if l.evict.has runId then runIds l.evict else runIds l.evict ++ [runId] := by
  simp only [has_iff]
  exact runIds_put l.evict ⟨runId, l.evict.objects, 0, false, l.evict.objects + 1⟩

theorem runIds_called (l : RunLog) (c : Call) :
    runIds (called l c) = (opens l c).elim (runIds l) fun runId =>
      if l.evict.has runId then runIds l.evict else runIds l.evict ++ [runId] := by
  have hfilled (l : RunLog) (runId : String) (chunk : Bytes) (e : Entry) (he : l.find runId = some e) :
      runIds (l.append runId chunk) = runIds l := by
    rw [append_found he]
    exact runIds_wake (l := { l with lists := _ }) he _ rfl
  cases c with
  | start runId => exact runIds_start l runId
  | append runId chunk =>
      cases he : l.find runId with
      | some e =>
          rw [called, hfilled l runId chunk e he]
          simp only [opens, RunLog.has, he, Option.isSome_some, if_true, Option.elim_none]
      | none =>
          rw [called, append_missing he, hfilled _ runId chunk _ (find_start l runId), runIds_start]
          simp [opens, RunLog.has, he]
  | end_ runId =>
      cases he : l.find runId with
      | some e =>
          rw [called, end_of_find he]
          exact runIds_wake he _ rfl
      | none =>
          rw [called, RunLog.end_, he]
          rfl

theorem mem_evicted_iff (he : e ∈ l.entries) (hne : opens l c ≠ some e.runId) :
    e ∈ evicted l c ↔ (called l c).has e.runId = false := by
  have hmem : e.runId ∈ runIds l := List.mem_map_of_mem he
  rw [← Bool.not_eq_true, has_iff, runIds_called, evicted]
  cases ho : opens l c with
  | none => simp [hmem]
  | some runId =>
      have hother : e.runId ≠ runId := by
        rintro rfl
        exact hne ho
      rw [Option.isSome_some, if_pos rfl, List.mem_filter, Option.elim_some]
      split <;> simp [he, hother, ← Bool.not_eq_true, has_iff]

theorem evict_of_room (h : l.entries.length < l.maxRuns) : l.evict = l := by
  rw [RunLog.evict]
  cases hes : l.entries with
  | nil => rfl
  | cons e es =>
      rw [hes] at h
      rw [RunLog.evictFrom, if_neg (not_le.2 h)]

theorem evict_of_full {es : List Entry} (h : l.entries = e :: es) (hfull : l.maxRuns = (e :: es).length) :
    l.evict.entries = es := by
  have hless : ¬ l.maxRuns ≤ es.length := by
    rw [hfull, List.length_cons]
    omega
  rw [RunLog.evict, h, RunLog.evictFrom, if_pos hfull.le]
  cases es with
  | nil => rfl
  | cons x xs => rw [RunLog.evictFrom, if_neg hless]

theorem evicted_of_room (h : l.entries.length < l.maxRuns) (c : Call) : evicted l c = [] := by
  rw [evicted, evict_of_room h]
  split
  · apply List.filter_eq_nil_iff.2
    intro e he
    have hhas : l.has e.runId = true := (has_iff l e.runId).2 (List.mem_map_of_mem he)
    simp [hhas]
  · rfl

theorem evicted_of_full {es : List Entry} (hn : (runIds l).Nodup) (h : l.entries = e :: es)
    (hfull : l.maxRuns = (e :: es).length) (ho : (opens l c).isSome) : evicted l c = [e] := by
  have hids : runIds l.evict = es.map Entry.runId := congrArg (List.map Entry.runId) (evict_of_full h hfull)
  rw [runIds, h, List.map_cons, List.nodup_cons] at hn
  rw [evicted, if_pos ho, h, List.filter_cons_of_pos]
  · congr 1
    apply List.filter_eq_nil_iff.2
    intro x hx
    have hhas : l.evict.has x.runId = true := by
      rw [has_iff, hids]
      exact List.mem_map_of_mem hx
    simp [hhas]
  · have hhas : ¬ l.evict.has e.runId = true := by
      rw [has_iff, hids]
      exact hn.1
    simp [hhas]

end Keys

/-- The logs stand in the order in which they were opened. -/
structure Dated (t : Timed) : Prop where
  weighed : ∃ said, Weighed t.log said
  room : 1 ≤ t.log.maxRuns
  past : ∀ runId ∈ runIds t.log, t.opened runId < t.clock
  order : (runIds t.log).Pairwise fun runId other => t.opened runId < t.opened other

section Steps

variable {t : Timed} {c : Call}

theorem dated_init (maxBytes : Nat) {maxRuns : Nat} (hmax : 1 ≤ maxRuns) :
    Dated { log := { maxBytes := maxBytes, maxRuns := maxRuns } } where
  weighed := ⟨_, weighed_init maxBytes maxRuns fun _ => []⟩
  room := hmax
  past := by simp [runIds]
  order := .nil

theorem Dated.next (h : Dated t) (c : Call) : Dated (t.next c) := by
  obtain ⟨said, hw⟩ := h.weighed
  have hsub : (runIds t.log.evict).Sublist (runIds t.log) := (suffix_evict t.log).sublist.map _
  have hids : runIds (t.next c).log = _ := runIds_called t.log c
  refine ⟨⟨_, hw.called c⟩, h.room.trans_eq (called_bounds c t.log).2.symm, ?_, ?_⟩
  · intro runId hmem
    rw [hids] at hmem
    unfold Timed.next
    cases ho : opens t.log c with
    | none =>
        rw [ho] at hmem
        exact Nat.lt_succ_of_lt (h.past runId hmem)
    | some other =>
        rw [ho, Option.elim_some] at hmem
        dsimp only
        split
        · rw [if_pos ‹_›] at hmem
          exact Nat.lt_succ_of_lt (h.past runId (hsub.subset hmem))
        · rw [if_neg ‹_›, List.mem_append, List.mem_singleton] at hmem
          rcases hmem with hmem | rfl
          · by_cases heq : runId = other
            · rw [heq, Function.update_self]
              exact Nat.lt_succ_self _
            · rw [Function.update_of_ne heq]
              exact Nat.lt_succ_of_lt (h.past runId (hsub.subset hmem))
          · rw [Function.update_self]
            exact Nat.lt_succ_self _
  · rw [hids]
    unfold Timed.next
    cases ho : opens t.log c with
    | none => exact h.order
    | some other =>
        dsimp only
        rw [Option.elim_some]
        split
        · exact h.order.sublist hsub
        · rename_i hnew
          rw [has_iff] at hnew
          -- A log that is opened stands behind those that are left, and is opened after them.
          have hold : ∀ runId ∈ runIds t.log.evict, Function.update t.opened other t.clock runId = t.opened runId := by
            intro runId hmem
            apply Function.update_of_ne
            rintro rfl
            exact hnew hmem
          rw [List.pairwise_append]
          refine ⟨?_, List.pairwise_singleton _ _, ?_⟩
          · apply (h.order.sublist hsub).imp_of_mem
            intro a b ha hb hab
            rwa [hold a ha, hold b hb]
          · intro a ha b hb
            rw [List.mem_singleton] at hb
            rw [hb, Function.update_self, hold a ha]
            exact h.past a (hsub.subset ha)

theorem Dated.first {e x : Entry} {es : List Entry} (h : Dated t) (hes : t.log.entries = e :: es) (hx : x ∈ t.log.entries) :
    t.opened e.runId ≤ t.opened x.runId ∧ (t.opened x.runId ≤ t.opened e.runId → x = e) := by
  have horder := h.order
  rw [runIds, hes, List.map_cons, List.pairwise_cons] at horder
  rw [hes] at hx
  rcases List.mem_cons.1 hx with rfl | hx
  · exact ⟨Nat.le_refl _, fun _ => rfl⟩
  · have hless := horder.1 x.runId (List.mem_map_of_mem hx)
    exact ⟨hless.le, fun hle => absurd hle (not_le.2 hless)⟩

theorem leastRecent_iff (h : Dated t) : LeastRecent t c ↔ FirstLeast t c := by
  obtain ⟨said, hw⟩ := h.weighed
  cases ho : opens t.log c with
  | none =>
      have hnone : evicted t.log c = [] := by
        rw [evicted, ho]
        rfl
      refine iff_of_true ⟨by simp [hnone], fun _ _ _ => hnone⟩ ?_
      intro runId hsome
      rw [ho] at hsome
      cases hsome
  | some runId =>
      by_cases hroom : t.log.entries.length < t.log.maxRuns
      · have hnone := evicted_of_room hroom c
        refine iff_of_true ⟨by simp [hnone], fun _ _ _ => hnone⟩ ?_
        intro _ _ hfull
        omega
      · have hfull : t.log.maxRuns = t.log.entries.length := le_antisymm (not_lt.1 hroom) (hw.few h.room)
        cases hes : t.log.entries with
        | nil =>
            rw [hes] at hfull
            have hmax := h.room
            rw [hfull] at hmax
            cases hmax
        | cons e es =>
            have hone : evicted t.log c = [e] :=
              evicted_of_full hw.sound.keys hes (hfull.trans (congrArg List.length hes)) (by rw [ho]; rfl)
            have hfirst (x : Entry) := h.first (x := x) hes
            constructor
            · intro hleast other hother _
              rw [ho] at hother
              cases hother
              constructor
              · rw [← Bool.not_eq_true]
                intro hhas
                -- What opens a log that is there can only be a call of `start`.
                cases c with
                | start other =>
                    cases ho
                    rw [hleast.spared _ rfl hhas] at hone
                    cases hone
                | append other chunk =>
                    rw [opens] at ho
                    split at ho
                    · cases ho
                    · cases ho
                      contradiction
                | end_ other => cases ho
              · intro y hy hmin x hx
                obtain rfl := (hfirst y hy).2 (hmin e (hes ▸ List.mem_cons_self))
                exact not_lt.1 (hleast.least y (by simp [hone]) x hx)
            · intro hleast
              obtain ⟨hnew, hleast⟩ := hleast runId ho hfull.le
              constructor
              · intro y hy x hx
                rw [hone, List.mem_singleton] at hy
                subst hy
                exact not_lt.2 (hleast y (hes ▸ List.mem_cons_self) (fun x hx => (hfirst x hx).1) x hx)
              · rintro other rfl hhas
                cases ho
                rw [hnew] at hhas
                cases hhas

end Steps

/-- In any calls the logs that go are the least recent exactly when the first
one always is. -/
theorem evicts_least_iff (maxBytes maxRuns : Nat) (hmax : 1 ≤ maxRuns) (cs : List Call) :
    Met (fun t c => some (Timed.next t c)) LeastRecent { log := { maxBytes := maxBytes, maxRuns := maxRuns } } cs ↔
      Met (fun t c => some (Timed.next t c)) FirstLeast { log := { maxBytes := maxBytes, maxRuns := maxRuns } } cs := by
  refine met_congr (I := Dated) ?_ ?_ (dated_init maxBytes hmax)
  · intro t c t' h hn
    cases hn
    exact h.next c
  · intro t c t' h _
    exact leastRecent_iff h

theorem evicts_least_iff_quiet : Met (fun t c => some (Timed.next t c)) LeastRecent
    { log := { maxBytes := MAX_BYTES, maxRuns := 2 } }
    [.start "a", .start "b", .append "b" [1], .start "c", .end_ "b", .append "d" [2]] :=
  (evicts_least_iff MAX_BYTES 2 (by decide) _).2 (by decide +kernel)

/-- A log that is being written goes, and one that nobody writes stays. -/
theorem evicts_busy : ¬ ∀ (maxBytes maxRuns : Nat) (cs : List Call), 1 ≤ maxRuns →
    Met (fun t c => some (Timed.next t c)) LeastRecent { log := { maxBytes := maxBytes, maxRuns := maxRuns } } cs := by
  intro h
  have hmet := h MAX_BYTES 2 [.start "a", .start "b", .append "a" [1], .start "c"] (by decide)
  obtain ⟨-, hmet⟩ := met_cons.1 hmet _ rfl
  obtain ⟨-, hmet⟩ := met_cons.1 hmet _ rfl
  obtain ⟨-, hmet⟩ := met_cons.1 hmet _ rfl
  obtain ⟨hleast, -⟩ := met_cons.1 hmet _ rfl
  have hquiet := hleast.least ⟨"a", 0, 1, false, 4⟩ (by decide +kernel) ⟨"b", 2, 0, false, 3⟩ (by decide +kernel)
  exact hquiet (by decide +kernel)

end CodeZard.Evictions
