import CodeZard.Columns
import CodeZard.Followers
import CodeZard.Values

namespace CodeZard.Bookkeeping

open Columns Followers RunLogs Tables Values

/-- The four dictionaries that the code keeps, and the lists and events that are
their values. -/
structure InMemoryRunLog where
  maxBytes : Nat := MAX_BYTES
  maxRuns : Nat := MAX_RUNS
  chunks : Dict String Nat := []
  sizes : Dict String Nat := []
  ended : Dict String Bool := []
  woken : Dict String Nat := []
  lists : Nat → List Bytes := fun _ => []
  fired : Nat → Bool := fun _ => false
  objects : Nat := 0

namespace InMemoryRunLog

variable (l : InMemoryRunLog) (runId : String)

def has : Bool := (Dict.get l.chunks runId).isSome

def released : Nat → Bool := (Dict.get l.woken runId).elim l.fired fun waiter => Function.update l.fired waiter true

def forget : InMemoryRunLog :=
  { l with
    chunks := Dict.pop l.chunks runId
    sizes := Dict.pop l.sizes runId
    ended := Dict.pop l.ended runId
    woken := Dict.pop l.woken runId
    fired := l.released runId }

def evictLoop : Nat → InMemoryRunLog → Except Failure InMemoryRunLog
  | turns, l =>
      if l.maxRuns ≤ l.chunks.length then
        match turns, l.chunks with
        | turns + 1, (oldest, _) :: _ => evictLoop turns (l.forget oldest)
        | _, _ => .error (.exception "StopIteration" "")
      else .ok l

def evict : Except Failure InMemoryRunLog := l.evictLoop l.chunks.length

def start : Except Failure InMemoryRunLog :=
  l.evict.map fun l => { l with
    chunks := Dict.set l.chunks runId l.objects
    sizes := Dict.set l.sizes runId 0
    ended := Dict.set l.ended runId false
    woken := Dict.set l.woken runId (l.objects + 1)
    lists := Function.update l.lists l.objects []
    fired := Function.update l.fired (l.objects + 1) false
    objects := l.objects + 2 }

def wake : InMemoryRunLog :=
  { l with
    woken := Dict.set l.woken runId l.objects
    fired := Function.update (l.released runId) l.objects false
    objects := l.objects + 1 }

def append (chunk : Bytes) : Except Failure InMemoryRunLog :=
  (if l.has runId then .ok l else l.start runId).bind fun l =>
    match Dict.get l.chunks runId, Dict.get l.sizes runId with
    | some chunks, some size =>
        let (size, kept) := RunLog.trim l.maxBytes (size + chunk.length) (l.lists chunks ++ [chunk])
        .ok ({ l with
          lists := Function.update l.lists chunks kept
          sizes := Dict.set l.sizes runId size }.wake runId)
    | _, _ => .error (.exception "KeyError" ("'" ++ runId ++ "'"))

def end_ : InMemoryRunLog :=
  if (Dict.get l.ended runId).isSome then { l with ended := Dict.set l.ended runId true }.wake runId else l

end InMemoryRunLog

def columns (l : RunLog) : InMemoryRunLog where
  maxBytes := l.maxBytes
  maxRuns := l.maxRuns
  chunks := column Entry.runId Entry.chunks l.entries
  sizes := column Entry.runId Entry.size l.entries
  ended := column Entry.runId Entry.ended l.entries
  woken := column Entry.runId Entry.woken l.entries
  lists := l.lists
  fired := l.fired
  objects := l.objects

section Refinement

variable {l : RunLog} {runId : String} {e : Entry}

theorem columns_has (l : RunLog) (runId : String) : (columns l).has runId = l.has runId := by
  have hget : Dict.get (columns l).chunks runId = (l.find runId).map Entry.chunks := get_column _ _
  rw [InMemoryRunLog.has, hget, Option.isSome_map, RunLog.has]

theorem columns_released (h : l.find runId = some e) :
    (columns l).released runId = Function.update l.fired e.woken true := by
  have hget : Dict.get (columns l).woken runId = (l.find runId).map Entry.woken := get_column _ _
  rw [InMemoryRunLog.released, hget, h]
  rfl

theorem columns_forget {es : List Entry} (hn : ((e :: es).map Entry.runId).Nodup) (h : l.entries = e :: es) :
    (columns l).forget e.runId =
      columns { l with entries := es, fired := Function.update l.fired e.woken true } := by
  have hfind : l.find e.runId = some e := by rw [RunLog.find, h, row_cons, if_pos rfl]
  have hpop {α : Type} (field : Entry → α) :
      Dict.pop (column Entry.runId field l.entries) e.runId = column Entry.runId field es := by
    rw [pop_column, h, filter_first hn]
  rw [InMemoryRunLog.forget, columns_released hfind]
  simp only [columns, hpop]

theorem columns_evictFrom (hmax : 1 ≤ l.maxRuns) (es : List Entry) (hn : (es.map Entry.runId).Nodup)
    (h : l.entries = es) : (columns l).evictLoop es.length = .ok (columns (l.evictFrom es)) := by
  induction es generalizing l with
  | nil =>
      have hfew : ¬ (columns l).maxRuns ≤ (columns l).chunks.length := by
        simp only [columns, length_column, h, List.length_nil]
        omega
      unfold InMemoryRunLog.evictLoop
      rw [if_neg hfew]
      rfl
  | cons e es ih =>
      have hlen : (columns l).chunks.length = (e :: es).length := by simp only [columns, length_column, h]
      have hfirst : (columns l).chunks = (e.runId, e.chunks) :: column Entry.runId Entry.chunks es := by
        simp only [columns, h]
        rfl
      unfold InMemoryRunLog.evictLoop RunLog.evictFrom
      rw [hlen]
      by_cases hfull : l.maxRuns ≤ (e :: es).length
      · have hfull' : (columns l).maxRuns ≤ (e :: es).length := hfull
        rw [if_pos hfull, if_pos hfull', List.length_cons]
        simp only [hfirst]
        rw [columns_forget hn h]
        rw [List.map_cons, List.nodup_cons] at hn
        exact ih hmax hn.2 rfl
      · have hfull' : ¬ (columns l).maxRuns ≤ (e :: es).length := hfull
        rw [if_neg hfull, if_neg hfull']

theorem columns_evict (hmax : 1 ≤ l.maxRuns) (hn : (l.entries.map Entry.runId).Nodup) :
    (columns l).evict = .ok (columns l.evict) := by
  have hlen : (columns l).chunks.length = l.entries.length := length_column _
  rw [InMemoryRunLog.evict, hlen]
  exact columns_evictFrom hmax l.entries hn rfl

theorem columns_start (hmax : 1 ≤ l.maxRuns) (hn : (l.entries.map Entry.runId).Nodup) (runId : String) :
    (columns l).start runId = .ok (columns (l.start runId)) := by
  rw [InMemoryRunLog.start, columns_evict hmax hn]
  generalize hl : l.evict = l'
  have hset {α : Type} (field : Entry → α) (e : Entry) :
      Dict.set (column Entry.runId field l'.entries) e.runId (field e) =
        column Entry.runId field (upsert Entry.runId (fun _ new => new) e l'.entries) := set_column e _
  have hchunks := hset Entry.chunks ⟨runId, l'.objects, 0, false, l'.objects + 1⟩
  have hsizes := hset Entry.size ⟨runId, l'.objects, 0, false, l'.objects + 1⟩
  have hended := hset Entry.ended ⟨runId, l'.objects, 0, false, l'.objects + 1⟩
  have hwoken := hset Entry.woken ⟨runId, l'.objects, 0, false, l'.objects + 1⟩
  simp only at hchunks hsizes hended hwoken
  simp only [Except.map, columns, RunLog.start, RunLog.put, hl, hchunks, hsizes, hended, hwoken]

theorem columns_wake (h : l.find runId = some e) (e' : Entry) (hid : e'.runId = runId) (hchunks : e'.chunks = e.chunks)
    (hwoken : e'.woken = e.woken) {sizes : Dict String Nat} (hsizes : Dict.set (columns l).sizes runId e'.size = sizes)
    {ended : Dict String Bool} (hended : Dict.set (columns l).ended runId e'.ended = ended) :
    ({ columns l with sizes := sizes, ended := ended } : InMemoryRunLog).wake runId = columns (l.wake e') := by
  subst hid hsizes hended
  have hrow : row Entry.runId e'.runId l.entries = some e := h
  have hkept : column Entry.runId Entry.chunks (upsert Entry.runId (fun _ new => new) { e' with woken := l.objects } l.entries) =
      column Entry.runId Entry.chunks l.entries :=
    column_upsert_of_row (x := { e' with woken := l.objects }) hrow hchunks.symm
  have hreleased := columns_released h
  have hset {α : Type} (field : Entry → α) (e : Entry) :
      Dict.set (column Entry.runId field l.entries) e.runId (field e) =
        column Entry.runId field (upsert Entry.runId (fun _ new => new) e l.entries) := set_column e _
  have hsizes := hset Entry.size { e' with woken := l.objects }
  have hended := hset Entry.ended { e' with woken := l.objects }
  have hnext := hset Entry.woken { e' with woken := l.objects }
  simp only at hsizes hended hnext
  simp only [InMemoryRunLog.released, columns] at hreleased
  simp only [InMemoryRunLog.wake, InMemoryRunLog.released, columns, RunLog.wake, RunLog.put, hkept, hsizes, hended, hnext,
    hreleased, hwoken]

theorem find_begun (l : RunLog) (runId : String) :
    ∃ e, (if l.has runId then l else l.start runId).find runId = some e := by
  by_cases hhas : l.has runId = true
  · rw [if_pos hhas]
    exact Option.isSome_iff_exists.1 hhas
  · rw [if_neg hhas, find_start]
    exact ⟨_, rfl⟩

theorem columns_append (hmax : 1 ≤ l.maxRuns) (hn : (l.entries.map Entry.runId).Nodup) (runId : String) (chunk : Bytes) :
    (columns l).append runId chunk = .ok (columns (l.append runId chunk)) := by
  have hbegun : (if (columns l).has runId then .ok (columns l) else (columns l).start runId) =
      (.ok (columns (if l.has runId then l else l.start runId)) : Except Failure _) := by
    rw [columns_has, columns_start hmax hn]
    split <;> rfl
  obtain ⟨e, he⟩ := find_begun l runId
  rw [InMemoryRunLog.append, hbegun, RunLog.append]
  generalize (if l.has runId then l else l.start runId) = l at he
  have hchunks : Dict.get (columns l).chunks runId = some e.chunks := by
    rw [columns, get_column, ← RunLog.find, he]
    rfl
  have hsize : Dict.get (columns l).sizes runId = some e.size := by
    rw [columns, get_column, ← RunLog.find, he]
    rfl
  simp only [Except.bind, hchunks, hsize, he]
  have hmaxBytes : (columns l).maxBytes = l.maxBytes := rfl
  have hlists : (columns l).lists = l.lists := rfl
  rw [hmaxBytes, hlists]
  generalize RunLog.trim l.maxBytes (e.size + chunk.length) (l.lists e.chunks ++ [chunk]) = trimmed
  obtain ⟨size, kept⟩ := trimmed
  have hid : e.runId = runId := row_key he
  have hended : Dict.set (columns l).ended runId e.ended = (columns l).ended := set_same he
  exact congrArg _ (columns_wake (l := { l with lists := Function.update l.lists e.chunks kept }) he
    { e with size := size } hid rfl rfl rfl hended)

theorem columns_end (l : RunLog) (runId : String) : (columns l).end_ runId = columns (l.end_ runId) := by
  have hget : Dict.get (columns l).ended runId = (l.find runId).map Entry.ended := get_column _ _
  rw [InMemoryRunLog.end_, RunLog.end_, hget]
  cases he : l.find runId with
  | none => rfl
  | some e =>
      have hid : e.runId = runId := row_key he
      have hsizes : Dict.set (columns l).sizes runId e.size = (columns l).sizes := set_same he
      rw [Option.map_some, Option.isSome_some, if_pos rfl]
      exact columns_wake he { e with ended := true } hid rfl rfl hsizes rfl

end Refinement

def trimmed (l : RunLog) (e : Entry) (chunk : Bytes) : Nat × List Bytes :=
  RunLog.trim l.maxBytes (e.size + chunk.length) (l.lists e.chunks ++ [chunk])

/-- What is kept of the chunks of a run. -/
structure Fair (maxBytes : Nat) (said kept : List Bytes) (size : Nat) : Prop where
  exact : size = kept.flatten.length
  recent : kept <:+ said
  latest : kept.getLast? = said.getLast?
  bounded : size ≤ maxBytes ∨ kept.length = 1

/-- The log is sound, with room for no more runs than it may have, and is fair
to each. -/
structure Weighed (l : RunLog) (said : String → List Bytes) : Prop where
  sound : Sound l
  few : 1 ≤ l.maxRuns → l.entries.length ≤ l.maxRuns
  fair : ∀ runId e, l.find runId = some e → Fair l.maxBytes (said runId) (l.lists e.chunks) e.size

section Invariant

variable {l : RunLog} {said : String → List Bytes} {runId other : String} {e : Entry} {maxBytes size : Nat}
  {whole chunks : List Bytes}

theorem trim_fair (hsize : size = chunks.flatten.length) (hrecent : chunks <:+ whole)
    (hlatest : chunks.getLast? = whole.getLast?) (hne : chunks ≠ []) :
    Fair maxBytes whole (RunLog.trim maxBytes size chunks).2 (RunLog.trim maxBytes size chunks).1 := by
  induction chunks generalizing size with
  | nil => exact absurd rfl hne
  | cons c chunks ih =>
      cases chunks with
      | nil => exact ⟨hsize, hrecent, hlatest, .inr rfl⟩
      | cons d chunks =>
          rw [RunLog.trim]
          split
          · apply ih
            · rw [hsize, List.flatten_cons, List.length_append, Nat.add_sub_cancel_left]
            · exact (List.suffix_cons c _).trans hrecent
            · rw [← hlatest, List.getLast?_cons_cons]
            · exact List.cons_ne_nil _ _
          · exact ⟨hsize, hrecent, hlatest, .inl (by omega)⟩

theorem evictFrom_maxRuns (l : RunLog) (es : List Entry) : (l.evictFrom es).maxRuns = l.maxRuns := by
  induction es generalizing l with
  | nil => rfl
  | cons e es ih =>
      rw [RunLog.evictFrom]
      split
      · exact ih _
      · rfl

theorem evictFrom_few (hmax : 1 ≤ l.maxRuns) (es : List Entry) (h : l.entries = es) :
    (l.evictFrom es).entries.length < l.maxRuns := by
  induction es generalizing l with
  | nil =>
      rw [RunLog.evictFrom, h]
      exact hmax
  | cons e es ih =>
      rw [RunLog.evictFrom]
      split
      · exact ih (l := { l with entries := es, fired := Function.update l.fired e.woken true }) hmax rfl
      · rename_i hless
        rw [h]
        exact not_le.1 hless

theorem length_upsert (e : Entry) (es : List Entry) :
    (upsert Entry.runId (fun _ new => new) e es).length ≤ es.length + 1 := by
  induction es with
  | nil => exact Nat.le_refl 1
  | cons x xs ih =>
      rw [upsert]
      split
      · exact Nat.le_succ _
      · exact Nat.succ_le_succ ih

theorem length_upsert_of_row {x : Entry} {es : List Entry} (h : row Entry.runId e.runId es = some x) :
    (upsert Entry.runId (fun _ new => new) e es).length = es.length := by
  have hmem : e.runId ∈ es.map Entry.runId := List.mem_map.2 ⟨x, row_mem h, row_key h⟩
  have hkeys : (upsert Entry.runId (fun _ new => new) e es).map Entry.runId = es.map Entry.runId :=
    (keys_upsert (fun _ _ _ => rfl) e es).trans (if_pos hmem)
  rw [← List.length_map Entry.runId, hkeys, List.length_map]

theorem find_of_start (hs : Sound l) (ho : other ≠ runId) (h : (l.start other).find runId = some e) :
    l.find runId = some e := by
  have hput : (l.start other).find runId = l.evict.find runId := find_put_of_ne l.evict ho
  exact find_of_evict hs (hput.symm.trans h)

theorem Weighed.start (h : Weighed l said) (runId : String) :
    Weighed (l.start runId) (Function.update said runId []) where
  sound := h.sound.start runId
  few hmax := by
    have hsame : (l.start runId).maxRuns = l.maxRuns := evictFrom_maxRuns l l.entries
    rw [hsame] at hmax ⊢
    have hless : l.evict.entries.length < l.maxRuns := evictFrom_few hmax l.entries rfl
    exact (length_upsert _ _).trans hless
  fair other e he := by
    have hmaxBytes : (l.start runId).maxBytes = l.maxBytes := maxBytes_evict l
    rw [hmaxBytes]
    by_cases hid : runId = other
    · subst hid
      rw [find_start] at he
      cases he
      have hlist : (l.start runId).lists l.objects = [] := by
        rw [← objects_evict]
        exact Function.update_self ..
      rw [hlist, Function.update_self]
      exact ⟨rfl, List.suffix_refl _, rfl, .inl (Nat.zero_le _)⟩
    · have hold := find_of_start h.sound hid he
      rw [Function.update_of_ne (Ne.symm hid), lists_start (h.sound.made e (row_mem hold))]
      exact h.fair other e hold

theorem append_found (h : l.find runId = some e) (chunk : Bytes) :
    l.append runId chunk =
      { l with lists := Function.update l.lists e.chunks (trimmed l e chunk).2 }.wake
        { e with size := (trimmed l e chunk).1 } := by
  simp only [RunLog.append, RunLog.has, h, Option.isSome_some, if_true, trimmed]

theorem append_missing (h : l.find runId = none) (chunk : Bytes) :
    l.append runId chunk = (l.start runId).append runId chunk := by
  have hhas : ¬ l.has runId = true := by simp [RunLog.has, h]
  have hstart : (l.start runId).has runId = true := by simp [RunLog.has, find_start]
  simp only [RunLog.append, if_neg hhas, if_pos hstart]

theorem Weighed.append_found (h : Weighed l said) (he : l.find runId = some e) (chunk : Bytes) :
    Weighed (l.append runId chunk) (Function.update said runId (said runId ++ [chunk])) := by
  have hid : e.runId = runId := row_key he
  have hold := h.fair runId e he
  have hfair : Fair l.maxBytes (said runId ++ [chunk]) (trimmed l e chunk).2 (trimmed l e chunk).1 := by
    apply trim_fair
    · rw [hold.exact, List.flatten_append, List.length_append, List.flatten_singleton]
    · exact List.suffix_append_self_iff.2 hold.recent
    · rw [List.getLast?_concat, List.getLast?_concat]
    · simp
  have heq := Bookkeeping.append_found he chunk
  have hsound := h.sound.append runId chunk
  generalize trimmed l e chunk = trimmed at heq hfair
  refine ⟨hsound, ?_, ?_⟩
  · rw [heq]
    intro hmax
    have hrow : row Entry.runId e.runId l.entries = some e := hid ▸ he
    have hlen : (upsert Entry.runId (fun _ new => new) { e with size := trimmed.1, woken := l.objects } l.entries).length =
        l.entries.length := length_upsert_of_row hrow
    exact hlen.trans_le (h.few hmax)
  · intro other x hx
    rw [heq] at hx ⊢
    by_cases ho : runId = other
    · subst ho
      rw [← hid, find_wake] at hx
      cases hx
      rw [Function.update_self]
      have hlist : Function.update l.lists e.chunks trimmed.2 e.chunks = trimmed.2 := Function.update_self ..
      change Fair l.maxBytes _ (Function.update l.lists e.chunks trimmed.2 e.chunks) trimmed.1
      rwa [hlist]
    · have hne : ({ e with size := trimmed.1 } : Entry).runId ≠ other := hid.trans_ne ho
      rw [find_wake_of_ne _ hne] at hx
      have hx' : l.find other = some x := hx
      have hne : x.chunks ≠ e.chunks := by
        intro hc
        apply ho
        have hother : x.runId = other := row_key hx'
        rw [← hid, ← hother, h.sound.apart x (row_mem hx') e (row_mem he) hc]
      have hlist : Function.update l.lists e.chunks trimmed.2 x.chunks = l.lists x.chunks := Function.update_of_ne hne _ _
      rw [Function.update_of_ne (Ne.symm ho)]
      change Fair l.maxBytes _ (Function.update l.lists e.chunks trimmed.2 x.chunks) x.size
      rw [hlist]
      exact h.fair other x hx'

theorem Weighed.append (h : Weighed l said) (runId : String) (chunk : Bytes) :
    Weighed (l.append runId chunk)
      (Function.update said runId ((if l.has runId then said runId else []) ++ [chunk])) := by
  cases he : l.find runId with
  | some e =>
      have hhas : l.has runId = true := by simp [RunLog.has, he]
      rw [if_pos hhas]
      exact h.append_found he chunk
  | none =>
      have hhas : ¬ l.has runId = true := by simp [RunLog.has, he]
      have hstarted := (h.start runId).append_found (find_start l runId) chunk
      rw [Function.update_self, Function.update_idem] at hstarted
      rw [if_neg hhas, append_missing he]
      exact hstarted

theorem Weighed.end_ (h : Weighed l said) (runId : String) : Weighed (l.end_ runId) said := by
  have hsound := h.sound.end_ runId
  cases he : l.find runId with
  | none =>
      rw [RunLog.end_, he]
      exact h
  | some e =>
      have hid : e.runId = runId := row_key he
      rw [end_of_find he] at hsound ⊢
      refine ⟨hsound, ?_, ?_⟩
      · intro hmax
        have hrow : row Entry.runId e.runId l.entries = some e := hid ▸ he
        have hlen : (upsert Entry.runId (fun _ new => new) { e with ended := true, woken := l.objects } l.entries).length =
            l.entries.length := length_upsert_of_row hrow
        exact hlen.trans_le (h.few hmax)
      · intro other x hx
        by_cases ho : runId = other
        · subst ho
          rw [← hid] at hx
          have hnew := (find_wake l { e with ended := true }).symm.trans hx
          cases hnew
          exact h.fair runId e he
        · have hne : ({ e with ended := true } : Entry).runId ≠ other := hid.trans_ne ho
          rw [find_wake_of_ne l hne] at hx
          exact h.fair other x hx

theorem weighed_init (maxBytes maxRuns : Nat) (said : String → List Bytes) :
    Weighed { maxBytes := maxBytes, maxRuns := maxRuns } said where
  sound := sound_of_reachable (.init maxBytes maxRuns)
  few _ := Nat.zero_le _
  fair _ _ he := by cases he

end Invariant

inductive Call
  | start (runId : String)
  | append (runId : String) (chunk : Bytes)
  | end_ (runId : String)
  deriving DecidableEq, Repr

def called (l : RunLog) : Call → RunLog
  | .start runId => l.start runId
  | .append runId chunk => l.append runId chunk
  | .end_ runId => l.end_ runId

def saidAfter (has : String → Bool) (said : String → List Bytes) : Call → String → List Bytes
  | .start runId => Function.update said runId []
  | .append runId chunk => Function.update said runId ((if has runId then said runId else []) ++ [chunk])
  | .end_ _ => said

structure Record where
  log : InMemoryRunLog
  said : String → List Bytes := fun _ => []

def Record.call (r : Record) (c : Call) : Except Failure Record :=
  (match c with
    | .start runId => r.log.start runId
    | .append runId chunk => r.log.append runId chunk
    | .end_ runId => .ok (r.log.end_ runId)).map fun log => ⟨log, saidAfter r.log.has r.said c⟩

def Record.calls (r : Record) (cs : List Call) : Except Failure Record := cs.foldlM Record.call r

/-- The four dictionaries agree on what is kept. -/
structure Exact (maxBytes maxRuns : Nat) (r : Record) : Prop where
  sizes : Dict.keys r.log.sizes = Dict.keys r.log.chunks
  ended : Dict.keys r.log.ended = Dict.keys r.log.chunks
  woken : Dict.keys r.log.woken = Dict.keys r.log.chunks
  once : (Dict.keys r.log.chunks).Nodup
  few : r.log.chunks.length ≤ maxRuns
  fair : ∀ runId chunks, Dict.get r.log.chunks runId = some chunks →
    ∃ size, Dict.get r.log.sizes runId = some size ∧ Fair maxBytes (r.said runId) (r.log.lists chunks) size

section Calls

variable {l : RunLog} {said : String → List Bytes} {runId : String} {chunk : Bytes} (c : Call)

theorem start_bounds (l : RunLog) (runId : String) :
    (l.start runId).maxBytes = l.maxBytes ∧ (l.start runId).maxRuns = l.maxRuns :=
  ⟨maxBytes_evict l, evictFrom_maxRuns l l.entries⟩

theorem append_bounds (l : RunLog) (runId : String) (chunk : Bytes) :
    (l.append runId chunk).maxBytes = l.maxBytes ∧ (l.append runId chunk).maxRuns = l.maxRuns := by
  cases he : l.find runId with
  | some e =>
      rw [append_found he]
      exact ⟨rfl, rfl⟩
  | none =>
      rw [append_missing he, append_found (find_start l runId)]
      exact start_bounds l runId

theorem called_bounds (l : RunLog) : (called l c).maxBytes = l.maxBytes ∧ (called l c).maxRuns = l.maxRuns := by
  cases c with
  | start runId => exact start_bounds l runId
  | append runId chunk => exact append_bounds l runId chunk
  | end_ runId =>
      rw [called, RunLog.end_]
      cases l.find runId <;> exact ⟨rfl, rfl⟩

theorem Weighed.called (h : Weighed l said) : Weighed (called l c) (saidAfter l.has said c) := by
  cases c with
  | start runId => exact h.start runId
  | append runId chunk => exact h.append runId chunk
  | end_ runId => exact h.end_ runId

theorem columns_called (hmax : 1 ≤ l.maxRuns) (h : Weighed l said) :
    Record.call ⟨columns l, said⟩ c = .ok ⟨columns (called l c), saidAfter l.has said c⟩ := by
  have hhas : (columns l).has = l.has := funext (columns_has l)
  unfold Record.call
  dsimp only
  rw [hhas]
  cases c with
  | start runId =>
      dsimp only
      rw [columns_start hmax h.sound.keys]
      rfl
  | append runId chunk =>
      dsimp only
      rw [columns_append hmax h.sound.keys]
      rfl
  | end_ runId =>
      dsimp only
      rw [columns_end]
      rfl

theorem columns_calls (hmax : 1 ≤ l.maxRuns) (h : Weighed l said) (cs : List Call) :
    ∃ l' said', Record.calls ⟨columns l, said⟩ cs = .ok ⟨columns l', said'⟩ ∧ Weighed l' said' ∧
      l'.maxBytes = l.maxBytes ∧ l'.maxRuns = l.maxRuns := by
  induction cs generalizing l said with
  | nil => exact ⟨l, said, rfl, h, rfl, rfl⟩
  | cons c cs ih =>
      obtain ⟨hbytes, hruns⟩ := called_bounds c l
      obtain ⟨l', said', hcalls, hw, hbytes', hruns'⟩ := ih (hruns.symm ▸ hmax) (h.called c)
      refine ⟨l', said', ?_, hw, hbytes'.trans hbytes, hruns'.trans hruns⟩
      rw [Record.calls, List.foldlM_cons, columns_called c hmax h]
      exact hcalls

theorem Weighed.exact (h : Weighed l said) (hmax : 1 ≤ l.maxRuns) : Exact l.maxBytes l.maxRuns ⟨columns l, said⟩ where
  sizes := (keys_column _).trans (keys_column _).symm
  ended := (keys_column _).trans (keys_column _).symm
  woken := (keys_column _).trans (keys_column _).symm
  once := by
    rw [show Dict.keys (columns l).chunks = l.entries.map Entry.runId from keys_column _]
    exact h.sound.keys
  few := by
    rw [show (columns l).chunks.length = l.entries.length from length_column _]
    exact h.few hmax
  fair runId chunks hget := by
    have hchunks : Dict.get (columns l).chunks runId = (l.find runId).map Entry.chunks := get_column _ _
    have hsizes : Dict.get (columns l).sizes runId = (l.find runId).map Entry.size := get_column _ _
    rw [hchunks] at hget
    obtain ⟨e, he, rfl⟩ := Option.map_eq_some_iff.1 hget
    exact ⟨e.size, by rw [hsizes, he]; rfl, h.fair runId e he⟩

end Calls

end CodeZard.Bookkeeping
