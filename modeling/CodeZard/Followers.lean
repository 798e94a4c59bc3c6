import CodeZard.RunLogs
import Mathlib.Data.List.Nodup

namespace CodeZard.Followers

open Tables RunLogs

def logOf (b : Broadcast) (runId : String) : Option Nat := (b.log.find runId).map Entry.chunks

/-- A step that neither evicts nor restarts the log of the run, nor takes it
past its limit. -/
def Intact (runId : String) (b : Broadcast) (e : Event) (b' : Broadcast) : Prop :=
  logOf b' runId = logOf b runId ∧ match e with
    | .append other chunk => other = runId → (b.said runId ++ [chunk]).flatten.length ≤ b.log.maxBytes
    | _ => True

instance (runId : String) (b : Broadcast) (e : Event) (b' : Broadcast) : Decidable (Intact runId b e b') := by
  rcases e <;> dsimp only [Intact] <;> infer_instance

inductive Reachable : Broadcast → Prop
  | init (maxBytes maxRuns : Nat) : Reachable { log := { maxBytes := maxBytes, maxRuns := maxRuns } }
  | next {b b' : Broadcast} {e : Event} (h : Reachable b) (hn : next b e = some b') : Reachable b'

/-- What a broadcast can come to while the log of a run is left intact. -/
inductive Goes (runId : String) (b : Broadcast) : Broadcast → Prop
  | init : Goes runId b b
  | next {c d : Broadcast} {e : Event} (h : Goes runId b c) (hn : next c e = some d) (hi : Intact runId c e d) :
      Goes runId b d

/-- No two entries share a run or a list, and none has a list that is not made
yet. -/
structure Sound (l : RunLog) : Prop where
  keys : (l.entries.map Entry.runId).Nodup
  made : ∀ e ∈ l.entries, e.chunks < l.objects
  apart : ∀ e ∈ l.entries, ∀ e' ∈ l.entries, e.chunks = e'.chunks → e.runId = e'.runId

section Logs

variable {l : RunLog} {e : Entry} {runId : String}

theorem mem_upsert {es : List Entry} {x : Entry} (h : x ∈ upsert Entry.runId (fun _ new => new) e es) :
    x ∈ es ∨ x = e := by
  rcases Tables.mem_upsert h with h | h | ⟨_, _, h⟩
  · exact .inl h
  · exact .inr h
  · exact .inr h

theorem find_put (l : RunLog) (e : Entry) : (l.put e).find e.runId = some e := by
  have h := row_upsert_self (fun (_ new : Entry) (_ : _ = new.runId) => rfl) e l.entries
  rw [RunLog.find, RunLog.put, h]
  cases row Entry.runId e.runId l.entries <;> rfl

theorem find_put_of_ne (l : RunLog) (h : e.runId ≠ runId) : (l.put e).find runId = l.find runId :=
  row_upsert_of_ne (fun _ _ _ => rfl) h l.entries

theorem find_mem (h : l.find runId = some e) : e ∈ l.entries ∧ e.runId = runId :=
  ⟨row_mem h, row_key h⟩

theorem evictFrom_spec (es : List Entry) (h : l.entries = es) :
    (l.evictFrom es).entries <:+ l.entries ∧ (l.evictFrom es).lists = l.lists ∧
      (l.evictFrom es).objects = l.objects ∧ (l.evictFrom es).maxBytes = l.maxBytes := by
  induction es generalizing l with
  | nil => exact ⟨List.suffix_refl _, rfl, rfl, rfl⟩
  | cons e es ih =>
      simp only [RunLog.evictFrom]
      split
      · obtain ⟨hs, hl, ho, hm⟩ := ih (l := { l with entries := es, fired := Function.update l.fired e.woken true }) rfl
        refine ⟨hs.trans ?_, hl, ho, hm⟩
        rw [h]
        exact List.suffix_cons e es
      · exact ⟨List.suffix_refl _, rfl, rfl, rfl⟩

theorem suffix_evict (l : RunLog) : l.evict.entries <:+ l.entries := (evictFrom_spec (l := l) l.entries rfl).1

theorem lists_evict (l : RunLog) : l.evict.lists = l.lists := (evictFrom_spec (l := l) l.entries rfl).2.1

theorem objects_evict (l : RunLog) : l.evict.objects = l.objects := (evictFrom_spec (l := l) l.entries rfl).2.2.1

theorem maxBytes_evict (l : RunLog) : l.evict.maxBytes = l.maxBytes := (evictFrom_spec (l := l) l.entries rfl).2.2.2

theorem find_of_evict (hs : Sound l) (h : l.evict.find runId = some e) : l.find runId = some e := by
  have hid : e.runId = runId := row_key h
  rw [← hid]
  exact row_of_mem hs.keys ((suffix_evict l).subset (row_mem h))

theorem Sound.put (h : Sound l) (hm : e.chunks < l.objects)
    (ha : ∀ x ∈ l.entries, x.chunks = e.chunks → x.runId = e.runId) : Sound (l.put e) where
  keys := nodup_upsert (fun _ _ _ => rfl) h.keys
  made x hx := by
    rcases mem_upsert hx with hx | rfl
    · exact h.made x hx
    · exact hm
  apart x hx y hy hxy := by
    rcases mem_upsert hx with hx' | hx' <;> rcases mem_upsert hy with hy' | hy'
    · exact h.apart x hx' y hy' hxy
    · rw [hy'] at hxy ⊢
      exact ha x hx' hxy
    · rw [hx'] at hxy ⊢
      exact (ha y hy' hxy.symm).symm
    · rw [hx', hy']

theorem Sound.more {l' : RunLog} (h : Sound l) (he : l'.entries = l.entries) (ho : l.objects ≤ l'.objects) :
    Sound l' where
  keys := he ▸ h.keys
  made e hm := Nat.lt_of_lt_of_le (h.made e (he ▸ hm)) ho
  apart e hm e' hm' := h.apart e (he ▸ hm) e' (he ▸ hm')

theorem Sound.start (h : Sound l) (runId : String) : Sound (l.start runId) := by
  have hs := suffix_evict l
  have hmade (e : Entry) (he : e ∈ l.evict.entries) : e.chunks < l.evict.objects := by
    rw [objects_evict]
    exact h.made e (hs.subset he)
  constructor
  · exact nodup_upsert (fun _ _ _ => rfl) (h.keys.sublist (hs.sublist.map _))
  · intro e he
    rcases mem_upsert he with he | rfl
    · exact Nat.lt_of_lt_of_le (hmade e he) (Nat.le_add_right _ 2)
    · exact Nat.lt_add_of_pos_right (by omega)
  · intro e he e' he' hc
    rcases mem_upsert he with he | rfl <;> rcases mem_upsert he' with he' | rfl
    · exact h.apart e (hs.subset he) e' (hs.subset he') hc
    · exact absurd hc (Nat.ne_of_lt (hmade e he))
    · exact absurd hc.symm (Nat.ne_of_lt (hmade e' he'))
    · rfl

theorem Sound.wake {e' : Entry} (h : Sound l) (he : l.find runId = some e) (hr : e'.runId = e.runId)
    (hc : e'.chunks = e.chunks) : Sound (l.wake e') := by
  obtain ⟨hm, _⟩ := find_mem he
  refine (h.put (e := { e' with woken := l.objects }) ?_ ?_).more rfl (Nat.le_succ _)
  · simpa [hc] using h.made e hm
  · intro x hx hxc
    simpa [hr] using h.apart x hx e hm (hxc.trans hc)

theorem Sound.append (h : Sound l) (runId : String) (chunk : Bytes) : Sound (l.append runId chunk) := by
  have hl : Sound (if l.has runId then l else l.start runId) := by
    split
    · exact h
    · exact h.start runId
  unfold RunLog.append
  generalize (if l.has runId then l else l.start runId) = l at hl
  simp only
  cases he : l.find runId with
  | none => exact hl
  | some e =>
      simp only
      apply Sound.wake (e := e)
      · exact hl.more rfl (Nat.le_refl _)
      · exact he
      · rfl
      · rfl

theorem Sound.end_ (h : Sound l) (runId : String) : Sound (l.end_ runId) := by
  unfold RunLog.end_
  cases he : l.find runId with
  | none => exact h
  | some e => exact h.wake he rfl rfl

end Logs

theorem Sound.next {b b' : Broadcast} {e : Event} (h : Sound b.log) (hn : next b e = some b') : Sound b'.log := by
  cases e with
  | start runId => cases hn; exact h.start runId
  | append runId chunk => cases hn; exact h.append runId chunk
  | end_ runId => cases hn; exact h.end_ runId
  | follow runId => cases hn; exact h
  | resume i =>
      obtain ⟨r, _, hn⟩ := Option.bind_eq_some_iff.1 hn
      obtain ⟨r', _, rfl⟩ := Option.map_eq_some_iff.1 hn
      exact h

theorem sound_of_reachable {b : Broadcast} (h : Reachable b) : Sound b.log := by
  induction h with
  | init maxBytes maxRuns =>
      constructor
      · exact List.nodup_nil
      · intro e he; cases he
      · intro e he; cases he
  | next _ hn ih => exact ih.next hn

section Logs

variable {l : RunLog} {runId : String} {chunk : Bytes} {e : Entry}

theorem trim_within {maxBytes size : Nat} (h : size ≤ maxBytes) (chunks : List Bytes) :
    RunLog.trim maxBytes size chunks = (size, chunks) := by
  cases chunks with
  | nil => rfl
  | cons c chunks =>
      cases chunks with
      | nil => rfl
      | cons d chunks => rw [RunLog.trim, if_neg (by omega)]

theorem find_wake (l : RunLog) (e : Entry) : (l.wake e).find e.runId = some { e with woken := l.objects } :=
  find_put l { e with woken := l.objects }

theorem find_wake_of_ne (l : RunLog) (h : e.runId ≠ runId) : (l.wake e).find runId = l.find runId :=
  find_put_of_ne l (e := { e with woken := l.objects }) h

theorem find_start (l : RunLog) (runId : String) :
    (l.start runId).find runId = some ⟨runId, l.objects, 0, false, l.objects + 1⟩ := by
  rw [← objects_evict]
  exact find_put l.evict ⟨runId, l.evict.objects, 0, false, l.evict.objects + 1⟩

theorem lists_start {n : Nat} (h : n < l.objects) (runId : String) : (l.start runId).lists n = l.lists n := by
  have hn : n ≠ l.evict.objects := by
    rw [objects_evict]
    omega
  calc (l.start runId).lists n = l.evict.lists n := Function.update_of_ne hn _ _
    _ = l.lists n := congrFun (lists_evict l) n

theorem append_of_find (h : l.find runId = some e) (hb : e.size + chunk.length ≤ l.maxBytes) :
    l.append runId chunk =
      { l with lists := Function.update l.lists e.chunks (l.lists e.chunks ++ [chunk]) }.wake
        { e with size := e.size + chunk.length } := by
  simp [RunLog.append, RunLog.has, h, trim_within hb]

theorem end_of_find (h : l.find runId = some e) : l.end_ runId = l.wake { e with ended := true } := by
  simp [RunLog.end_, h]

theorem find_of_suffix {e' : Entry} (hs : Sound l) (he : l.find runId = some e) {es : List Entry}
    (h : es <:+ l.entries) (he' : row Entry.runId runId es = some e') : e' = e := by
  apply List.inj_on_of_nodup_map hs.keys (h.subset (row_mem he')) (row_mem he)
  rw [row_key he', row_key he]

theorem append_self (he : l.find runId = some e) (hb : e.size + chunk.length ≤ l.maxBytes) :
    ∃ e', (l.append runId chunk).find runId = some e' ∧ e'.chunks = e.chunks ∧ e'.size = e.size + chunk.length ∧
      (l.append runId chunk).lists e.chunks = l.lists e.chunks ++ [chunk] := by
  rw [append_of_find he hb, ← row_key he]
  exact ⟨_, find_wake _ _, rfl, rfl, Function.update_self ..⟩

theorem end_self (he : l.find runId = some e) :
    ∃ e', (l.end_ runId).find runId = some e' ∧ e'.chunks = e.chunks ∧ e'.size = e.size ∧
      (l.end_ runId).lists = l.lists := by
  rw [end_of_find he, ← row_key he]
  exact ⟨_, find_wake _ _, rfl, rfl, rfl⟩

variable {other : String} {e' : Entry}

theorem start_other (hs : Sound l) (ho : other ≠ runId) (he : l.find runId = some e)
    (he' : (l.start other).find runId = some e') : e' = e := by
  apply find_of_suffix hs he (suffix_evict l)
  rw [← he']
  exact (find_put_of_ne l.evict ho).symm

theorem end_other (ho : other ≠ runId) :
    (l.end_ other).find runId = l.find runId ∧ (l.end_ other).lists = l.lists := by
  unfold RunLog.end_
  cases hx : l.find other with
  | none => exact ⟨rfl, rfl⟩
  | some x =>
      refine ⟨find_wake_of_ne l ?_, rfl⟩
      exact (row_key hx).trans_ne ho

theorem find_append_other (ho : other ≠ runId) (hx : l.has other = true) :
    (l.append other chunk).find runId = l.find runId := by
  obtain ⟨x, hx⟩ := Option.isSome_iff_exists.1 hx
  simp only [RunLog.append, RunLog.has, hx, Option.isSome_some, if_true]
  exact find_wake_of_ne { l with lists := _ } ((row_key hx).trans_ne ho)

theorem lists_append_other (hs : Sound l) (ho : other ≠ runId) (he : l.find runId = some e)
    (hx : l.has other = true) : (l.append other chunk).lists e.chunks = l.lists e.chunks := by
  obtain ⟨x, hx⟩ := Option.isSome_iff_exists.1 hx
  have hne : e.chunks ≠ x.chunks := by
    intro hc
    apply ho
    rw [← row_key hx, ← row_key he, hs.apart e (row_mem he) x (row_mem hx) hc]
  simp only [RunLog.append, RunLog.has, hx, Option.isSome_some, if_true]
  exact Function.update_of_ne hne _ _

theorem append_other (hs : Sound l) (ho : other ≠ runId) (he : l.find runId = some e)
    (he' : ((l.append other chunk).find runId).isSome = true) :
    (l.append other chunk).find runId = some e ∧ (l.append other chunk).lists e.chunks = l.lists e.chunks := by
  by_cases hx : l.has other = true
  · exact ⟨(find_append_other ho hx).trans he, lists_append_other hs ho he hx⟩
  · have hstart : (l.start other).has other = true := by
      rw [RunLog.has, find_start]
      rfl
    have happ : l.append other chunk = (l.start other).append other chunk := by
      simp only [RunLog.append, if_neg hx, if_pos hstart]
    rw [happ] at he' ⊢
    rw [find_append_other ho hstart] at he' ⊢
    obtain ⟨e', he'⟩ := Option.isSome_iff_exists.1 he'
    obtain rfl := start_other hs ho he he'
    refine ⟨he', ?_⟩
    rw [lists_append_other (hs.start other) ho he' hstart, lists_start (hs.made e' (row_mem he)) other]

end Logs

theorem intact_cases {b b' : Broadcast} {runId : String} {ev : Event} {e : Entry} (hs : Sound b.log)
    (he : b.log.find runId = some e) (hz : e.size = (b.said runId).flatten.length) (hn : next b ev = some b')
    (hi : Intact runId b ev b') :
    ∃ e', b'.log.find runId = some e' ∧ e'.chunks = e.chunks ∧ e'.size = (b'.said runId).flatten.length ∧
      ((∃ chunk, ev = .append runId chunk ∧ b'.said runId = b.said runId ++ [chunk] ∧
          b'.log.lists e.chunks = b.log.lists e.chunks ++ [chunk]) ∨
        ((∀ chunk, ev ≠ .append runId chunk) ∧ b'.said runId = b.said runId ∧
          b'.log.lists e.chunks = b.log.lists e.chunks)) := by
  obtain ⟨hi, hb⟩ := hi
  obtain ⟨e', he', hc⟩ : ∃ e', b'.log.find runId = some e' ∧ e'.chunks = e.chunks := by
    simpa [logOf, he] using hi
  have hm := hs.made e (row_mem he)
  cases ev with
  | start other =>
      cases hn
      by_cases ho : other = runId
      · subst ho
        rw [find_start] at he'
        cases he'
        exact absurd hc (Nat.ne_of_gt hm)
      · obtain rfl := start_other hs ho he he'
        have hsaid : Function.update b.said other [] runId = b.said runId := Function.update_of_ne (Ne.symm ho) _ _
        refine ⟨e', he', rfl, ?_, .inr ⟨by simp, hsaid, lists_start hm other⟩⟩
        simp only [hsaid, hz]
  | append other chunk =>
      cases hn
      by_cases ho : other = runId
      · subst ho
        have hle : e.size + chunk.length ≤ b.log.maxBytes := by
          have := hb rfl
          simp only [List.flatten_append, List.length_append, List.flatten_singleton] at this
          omega
        have hsaid : Function.update b.said other ((if b.log.has other then b.said other else []) ++ [chunk]) other =
            b.said other ++ [chunk] := by
          simp [RunLog.has, he]
        obtain ⟨e', he', hc, hz', hl⟩ := append_self he hle
        refine ⟨e', he', hc, ?_, .inl ⟨chunk, rfl, hsaid, hl⟩⟩
        simp only [hsaid]
        simp [hz', hz]
      · obtain ⟨hf, hl⟩ := append_other hs ho he (by rw [he']; rfl)
        have hsaid : Function.update b.said other ((if b.log.has other then b.said other else []) ++ [chunk]) runId =
            b.said runId := Function.update_of_ne (Ne.symm ho) _ _
        refine ⟨e, hf, rfl, ?_, .inr ⟨by simp [ho], hsaid, hl⟩⟩
        simp only [hsaid, hz]
  | end_ other =>
      cases hn
      by_cases ho : other = runId
      · subst ho
        obtain ⟨e', he', hc, hz', hl⟩ := end_self he
        exact ⟨e', he', hc, hz'.trans hz, .inr ⟨by simp, rfl, congrFun hl _⟩⟩
      · obtain ⟨hf, hl⟩ := end_other (l := b.log) ho
        exact ⟨e, hf.trans he, rfl, hz, .inr ⟨by simp, rfl, congrFun hl _⟩⟩
  | follow other =>
      cases hn
      rw [he] at he'
      cases he'
      exact ⟨e, he, rfl, hz, .inr ⟨by simp, rfl, rfl⟩⟩
  | resume i =>
      obtain ⟨r, _, hn⟩ := Option.bind_eq_some_iff.1 hn
      obtain ⟨r', _, rfl⟩ := Option.map_eq_some_iff.1 hn
      rw [he] at he'
      cases he'
      exact ⟨e, he, rfl, hz, .inr ⟨by simp, rfl, rfl⟩⟩

/-- At the top of the loop a reader has yielded the chunks up to its cursor, in
their order, and all of them unless it was overtaken. -/
def Caught (L : List Bytes) (r : Reader) : Prop :=
  r.cursor ≤ L.length ∧ r.out.Sublist (L.take r.cursor) ∧ (r.out = L.take r.cursor ↔ r.overtaken = false)

def Sees (n : Nat) (L : List Bytes) (r : Reader) : Prop :=
  match r.place with
  | .created | .waiting _ => Caught L r
  | .yielding chunks rest => chunks = n ∧ (r.out ++ rest).Sublist L ∧ (r.out ++ rest = L ↔ r.overtaken = false)
  | .returned => True

/-- A reader that is done has yielded everything, unless it was overtaken. -/
def Whole (L : List Bytes) (r : Reader) : Prop :=
  r.place = .returned → r.out.Sublist L ∧ (r.out = L ↔ r.overtaken = false)

section Readers

variable {r r' : Reader} {l : RunLog} {e : Entry}

theorem Caught.top (he : l.find r.runId = some e) (h : Caught (l.lists e.chunks) r) :
    Sees e.chunks (l.lists e.chunks) (r.top l) ∧ Whole (l.lists e.chunks) (r.top l) := by
  obtain ⟨hc, hsub, hall⟩ := h
  unfold Reader.top
  simp only [he]
  cases hd : (l.lists e.chunks).drop r.cursor with
  | cons chunk rest =>
      have hwhole : (l.lists e.chunks).take r.cursor ++ chunk :: rest = l.lists e.chunks := by
        rw [← hd, List.take_append_drop]
      have hout : r.out ++ [chunk] ++ rest = r.out ++ chunk :: rest := by simp
      refine ⟨⟨rfl, ?_, ?_⟩, fun h => by cases h⟩
      · dsimp only
        rw [hout]
        exact hwhole ▸ hsub.append (List.Sublist.refl _)
      · dsimp only
        rw [hout, ← hall]
        constructor
        · intro h
          exact List.append_cancel_right (h.trans hwhole.symm)
        · intro h
          rw [h, hwhole]
  | nil =>
      have hwhole : (l.lists e.chunks).take r.cursor = l.lists e.chunks :=
        List.take_of_length_le (List.drop_eq_nil_iff.1 hd)
      simp only
      split
      · exact ⟨trivial, fun _ => hwhole ▸ ⟨hsub, hall⟩⟩
      · exact ⟨⟨hc, hsub, hall⟩, fun h => by cases h⟩

theorem top_runId (r : Reader) (l : RunLog) : (r.top l).runId = r.runId := by
  unfold Reader.top
  split
  · rfl
  · split
    · rfl
    · split <;> rfl

theorem resume_runId (hr : r.resume l = some r') : r'.runId = r.runId := by
  unfold Reader.resume at hr
  split at hr
  · cases hr
    exact top_runId r l
  · cases hr
    rfl
  · cases hr
    exact top_runId _ l
  · split at hr
    · cases hr
      exact top_runId r l
    · cases hr
  · cases hr

theorem Sees.resume (he : l.find r.runId = some e) (h : Sees e.chunks (l.lists e.chunks) r)
    (hr : r.resume l = some r') : Sees e.chunks (l.lists e.chunks) r' ∧ Whole (l.lists e.chunks) r' := by
  unfold Reader.resume at hr
  unfold Sees at h
  cases hp : r.place with
  | created =>
      simp only [hp] at h hr
      cases hr
      exact Caught.top he h
  | waiting event =>
      simp only [hp] at h hr
      split at hr
      · cases hr
        exact Caught.top he h
      · cases hr
  | returned =>
      simp only [hp] at hr
      cases hr
  | yielding chunks rest =>
      simp only [hp] at h hr
      obtain ⟨rfl, h⟩ := h
      cases rest with
      | cons chunk rest =>
          cases hr
          refine ⟨⟨rfl, ?_⟩, fun h => by cases h⟩
          simpa using h
      | nil =>
          cases hr
          refine Caught.top (r := { r with cursor := _ }) he ⟨Nat.le_refl _, ?_⟩
          simpa using h

theorem Sees.append {n : Nat} {L : List Bytes} (h : Sees n L r) (chunk : Bytes) :
    Sees n (L ++ [chunk]) (r.overtake r.runId) := by
  have hcaught (h : Caught L r) : Caught (L ++ [chunk]) r := by
    obtain ⟨hc, ho⟩ := h
    constructor
    · rw [List.length_append]
      omega
    · rwa [List.take_append_of_le_length hc]
  unfold Sees at h
  cases hp : r.place with
  | created =>
      simp only [hp] at h
      simpa only [Reader.overtake, hp, Sees] using hcaught h
  | waiting event =>
      simp only [hp] at h
      simpa only [Reader.overtake, hp, Sees] using hcaught h
  | returned => simp only [Reader.overtake, hp, Sees]
  | yielding chunks rest =>
      simp only [hp] at h
      simp only [Reader.overtake, hp, if_true, Sees]
      obtain ⟨hn, hsub, -⟩ := h
      refine ⟨hn, hsub.trans (List.sublist_append_left L [chunk]), ?_⟩
      have hlate : r.out ++ rest ≠ L ++ [chunk] := by
        intro h
        have hlength := hsub.length_le
        rw [h, List.length_append, List.length_singleton] at hlength
        omega
      simp [hlate]

theorem overtake_runId (r : Reader) (runId : String) : (r.overtake runId).runId = r.runId := by
  unfold Reader.overtake
  split
  · split <;> rfl
  · rfl

theorem overtake_of_ne {runId : String} (h : r.runId ≠ runId) : r.overtake runId = r := by
  unfold Reader.overtake
  split
  · exact if_neg h
  · rfl

end Readers

/-- The log of the run holds all that was appended, and every reader from the
`n`-th on sees it. -/
structure Inv (n : Nat) (runId : String) (b : Broadcast) (e : Entry) : Prop where
  sound : Sound b.log
  found : b.log.find runId = some e
  size : e.size = (b.said runId).flatten.length
  content : b.log.lists e.chunks = b.said runId
  readers : ∀ i r, n ≤ i → b.readers[i]? = some r → r.runId = runId → Sees e.chunks (b.said runId) r

theorem inv_start {b b₁ : Broadcast} {runId : String} (h : Sound b.log) (hn : next b (.start runId) = some b₁) :
    ∃ e, Inv b.readers.length runId b₁ e := by
  cases hn
  have hsaid : Function.update b.said runId [] runId = [] := Function.update_self ..
  refine ⟨_, h.start runId, find_start b.log runId, ?_, ?_, ?_⟩
  · simp
  · simp only [hsaid, ← objects_evict b.log]
    exact Function.update_self ..
  · intro i r hi hr
    rw [List.getElem?_eq_none hi] at hr
    cases hr

variable {b d : Broadcast} {runId : String} {ev : Event} {e : Entry} {n : Nat}

theorem readers_step {i : Nat} {r' : Reader} (hn : next b ev = some d) (hr : d.readers[i]? = some r') :
    (∃ r, b.readers[i]? = some r ∧ match ev with
      | .append other _ => r' = r.overtake other
      | .resume j => if j = i then r.resume b.log = some r' else r' = r
      | _ => r' = r) ∨ ∃ other, ev = .follow other ∧ r' = { runId := other } := by
  cases ev with
  | start other | end_ other =>
      cases hn
      exact .inl ⟨r', hr, rfl⟩
  | append other chunk =>
      cases hn
      rw [List.getElem?_map] at hr
      obtain ⟨r, hr', rfl⟩ := Option.map_eq_some_iff.1 hr
      exact .inl ⟨r, hr', rfl⟩
  | follow other =>
      cases hn
      rw [List.getElem?_append] at hr
      split at hr
      · exact .inl ⟨r', hr, rfl⟩
      · rw [List.getElem?_singleton] at hr
        split at hr
        · cases hr
          exact .inr ⟨other, rfl, rfl⟩
        · cases hr
  | resume j =>
      obtain ⟨r, hj, hn⟩ := Option.bind_eq_some_iff.1 hn
      obtain ⟨x, hx, rfl⟩ := Option.map_eq_some_iff.1 hn
      by_cases hji : j = i
      · subst hji
        rw [List.getElem?_set_self (List.getElem?_eq_some_iff.1 hj).1] at hr
        cases hr
        exact .inl ⟨r, hj, by simpa using hx⟩
      · rw [List.getElem?_set_ne hji] at hr
        exact .inl ⟨r', hr, by simp [hji]⟩

theorem created_sees (n : Nat) (L : List Bytes) (runId : String) : Sees n L { runId := runId } :=
  ⟨Nat.zero_le _, List.nil_sublist _, by simp⟩

theorem Inv.step (h : Inv n runId b e) (hn : next b ev = some d) (hi : Intact runId b ev d) :
    ∃ e', Inv n runId d e' := by
  obtain ⟨e', he', hc, hz, hstep⟩ := intact_cases h.sound h.found h.size hn hi
  have hcontent : d.log.lists e'.chunks = d.said runId := by
    rw [hc]
    rcases hstep with ⟨chunk, _, hs, hl⟩ | ⟨_, hs, hl⟩ <;> rw [hl, hs, h.content]
  refine ⟨e', h.sound.next hn, he', hz, hcontent, fun i r' hi hr' hid => ?_⟩
  rw [hc]
  rcases readers_step hn hr' with ⟨r, hr, hm⟩ | ⟨other, rfl, rfl⟩
  · have hsees (hrid : r.runId = runId) := h.readers i r hi hr hrid
    rcases hstep with ⟨chunk, rfl, hs, _⟩ | ⟨hne, hs, _⟩
    · obtain rfl := hm
      rw [overtake_runId] at hid
      rw [hs, ← hid]
      exact hid ▸ (hsees hid).append chunk
    · rw [hs]
      cases ev with
      | start other | end_ other | follow other =>
          obtain rfl := hm
          exact hsees hid
      | append other chunk =>
          obtain rfl := hm
          rw [overtake_runId] at hid
          rw [overtake_of_ne fun ho => hne chunk (by rw [← hid, ho])]
          exact hsees hid
      | resume j =>
          simp only at hm
          split at hm
          · have hrid : r.runId = runId := (resume_runId hm).symm.trans hid
            have hr := hsees hrid
            rw [← h.content] at hr ⊢
            exact (hr.resume (hrid ▸ h.found) hm).1
          · obtain rfl := hm
            exact hsees hid
  · exact created_sees _ _ _

theorem Goes.inv {b₁ c : Broadcast} (h₁ : ∃ e, Inv n runId b₁ e) (h : Goes runId b₁ c) : ∃ e, Inv n runId c e := by
  induction h with
  | init => exact h₁
  | next _ hn hi ih =>
      obtain ⟨e, ih⟩ := ih
      exact ih.step hn hi

/-- A reader that began after its log was started, and has run to completion,
has yielded all the chunks if and only if none was appended while it was
suspended at a yield. -/
theorem followed_whole_iff {runId : String} {b b₁ c d : Broadcast} (hb : Reachable b)
    (hs : next b (.start runId) = some b₁) (hc : Goes runId b₁ c) {i : Nat} {r r' : Reader}
    (hi : b.readers.length ≤ i) (hr : c.readers[i]? = some r) (hid : r.runId = runId)
    (hd : next c (.resume i) = some d) (hr' : d.readers[i]? = some r') (hret : r'.place = .returned) :
    r'.out = d.said runId ↔ r'.overtaken = false := by
  obtain ⟨e, h⟩ := hc.inv (inv_start (sound_of_reachable hb) hs)
  have hm : r.resume c.log = some r' := by
    rcases readers_step hd hr' with ⟨x, hx, hm⟩ | ⟨_, hf, _⟩
    · rw [hr] at hx
      cases hx
      simpa using hm
    · cases hf
  have hsaid : d.said = c.said := by
    obtain ⟨x, _, hd⟩ := Option.bind_eq_some_iff.1 hd
    obtain ⟨y, _, rfl⟩ := Option.map_eq_some_iff.1 hd
    rfl
  have hsees := h.readers i r hi hr hid
  rw [← h.content] at hsees
  rw [hsaid, ← h.content]
  exact ((hsees.resume (hid ▸ h.found) hm).2 hret).2

/-- What some events lead to, if each of them leaves the log intact. -/
def play (runId : String) : Broadcast → List Event → Option Broadcast
  | b, [] => some b
  | b, e :: es => (next b e).bind fun d => if Intact runId b e d then play runId d es else none

theorem Goes.play {b c d : Broadcast} {es : List Event} (h : Goes runId b c) (hp : play runId c es = some d) :
    Goes runId b d := by
  induction es generalizing c with
  | nil =>
      cases hp
      exact h
  | cons e es ih =>
      obtain ⟨c', hn, hp⟩ := Option.bind_eq_some_iff.1 hp
      split at hp
      · exact ih (h.next hn ‹_›) hp
      · cases hp

/-- The log of `r` has just been started. -/
def started : Broadcast :=
  { log := ({} : RunLog).start "r", said := Function.update ({} : Broadcast).said "r" [] }

def watched : List Event :=
  [.append "r" [1], .follow "r", .resume 0, .resume 0, .append "r" [2], .end_ "r", .resume 0]

def lagging : List Event := [.append "r" [1], .follow "r", .resume 0, .append "r" [2], .end_ "r"]

/-- Some events, after which the first reader returns having yielded `out`. -/
def returns (es : List Event) (out : List Bytes) : Bool :=
  (play "r" started es).any fun c => c.readers[0]?.any fun r => (next c (.resume 0)).any fun d =>
    d.readers[0]?.any fun r' => r.runId = "r" ∧ r'.place = .returned ∧ d.said "r" = [[1], [2]] ∧ r'.out = out

theorem returns_spec (es : List Event) (out : List Bytes) (h : returns es out = true) : ∃ c d r r',
    Goes "r" started c ∧ c.readers[0]? = some r ∧ next c (.resume 0) = some d ∧ d.readers[0]? = some r' ∧
      r.runId = "r" ∧ r'.place = .returned ∧ d.said "r" = [[1], [2]] ∧ r'.out = out := by
  obtain ⟨c, hc, h⟩ := (Option.any_eq_true _ _).1 h
  obtain ⟨r, hr, h⟩ := (Option.any_eq_true _ _).1 h
  obtain ⟨d, hd, h⟩ := (Option.any_eq_true _ _).1 h
  obtain ⟨r', hr', h⟩ := (Option.any_eq_true _ _).1 h
  exact ⟨c, d, r, r', Goes.init.play hc, hr, hd, hr', of_decide_eq_true h⟩

theorem followed_whole_caught_up : ∃ c d r r',
    Goes "r" started c ∧ c.readers[0]? = some r ∧ next c (.resume 0) = some d ∧ d.readers[0]? = some r' ∧
    r'.place = .returned ∧ d.said "r" = [[1], [2]] ∧ r'.out = [[1], [2]] ∧
    (r'.out = d.said "r" ↔ r'.overtaken = false) := by
  obtain ⟨c, d, r, r', hc, hr, hd, hr', hid, hret, hsaid, hout⟩ :=
    returns_spec watched [[1], [2]] (by decide +kernel)
  refine ⟨c, d, r, r', hc, hr, hd, hr', hret, hsaid, hout, ?_⟩
  exact followed_whole_iff (Reachable.init MAX_BYTES MAX_RUNS) rfl hc (Nat.zero_le _) hr hid hd hr' hret

/-- The second chunk is never yielded. -/
theorem second_chunk_lost : ∃ c d r r',
    Goes "r" started c ∧ c.readers[0]? = some r ∧ next c (.resume 0) = some d ∧ d.readers[0]? = some r' ∧
    r.runId = "r" ∧ r'.place = .returned ∧ d.said "r" = [[1], [2]] ∧ r'.out = [[1]] :=
  returns_spec lagging [[1]] (by decide +kernel)

end CodeZard.Followers
