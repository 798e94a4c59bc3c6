import CodeZard.Evictions
import CodeZard.Streamings
import CodeZard.Watchers

namespace CodeZard.Audiences

open Programs Interleaving RunLogs Runs StreamScans Values Orchestration Turns Endings Watchers Tables Followers Evictions Wakings
open Streamings (logged yielded)

/-- Those who follow the runs, and what the logs have been given. -/
structure Audience where
  readers : List Reader := []
  said : String → List Bytes := fun _ => []

def broadcast (w : World) (o : Audience) : Broadcast := ⟨w.log, o.readers, o.said⟩

def audience (b : Broadcast) : Audience := ⟨b.readers, b.said⟩

def voiced : Orchestration.Call → Option RunLogs.Event
  | .logStart runId => some (.start runId)
  | .logAppend runId chunk => some (.append runId chunk)
  | .logEnd runId => some (.end_ runId)
  | _ => none

def hear (w : World) (c : Orchestration.Call) (o : Audience) : Audience :=
  ((voiced c).bind (RunLogs.next (broadcast w o))).elim o audience

/-- A tab asks for what a run has said, or is given some more of it. -/
inductive Tab
  | events (runId : String)
  | resume (i : Nat)

def Tab.event : Tab → RunLogs.Event
  | .events runId => .follow runId
  | .resume i => .resume i

def move (w : World) (o : Audience) (t : Tab) : Option Audience := (RunLogs.next (broadcast w o) t.event).map audience

abbrev Attended (settings : Settings) (loads : Bytes → Except String Json) (w : World) (c : Desk) (o : Audience) : Prop :=
  Watched (body settings loads) World.step anyRequest anyStep hear move w {} c o

section Steps

variable {w w' : World} {o o' : Audience} {c : Orchestration.Call} {r : Reply} {a : Except Failure c.Answer}

theorem heard_step (h : w.step c r = some (a, w')) (o : Audience) :
    voiced c = none ∧ broadcast w' (hear w c o) = broadcast w o ∨
      ∃ ev, voiced c = some ev ∧ RunLogs.next (broadcast w o) ev = some (broadcast w' (hear w c o)) := by
  cases c with
  | logStart | logAppend | logEnd =>
      cases r <;> cases h
      exact .inr ⟨_, rfl, rfl⟩
  | get runId =>
      obtain ⟨expired, _, rfl⟩ := World.step_get h
      exact .inl ⟨rfl, rfl⟩
  | put run =>
      obtain ⟨expired, _, rfl⟩ := World.step_put h
      exact .inl ⟨rfl, rfl⟩
  | approve runId =>
      obtain ⟨expired, late, he⟩ := World.step_approve h
      rcases w.exchange_cases runId Run.approved expired late with ⟨f, hx⟩ | ⟨old, run, _, _, hx⟩ <;>
        rw [he] at hx <;> cases hx <;> exact .inl ⟨rfl, rfl⟩
  | generating runId =>
      obtain ⟨expired, late, he⟩ := World.step_generating h
      rcases w.exchange_cases runId Run.generating expired late with ⟨f, hx⟩ | ⟨old, run, _, _, hx⟩ <;>
        rw [he] at hx <;> cases hx <;> exact .inl ⟨rfl, rfl⟩
  | _ => cases r <;> cases h <;> exact .inl ⟨rfl, rfl⟩

theorem moved_step {t : Tab} (h : move w o t = some o') : RunLogs.next (broadcast w o) t.event = some (broadcast w o') := by
  obtain ⟨b, hn, rfl⟩ := Option.map_eq_some_iff.1 h
  rw [hn]
  cases t with
  | events runId =>
      cases hn
      rfl
  | resume i =>
      obtain ⟨r, _, hn⟩ := Option.bind_eq_some_iff.1 hn
      obtain ⟨r', _, rfl⟩ := Option.map_eq_some_iff.1 hn
      rfl

end Steps

/-- Whatever the requests and the tabs do, the log and its readers go through
steps of a broadcast. -/
def refines : Vigil World.step anyStep hear move fun (_ : World) (_ : List InTurn) => True where
  inv w _ o := Reachable (broadcast w o)
  arrive h := h
  heard h _ _ _ _ hs := by
    rcases heard_step hs _ with ⟨_, he⟩ | ⟨ev, _, hn⟩
    · exact he ▸ h
    · exact h.next hn
  leave h _ := h
  moved h hm := h.next (moved_step hm)

theorem reachable_of_attended {settings : Settings} {loads : Bytes → Except String Json} {w : World} {c : Desk} {o : Audience}
    {maxBytes maxRuns : Nat} (hw : w.log = { maxBytes := maxBytes, maxRuns := maxRuns })
    (h : Attended settings loads w c o) : Reachable (broadcast c.world o) := by
  refine refines.invariant (fun _ => trivial) ?_ h
  show Reachable ⟨w.log, [], fun _ => []⟩
  rw [hw]
  exact .init maxBytes maxRuns

/-- A request has started a log. -/
def opens (log : TurnLog) : Bool := log.any fun
  | ⟨.logStart _, _⟩ => true
  | _ => false

def begins (runId : String) (log : TurnLog) : Bool := log.any fun
  | ⟨.logStart id, _⟩ => id = runId
  | _ => false

def ends (runId : String) (log : TurnLog) : Bool := log.any fun
  | ⟨.logEnd id, _⟩ => id = runId
  | _ => false

/-- No log has to make room for another, that of the run is started once, and
all that is put into it is kept. -/
structure Roomy (maxBytes maxRuns : Nat) (runId : String) (logs : List TurnLog) : Prop where
  few : logs.countP opens ≤ maxRuns
  once : logs.countP (begins runId) ≤ 1
  small : ∀ log ∈ logs, begins runId log = true → (logged log).flatten.length ≤ maxBytes

/-- Nothing has been said of the run, and its readers know of nothing. -/
structure Unspoken (runId : String) (logs : List TurnLog) (b : Broadcast) : Prop where
  unbegun : ∀ log ∈ logs, begins runId log = false
  missing : b.log.find runId = none
  idle : ∀ r ∈ b.readers, r.runId = runId → r = { runId := runId } ∨ r.place = .returned ∧ r.out = []

/-- What one request logs is what the readers of the run see in its order, and
those who are done have seen all of it unless they were overtaken. -/
structure Speaks (runId : String) (b : Broadcast) (log : TurnLog) (e : Entry) : Prop where
  begun : begins runId log = true
  inv : Inv 0 runId b e
  said : b.said runId = logged log
  ended : e.ended = ends runId log
  done : ∀ r ∈ b.readers, r.runId = runId → r.place = .returned →
    r.out = [] ∨ e.ended = true ∧ r.out.Sublist (b.said runId) ∧ (r.out = b.said runId ↔ r.overtaken = false)

def Attentive (runId : String) (b : Broadcast) : Prop := Live b.log ∧ ∀ r ∈ b.readers, r.runId = runId → Tuned b.log r

structure Kept (maxBytes maxRuns : Nat) (runId : String) (logs : List TurnLog) (b : Broadcast) : Prop where
  bytes : b.log.maxBytes = maxBytes
  runs : b.log.maxRuns = maxRuns
  attentive : Attentive runId b
  room : b.log.entries.length ≤ logs.countP opens
  found : ∀ log ∈ logs, ∀ id, begins id log = true → b.log.has id = true
  told : Unspoken runId logs b ∨ ∃ log ∈ logs, ∃ e, Speaks runId b log e

section Logs

variable {logs : List TurnLog} {log : TurnLog} {i : Nat} {runId id : String} {c : Orchestration.Call}
  {a : Except Failure c.Answer} {maxBytes maxRuns : Nat}

theorem begins_iff : begins runId log = true ↔ ∃ a, ⟨.logStart runId, a⟩ ∈ log := by
  constructor
  · intro h
    obtain ⟨⟨c, a⟩, hmem, hc⟩ := List.any_eq_true.1 h
    cases c with
    | logStart id =>
        obtain rfl := of_decide_eq_true hc
        exact ⟨a, hmem⟩
    | _ => cases hc
  · rintro ⟨a, hmem⟩
    exact List.any_eq_true.2 ⟨_, hmem, decide_eq_true rfl⟩

theorem ends_iff : ends runId log = true ↔ ∃ a, ⟨.logEnd runId, a⟩ ∈ log := by
  constructor
  · intro h
    obtain ⟨⟨c, a⟩, hmem, hc⟩ := List.any_eq_true.1 h
    cases c with
    | logEnd id =>
        obtain rfl := of_decide_eq_true hc
        exact ⟨a, hmem⟩
    | _ => cases hc
  · rintro ⟨a, hmem⟩
    exact List.any_eq_true.2 ⟨_, hmem, decide_eq_true rfl⟩

theorem count_set {p : TurnLog → Bool} (hi : logs[i]? = some log) (log' : TurnLog) :
    (logs.set i log').countP p + (if p log then 1 else 0) = logs.countP p + (if p log' then 1 else 0) := by
  obtain ⟨hlt, hget⟩ := List.getElem?_eq_some_iff.1 hi
  rw [List.countP_set hlt, hget]
  by_cases hp : p log = true
  · have hpos : 0 < logs.countP p := List.countP_pos_iff.2 ⟨log, List.mem_of_getElem? hi, hp⟩
    simp only [hp, if_true]
    omega
  · simp only [if_neg hp]
    omega

theorem Roomy.before (h : Roomy maxBytes maxRuns runId (logs.set i (⟨c, a⟩ :: log))) (hi : logs[i]? = some log) :
    Roomy maxBytes maxRuns runId logs := by
  have hcount {p : TurnLog → Bool} (hp : p log = true → p (⟨c, a⟩ :: log) = true) :
      logs.countP p ≤ (logs.set i (⟨c, a⟩ :: log)).countP p := by
    have := count_set (p := p) hi (⟨c, a⟩ :: log)
    split at this
    · rename_i hlog
      rw [if_pos (hp hlog)] at this
      omega
    · omega
  have hany {f : ((c : Orchestration.Call) × Except Failure c.Answer) → Bool} (hlog : log.any f = true) :
      (⟨c, a⟩ :: log).any f = true := by
    rw [List.any_cons, hlog, Bool.or_true]
  refine ⟨(hcount hany).trans h.few, (hcount hany).trans h.once, fun log' hmem hb => ?_⟩
  rcases mem_set_or_eq hi hmem (⟨c, a⟩ :: log) with hmem | rfl
  · exact h.small log' hmem hb
  · refine le_trans ?_ (h.small _ (mem_set_self hi _) (hany hb))
    cases c with
    | logAppend id chunk =>
        cases a with
        | error f => exact le_rfl
        | ok _ =>
            show (logged log').flatten.length ≤ (logged log' ++ [chunk]).flatten.length
            rw [List.flatten_append, List.length_append]
            exact Nat.le_add_right _ _
    | _ => exact le_rfl

/-- A step that leaves the log of a run and its readers alone. -/
structure Apart (runId : String) (b b' : Broadcast) : Prop where
  find : b'.log.find runId = b.log.find runId
  said : b'.said runId = b.said runId
  readers : ∀ r ∈ b'.readers, r.runId = runId → r ∈ b.readers

theorem Unspoken.apart {b b' : Broadcast} (h : Unspoken runId logs b) (ha : Apart runId b b') {log' : TurnLog}
    (hb : begins runId log' = false) : Unspoken runId (logs.set i log') b' := by
  refine ⟨fun log hmem => ?_, ha.find.trans h.missing, fun r hr hid => h.idle r (ha.readers r hr hid) hid⟩
  rcases List.mem_or_eq_of_mem_set hmem with hmem | rfl
  · exact h.unbegun log hmem
  · exact hb

theorem Speaks.apart {b b' : Broadcast} {e : Entry} {ev : RunLogs.Event} (h : Speaks runId b log e) (ha : Apart runId b b')
    (hn : RunLogs.next b ev = some b') (hev : ∀ chunk, ev ≠ .append runId chunk) : Speaks runId b' log e := by
  have hintact : Intact runId b ev b' := by
    refine ⟨congrArg (Option.map Entry.chunks) ha.find, ?_⟩
    cases ev with
    | append other chunk =>
        rintro rfl
        exact absurd rfl (hev chunk)
    | _ => trivial
  obtain ⟨e', hinv⟩ := h.inv.step hn hintact
  obtain rfl : e' = e := Option.some.inj (hinv.found.symm.trans (ha.find.trans h.inv.found))
  refine ⟨h.begun, hinv, ha.said.trans h.said, h.ended, fun r hr hid hret => ?_⟩
  rw [ha.said]
  exact h.done r (ha.readers r hr hid) hid hret

theorem apart_start {b b' : Broadcast} (hroom : b.log.entries.length < b.log.maxRuns) (hid : id ≠ runId)
    (hn : RunLogs.next b (.start id) = some b') : Apart runId b b' := by
  cases hn
  refine ⟨?_, Function.update_of_ne hid.symm _ _, fun r hr _ => hr⟩
  have hput : (b.log.start id).find runId = b.log.evict.find runId := find_put_of_ne b.log.evict hid
  exact hput.trans (by rw [evict_of_room hroom])

theorem apart_append {b b' : Broadcast} {chunk : Bytes} (hhas : b.log.has id = true) (hid : id ≠ runId)
    (hn : RunLogs.next b (.append id chunk) = some b') : Apart runId b b' := by
  cases hn
  refine ⟨find_append_other hid hhas, Function.update_of_ne hid.symm _ _, fun r hr hrun => ?_⟩
  obtain ⟨r', hr', rfl⟩ := List.mem_map.1 hr
  rw [overtake_runId] at hrun
  rw [overtake_of_ne fun h => hid (h.symm.trans hrun)]
  exact hr'

theorem told_apart {b b' : Broadcast} {log' : TurnLog} {ev : RunLogs.Event}
    (h : Unspoken runId logs b ∨ ∃ log ∈ logs, ∃ e, Speaks runId b log e) (hi : logs[i]? = some log)
    (hb : begins runId log = false) (hb' : begins runId log' = false) (ha : Apart runId b b')
    (hn : RunLogs.next b ev = some b') (hev : ∀ chunk, ev ≠ .append runId chunk) :
    Unspoken runId (logs.set i log') b' ∨ ∃ log ∈ logs.set i log', ∃ e, Speaks runId b' log e := by
  apply h.imp (fun hu => hu.apart ha hb')
  rintro ⟨speaker, hmem, e, hs⟩
  rcases mem_set_or_eq hi hmem log' with hmem | rfl
  · exact ⟨speaker, hmem, e, hs.apart ha hn hev⟩
  · rw [hs.begun] at hb
    cases hb

theorem apart_end {b b' : Broadcast} (hid : id ≠ runId) (hn : RunLogs.next b (.end_ id) = some b') : Apart runId b b' := by
  cases hn
  exact ⟨(end_other hid).1, rfl, fun r hr _ => hr⟩

variable {b b' : Broadcast} {e : Entry} {chunk : Bytes}

theorem Unspoken.start {a : Except Failure Unit} (h : Unspoken runId logs b) (hsound : Sound b.log) (hlogged : logged log = [])
    (hends : ends runId log = false) (hn : RunLogs.next b (.start runId) = some b') :
    ∃ e, Speaks runId b' (⟨.logStart runId, a⟩ :: log) e := by
  obtain ⟨e, hinv⟩ := inv_start hsound hn
  cases hn
  have hfound : (b.log.start runId).find runId = some e := hinv.found
  have hended : e.ended = false := by
    rw [find_start] at hfound
    cases hfound
    rfl
  have hsaid : Function.update b.said runId [] runId = [] := Function.update_self ..
  refine ⟨e, begins_iff.2 ⟨a, List.mem_cons_self⟩, ⟨hinv.sound, hinv.found, hinv.size, hinv.content, ?_⟩,
    hsaid.trans hlogged.symm, hended.trans hends.symm, fun r hr hid hret => ?_⟩
  · intro i r _ hr hid
    rcases h.idle r (List.mem_of_getElem? hr) hid with rfl | ⟨hret, _⟩
    · exact created_sees _ _ _
    · unfold Sees
      rw [hret]
      trivial
  · rcases h.idle r hr hid with rfl | ⟨_, hout⟩
    · cases hret
    · exact .inl hout

theorem overtake_returned {r : Reader} (h : r.place = .returned) (id : String) : r.overtake id = r := by
  unfold Reader.overtake
  rw [h]

theorem Speaks.append (h : Speaks runId b log e) (hends : ends runId log = false)
    (hsmall : (logged log ++ [chunk]).flatten.length ≤ b.log.maxBytes)
    (hn : RunLogs.next b (.append runId chunk) = some b') :
    ∃ e', Speaks runId b' (⟨.logAppend runId chunk, .ok ()⟩ :: log) e' := by
  have hbytes : e.size + chunk.length ≤ b.log.maxBytes := by
    rw [List.flatten_append, List.length_append, List.flatten_singleton, ← h.said] at hsmall
    rw [h.inv.size]
    exact hsmall
  have happend := append_of_find h.inv.found hbytes
  have hsame : logOf b' runId = logOf b runId := by
    cases hn
    obtain ⟨e', he', hc, -, -⟩ := append_self h.inv.found hbytes
    show ((b.log.append runId chunk).find runId).map Entry.chunks = (b.log.find runId).map Entry.chunks
    rw [he', h.inv.found, Option.map_some, hc, Option.map_some]
  obtain ⟨e', hinv⟩ := h.inv.step hn ⟨hsame, fun _ => h.said ▸ hsmall⟩
  cases hn
  have hsaid : Function.update b.said runId ((if b.log.has runId then b.said runId else []) ++ [chunk]) runId =
      logged log ++ [chunk] := by
    rw [Function.update_self, RunLog.has, h.inv.found, Option.isSome_some, if_pos rfl, h.said]
  have hended : e'.ended = e.ended := by
    have hfound : (b.log.append runId chunk).find runId = some e' := hinv.found
    rw [happend, ← row_key h.inv.found] at hfound
    rw [find_wake] at hfound
    cases hfound
    rfl
  refine ⟨e', h.begun, hinv, hsaid, hended.trans h.ended, fun r hr hid hret => ?_⟩
  obtain ⟨r', hr', rfl⟩ := List.mem_map.1 hr
  rw [overtake_runId] at hid
  rw [Wakings.overtake_place] at hret
  rw [overtake_returned hret]
  rcases h.done r' hr' hid hret with hout | ⟨hend, _⟩
  · exact .inl hout
  · rw [h.ended, hends] at hend
    cases hend

theorem Speaks.end_ {a : Except Failure Unit} (h : Speaks runId b log e) (hends : ends runId log = false)
    (hn : RunLogs.next b (.end_ runId) = some b') :
    ∃ e', Speaks runId b' (⟨.logEnd runId, a⟩ :: log) e' := by
  have hsame : logOf b' runId = logOf b runId := by
    cases hn
    obtain ⟨e', he', hc, -, -⟩ := end_self h.inv.found
    show ((b.log.end_ runId).find runId).map Entry.chunks = (b.log.find runId).map Entry.chunks
    rw [he', h.inv.found, Option.map_some, hc, Option.map_some]
  obtain ⟨e', hinv⟩ := h.inv.step hn ⟨hsame, trivial⟩
  cases hn
  have hended : e'.ended = true := by
    have hfound : (b.log.end_ runId).find runId = some e' := hinv.found
    rw [end_of_find h.inv.found, ← row_key h.inv.found] at hfound
    have hwake := find_wake b.log { e with ended := true }
    rw [hwake] at hfound
    cases hfound
    rfl
  have hlater : ends runId (⟨.logEnd runId, a⟩ :: log) = true := ends_iff.2 ⟨a, List.mem_cons_self⟩
  refine ⟨e', h.begun, hinv, h.said, hended.trans hlater.symm, fun r hr hid hret => ?_⟩
  rcases h.done r hr hid hret with hout | ⟨hend, _⟩
  · exact .inl hout
  · rw [h.ended, hends] at hend
    cases hend

theorem Attentive.next {ev : RunLogs.Event} (h : Attentive runId b) (hfresh : ev = .start runId → b.log.find runId = none)
    (hn : RunLogs.next b ev = some b') : Attentive runId b' := by
  obtain ⟨hlive, htuned⟩ := h
  have hops : Live b'.log ∧ ∀ r ∈ b.readers, r.runId = runId → Tuned b'.log r := by
    cases ev with
    | start id =>
        cases hn
        refine ⟨hlive.ops (start_ops (fun _ => True) fun _ _ => trivial), fun r hr hid => ?_⟩
        have hwaits (e : Entry) (he : b.log.evict.find id = some e) : r.runId ≠ id := by
          rintro hown
          rw [hown] at hid
          have hnone := hfresh (hid ▸ rfl)
          rw [← hid, find_of_evict hlive.sound he] at hnone
          cases hnone
        exact ((htuned r hr hid).ops hlive (start_ops (fun _ => r.runId ≠ id) hwaits) fun hown _ hne => absurd hown hne).2
    | append id chunk =>
        cases hn
        refine ⟨hlive.ops (append_ops b.log id (fun _ => False) chunk), fun r hr hid => ?_⟩
        exact ((htuned r hr hid).ops hlive (append_ops b.log id (fun _ => False) chunk) (by simp)).2
    | end_ id =>
        cases hn
        refine ⟨hlive.ops (end_ops b.log id fun _ => False), fun r hr hid => ?_⟩
        exact ((htuned r hr hid).ops hlive (end_ops b.log id fun _ => False) (by simp)).2
    | follow id =>
        cases hn
        exact ⟨hlive, htuned⟩
    | resume i =>
        obtain ⟨r, _, hn⟩ := Option.bind_eq_some_iff.1 hn
        obtain ⟨r', _, rfl⟩ := Option.map_eq_some_iff.1 hn
        exact ⟨hlive, htuned⟩
  refine ⟨hops.1, fun r' hr' hid => ?_⟩
  obtain ⟨i, hi⟩ := List.mem_iff_getElem?.1 hr'
  rcases readers_step hn hi with ⟨r, hr, hm⟩ | ⟨other, rfl, rfl⟩
  · have hmem := List.mem_of_getElem? hr
    cases ev with
    | start _ | end_ _ | follow _ =>
        obtain rfl := hm
        exact hops.2 r' hmem hid
    | append other _ =>
        obtain rfl := hm
        rw [overtake_runId] at hid
        exact (hops.2 r hmem hid).overtake other
    | resume j =>
        simp only at hm
        split at hm
        · have hlog : b'.log = b.log := by
            obtain ⟨x, _, hn⟩ := Option.bind_eq_some_iff.1 hn
            obtain ⟨y, _, rfl⟩ := Option.map_eq_some_iff.1 hn
            rfl
          rw [hlog]
          exact (htuned r hmem ((resume_runId hm).symm.trans hid)).resume hlive hm
        · obtain rfl := hm
          exact hops.2 r' hmem hid
  · exact ⟨by simp, by simp⟩

theorem Kept.step {log' : TurnLog} (h : Kept maxBytes maxRuns runId logs b) (hi : logs[i]? = some log)
    (hopens : opens log' = opens log) (hbegins : ∀ id, begins id log' = begins id log)
    (hbytes : b'.log.maxBytes = b.log.maxBytes) (hruns : b'.log.maxRuns = b.log.maxRuns) (hattentive : Attentive runId b')
    (hids : runIds b'.log = runIds b.log)
    (htold : Unspoken runId (logs.set i log') b' ∨ ∃ log ∈ logs.set i log', ∃ e, Speaks runId b' log e) :
    Kept maxBytes maxRuns runId (logs.set i log') b' := by
  refine ⟨hbytes.trans h.bytes, hruns.trans h.runs, hattentive, ?_, fun l hmem id hb => ?_, htold⟩
  · have hcount := count_set (p := opens) hi log'
    have hlength : b'.log.entries.length = b.log.entries.length := by
      simpa only [runIds, List.length_map] using congrArg List.length hids
    have hroom := h.room
    rw [hopens] at hcount
    omega
  · rw [has_iff, hids, ← has_iff]
    rcases List.mem_or_eq_of_mem_set hmem with hmem | rfl
    · exact h.found l hmem id hb
    · exact h.found log (List.mem_of_getElem? hi) id (hbegins id ▸ hb)

theorem Kept.unvoiced (h : Kept maxBytes maxRuns runId logs b) (hi : logs[i]? = some log) (hc : voiced c = none) :
    Kept maxBytes maxRuns runId (logs.set i (⟨c, a⟩ :: log)) b := by
  have hbegins (id : String) : begins id (⟨c, a⟩ :: log) = begins id log := by cases c <;> cases hc <;> rfl
  have hends : ends runId (⟨c, a⟩ :: log) = ends runId log := by cases c <;> cases hc <;> rfl
  have hlogged : logged (⟨c, a⟩ :: log) = logged log := by cases c <;> cases hc <;> rfl
  refine h.step hi (by cases c <;> cases hc <;> rfl) hbegins rfl rfl h.attentive rfl (h.told.imp (fun hu => ?_) ?_)
  · exact hu.apart ⟨rfl, rfl, fun r hr _ => hr⟩ ((hbegins runId).trans (hu.unbegun log (List.mem_of_getElem? hi)))
  · rintro ⟨speaker, hmem, e, hs⟩
    rcases mem_set_or_eq hi hmem (⟨c, a⟩ :: log) with hmem | rfl
    · exact ⟨speaker, hmem, e, hs⟩
    · exact ⟨_, mem_set_self hi _, e, (hbegins runId).trans hs.begun, hs.inv, hs.said.trans hlogged.symm,
        hs.ended.trans hends.symm, hs.done⟩

theorem speaker_eq (h : logs.countP (begins runId) ≤ 1) (hi : logs[i]? = some log) (hb : begins runId log = true)
    {speaker : TurnLog} (hmem : speaker ∈ logs) (hs : begins runId speaker = true) : speaker = log :=
  (atMostOne_of_countP h).eq_of_mem hmem (List.mem_of_getElem? hi) hs hb

theorem ends_of_open (h : Streamings.Open id log) (runId : String) : ends runId log = false := by
  rw [← Bool.not_eq_true, ends_iff]
  rintro ⟨a, hmem⟩
  exact h.2 runId a hmem

theorem begins_of_open (h : Streamings.Open id log) : begins id log = true := begins_iff.2 ⟨_, h.1⟩

theorem begins_other (ht : Traced Streamings.guard log) (h : Streamings.Open id log) (hid : id ≠ runId) :
    begins runId log = false := by
  rw [← Bool.not_eq_true, begins_iff]
  rintro ⟨a, hmem⟩
  exact hid (Streamings.started_once ht h.1 hmem)

theorem Kept.told_own {log' : TurnLog} (h : Kept maxBytes maxRuns runId logs b) (hi : logs[i]? = some log)
    (hb : begins runId log = true) (honce : logs.countP (begins runId) ≤ 1)
    (hs : ∀ e, Speaks runId b log e → ∃ e', Speaks runId b' log' e') :
    Unspoken runId (logs.set i log') b' ∨ ∃ log ∈ logs.set i log', ∃ e, Speaks runId b' log e := by
  rcases h.told with hu | ⟨speaker, hmem, e, hspeaks⟩
  · rw [hu.unbegun log (List.mem_of_getElem? hi)] at hb
    cases hb
  · obtain rfl := speaker_eq honce hi hb hmem hspeaks.begun
    obtain ⟨e', hspeaks⟩ := hs e hspeaks
    exact .inr ⟨log', mem_set_self hi _, e', hspeaks⟩

theorem Kept.append (h : Kept maxBytes maxRuns runId logs b) (hi : logs[i]? = some log) (ht : Traced Streamings.guard log)
    (ho : Streamings.Open id log) (hroomy : Roomy maxBytes maxRuns runId (logs.set i (⟨.logAppend id chunk, .ok ()⟩ :: log)))
    (hn : RunLogs.next b (.append id chunk) = some b') :
    Kept maxBytes maxRuns runId (logs.set i (⟨.logAppend id chunk, .ok ()⟩ :: log)) b' := by
  have hhas : b.log.has id = true := h.found log (List.mem_of_getElem? hi) id (begins_of_open ho)
  have hids : runIds (b.log.append id chunk) = runIds b.log := by
    have hcalled := runIds_called b.log (.append id chunk)
    simp only [Evictions.opens, hhas, if_true, Option.elim_none] at hcalled
    exact hcalled
  have hlimits : (b.log.append id chunk).maxBytes = b.log.maxBytes ∧ (b.log.append id chunk).maxRuns = b.log.maxRuns := by
    obtain ⟨e, he⟩ := Option.isSome_iff_exists.1 hhas
    rw [Bookkeeping.append_found he]
    exact ⟨rfl, rfl⟩
  have hlog : b'.log = b.log.append id chunk := by
    cases hn
    rfl
  refine h.step hi rfl (fun _ => rfl) (hlog ▸ hlimits.1) (hlog ▸ hlimits.2) (h.attentive.next (by simp) hn) (hlog ▸ hids) ?_
  by_cases hid : id = runId
  · subst hid
    have hbegun := begins_of_open ho
    refine h.told_own hi hbegun (hroomy.before hi).once fun e hs => hs.append (ends_of_open ho id) ?_ hn
    rw [h.bytes]
    exact hroomy.small _ (mem_set_self hi _) hbegun
  · have hother := begins_other ht ho hid
    exact told_apart h.told hi hother hother (apart_append hhas hid hn) hn fun _ he => hid (RunLogs.Event.append.inj he).1

theorem Kept.end_ {a : Except Failure Unit} (h : Kept maxBytes maxRuns runId logs b) (hi : logs[i]? = some log)
    (ht : Traced Streamings.guard log) (ho : Streamings.Open id log)
    (hroomy : Roomy maxBytes maxRuns runId (logs.set i (⟨.logEnd id, a⟩ :: log)))
    (hn : RunLogs.next b (.end_ id) = some b') : Kept maxBytes maxRuns runId (logs.set i (⟨.logEnd id, a⟩ :: log)) b' := by
  have hids : runIds (b.log.end_ id) = runIds b.log := runIds_called b.log (.end_ id)
  have hlimits : (b.log.end_ id).maxBytes = b.log.maxBytes ∧ (b.log.end_ id).maxRuns = b.log.maxRuns := by
    unfold RunLog.end_
    split
    · exact ⟨rfl, rfl⟩
    · exact ⟨rfl, rfl⟩
  have hlog : b'.log = b.log.end_ id := by
    cases hn
    rfl
  refine h.step hi rfl (fun _ => rfl) (hlog ▸ hlimits.1) (hlog ▸ hlimits.2) (h.attentive.next (by simp) hn) (hlog ▸ hids) ?_
  by_cases hid : id = runId
  · subst hid
    exact h.told_own hi (begins_of_open ho) (hroomy.before hi).once fun e hs => hs.end_ (ends_of_open ho id) hn
  · have hother := begins_other ht ho hid
    exact told_apart h.told hi hother hother (apart_end hid hn) hn fun _ he => nomatch he

theorem Kept.start {a : Except Failure Unit} (h : Kept maxBytes maxRuns runId logs b) (hi : logs[i]? = some log)
    (hg : Streamings.guard log (.logStart id)) (hroomy : Roomy maxBytes maxRuns runId (logs.set i (⟨.logStart id, a⟩ :: log)))
    (hn : RunLogs.next b (.start id) = some b') : Kept maxBytes maxRuns runId (logs.set i (⟨.logStart id, a⟩ :: log)) b' := by
  obtain ⟨hnew, hopen, hlogged, -⟩ := hg
  have hunbegun (x : String) : begins x log = false := by
    rw [← Bool.not_eq_true, begins_iff]
    rintro ⟨a', hmem⟩
    exact hnew x a' hmem
  have hends : ends runId log = false := by
    rw [← Bool.not_eq_true, ends_iff]
    rintro ⟨a', hmem⟩
    exact hopen runId a' hmem
  have hcount : (logs.set i (⟨.logStart id, a⟩ :: log)).countP opens = logs.countP opens + 1 := by
    have hclosed : ¬ opens log = true := by
      intro hopens
      obtain ⟨⟨c, a'⟩, hmem, hc⟩ := List.any_eq_true.1 hopens
      cases c with
      | logStart x => exact hnew x a' hmem
      | _ => cases hc
    have hset := count_set (p := opens) hi (⟨.logStart id, a⟩ :: log)
    have hopened : opens (⟨.logStart id, a⟩ :: log) = true := rfl
    rw [if_neg hclosed, if_pos hopened] at hset
    exact hset
  have hroom : b.log.entries.length < b.log.maxRuns := by
    have hfew := hroomy.few
    have hheld := h.room
    rw [h.runs]
    omega
  have hlog : b'.log = b.log.start id := by
    cases hn
    rfl
  have hids : runIds (b.log.start id) = if b.log.has id then runIds b.log else runIds b.log ++ [id] := by
    rw [runIds_start, evict_of_room hroom]
  have hmaxBytes : (b.log.start id).maxBytes = b.log.maxBytes := maxBytes_evict b.log
  have hmaxRuns : (b.log.start id).maxRuns = b.log.maxRuns := Bookkeeping.evictFrom_maxRuns b.log b.log.entries
  have hspoken (hid : id = runId) : Unspoken runId logs b := by
    rcases h.told with hu | ⟨speaker, hmem, e, hs⟩
    · exact hu
    · have hset := count_set (p := begins runId) hi (⟨.logStart id, a⟩ :: log)
      have honce := hroomy.once
      have hpos : 0 < logs.countP (begins runId) := List.countP_pos_iff.2 ⟨speaker, hmem, hs.begun⟩
      have hfirst : begins runId (⟨.logStart id, a⟩ :: log) = true := begins_iff.2 ⟨a, hid ▸ List.mem_cons_self⟩
      rw [if_neg (Bool.not_eq_true _ ▸ hunbegun runId), if_pos hfirst] at hset
      omega
  have hfresh (he : RunLogs.Event.start id = .start runId) : b.log.find runId = none :=
    (hspoken (RunLogs.Event.start.inj he)).missing
  refine ⟨hlog ▸ hmaxBytes.trans h.bytes, hlog ▸ hmaxRuns.trans h.runs, h.attentive.next hfresh hn, ?_,
    fun l hmem x hb => ?_, ?_⟩
  · have hheld := h.room
    have hlength := congrArg List.length hids
    rw [hcount, hlog]
    split at hlength <;> simp only [runIds, List.length_map, List.length_append, List.length_singleton] at hlength <;> omega
  · have hkept (hhas : b.log.has x = true) : (b.log.start id).has x = true := by
      rw [has_iff] at hhas ⊢
      rw [hids]
      split
      · exact hhas
      · exact List.mem_append_left _ hhas
    rw [hlog]
    rcases List.mem_or_eq_of_mem_set hmem with hmem | rfl
    · exact hkept (h.found l hmem x hb)
    · obtain ⟨a', hmem⟩ := begins_iff.1 hb
      rcases List.mem_cons.1 hmem with he | hmem
      · cases he
        rw [RunLog.has, find_start]
        rfl
      · exact absurd hmem (hnew x a')
  · by_cases hid : id = runId
    · subst hid
      obtain ⟨e, hs⟩ := (hspoken rfl).start (a := a) h.attentive.1.sound hlogged hends hn
      exact .inr ⟨_, mem_set_self hi _, e, hs⟩
    · have hlater : begins runId (⟨.logStart id, a⟩ :: log) = false := by
        rw [← Bool.not_eq_true, begins_iff]
        rintro ⟨a', hmem⟩
        rcases List.mem_cons.1 hmem with he | hmem
        · cases he
          exact hid rfl
        · exact hnew runId a' hmem
      exact told_apart h.told hi (hunbegun runId) hlater (apart_start hroom hid hn) hn fun _ he => by cases he

theorem ended_of_resume {r r' : Reader} {l : RunLog} (hr : r.resume l = some r') (hret : r'.place = .returned)
    {e : Entry} (he : l.find r.runId = some e) : e.ended = true := by
  have htop {r : Reader} (hret : (r.top l).place = .returned) (he : l.find r.runId = some e) : e.ended = true := by
    unfold Reader.top at hret
    rw [he] at hret
    dsimp only at hret
    split at hret
    · cases hret
    · split at hret
      · assumption
      · cases hret
  unfold Reader.resume at hr
  split at hr
  · cases hr
    exact htop hret he
  · cases hr
    cases hret
  · cases hr
    exact htop hret he
  · split at hr
    · cases hr
      exact htop hret he
    · cases hr
  · cases hr

theorem reading_step {t : Tab} (hn : RunLogs.next b t.event = some b') :
    b'.log = b.log ∧ b'.said = b.said ∧ ∀ r' ∈ b'.readers, r' ∈ b.readers ∨ (∃ id, r' = { runId := id }) ∨
      ∃ r ∈ b.readers, r.resume b.log = some r' := by
  cases t with
  | events id =>
      cases hn
      refine ⟨rfl, rfl, fun r' hr' => ?_⟩
      rcases mem_concat hr' with hr' | rfl
      · exact .inl hr'
      · exact .inr (.inl ⟨id, rfl⟩)
  | resume i =>
      obtain ⟨r, hr, hn⟩ := Option.bind_eq_some_iff.1 hn
      obtain ⟨r₁, hr₁, rfl⟩ := Option.map_eq_some_iff.1 hn
      refine ⟨rfl, rfl, fun r' hr' => ?_⟩
      rcases List.mem_or_eq_of_mem_set hr' with hr' | rfl
      · exact .inl hr'
      · exact .inr (.inr ⟨r, List.mem_of_getElem? hr, hr₁⟩)

theorem Kept.moved {t : Tab} (h : Kept maxBytes maxRuns runId logs b) (hn : RunLogs.next b t.event = some b') :
    Kept maxBytes maxRuns runId logs b' := by
  obtain ⟨hlog, hsaid, hreaders⟩ := reading_step hn
  have hattentive : Attentive runId b' := h.attentive.next (fun he => by cases t <;> cases he) hn
  refine ⟨hlog ▸ h.bytes, hlog ▸ h.runs, hattentive, hlog ▸ h.room, hlog ▸ h.found, h.told.imp (fun hu => ?_) ?_⟩
  · refine ⟨hu.unbegun, hlog ▸ hu.missing, fun r' hr' hid => ?_⟩
    rcases hreaders r' hr' with hr' | ⟨id, rfl⟩ | ⟨r, hr, hres⟩
    · exact hu.idle r' hr' hid
    · cases hid
      exact .inl rfl
    · have hrun : r.runId = runId := (resume_runId hres).symm.trans hid
      rcases hu.idle r hr hrun with rfl | ⟨hret, _⟩
      · refine .inr ?_
        simp only [Reader.resume, Reader.top, hu.missing, Option.some.injEq] at hres
        subst hres
        exact ⟨rfl, rfl⟩
      · simp [Reader.resume, hret] at hres
  · rintro ⟨speaker, hmem, e, hs⟩
    have hintact : Intact runId b t.event b' := by
      refine ⟨by rw [logOf, logOf, hlog], ?_⟩
      cases t <;> trivial
    obtain ⟨e', hinv⟩ := hs.inv.step hn hintact
    obtain rfl : e' = e := Option.some.inj (hinv.found.symm.trans (hlog ▸ hs.inv.found))
    refine ⟨speaker, hmem, e', hs.begun, hinv, hsaid ▸ hs.said, hs.ended, fun r' hr' hid hret => ?_⟩
    rw [hsaid]
    rcases hreaders r' hr' with hr' | ⟨id, rfl⟩ | ⟨r, hr, hres⟩
    · exact hs.done r' hr' hid hret
    · cases hret
    · have hrun : r.runId = runId := (resume_runId hres).symm.trans hid
      have hfound : b.log.find r.runId = some e' := hrun ▸ hs.inv.found
      obtain ⟨j, hj⟩ := List.mem_iff_getElem?.1 hr
      have hsees := hs.inv.readers j r (Nat.zero_le _) hj hrun
      rw [← hs.inv.content] at hsees ⊢
      exact .inr ⟨ended_of_resume hres hret hfound, (hsees.resume hfound hres).2 hret⟩

theorem Roomy.arrived (h : Roomy maxBytes maxRuns runId (logs ++ [[]])) : Roomy maxBytes maxRuns runId logs := by
  have hcount {p : TurnLog → Bool} (hp : p [] = false) : (logs ++ [[]]).countP p = logs.countP p := by
    rw [List.countP_append, List.countP_singleton, hp]
    rfl
  exact ⟨hcount (p := opens) rfl ▸ h.few, hcount (p := begins runId) rfl ▸ h.once,
    fun log hmem => h.small log (List.mem_append_left _ hmem)⟩

theorem Kept.arrive (h : Kept maxBytes maxRuns runId logs b) : Kept maxBytes maxRuns runId (logs ++ [[]]) b := by
  refine ⟨h.bytes, h.runs, h.attentive, h.room.trans ?_, fun log hmem id hb => ?_, h.told.imp (fun hu => ?_) ?_⟩
  · rw [List.countP_append]
    exact Nat.le_add_right _ _
  · rcases mem_concat hmem with hmem | rfl
    · exact h.found log hmem id hb
    · cases hb
  · refine ⟨fun log hmem => ?_, hu.missing, hu.idle⟩
    rcases mem_concat hmem with hmem | rfl
    · exact hu.unbegun log hmem
    · rfl
  · rintro ⟨speaker, hmem, e, hs⟩
    exact ⟨speaker, List.mem_append_left _ hmem, e, hs⟩

end Logs

def vigil (maxBytes maxRuns : Nat) (runId : String) :
    Vigil World.step anyStep hear move fun (_ : World) (vs : List InTurn) => ∀ v ∈ vs, Traced Streamings.guard v.log where
  inv w vs o := Roomy maxBytes maxRuns runId (vs.map View.log) → Kept maxBytes maxRuns runId (vs.map View.log) (broadcast w o)
  arrive {q w vs o} h hroomy := by
    rw [List.map_append] at hroomy ⊢
    exact (h hroomy.arrived).arrive
  heard {w vs i q log c r a w' o} h hold hi hnew _ hs hroomy := by
    rw [List.map_set] at hroomy ⊢
    have hlog : (vs.map View.log)[i]? = some log := by rw [List.getElem?_map, hi, Option.map_some]
    have hkept := h (hroomy.before hlog)
    have htraced := hnew _ (mem_set_self hi _)
    rcases heard_step hs o with ⟨hc, hb⟩ | ⟨ev, hev, hn⟩
    · rw [hb]
      exact hkept.unvoiced hlog hc
    · cases c with
      | logStart id =>
          cases hev
          exact hkept.start hlog htraced.1 hroomy hn
      | logAppend id chunk =>
          cases hev
          have ha : Generations.answers [] (.logAppend id chunk) a := Generations.answers_step hs
          cases ha
          exact hkept.append hlog htraced.2 htraced.1.1 hroomy hn
      | logEnd id =>
          cases hev
          exact hkept.end_ hlog htraced.2 htraced.1 hroomy hn
      | _ => cases hev
  leave {w vs i q log x o} h hi := by
    have hsame : (vs.set i ⟨q, log, some x⟩).map View.log = vs.map View.log := by
      obtain ⟨hlt, hget⟩ := List.getElem?_eq_some_iff.1 hi
      have hlt' : i < (vs.map View.log).length := by rwa [List.length_map]
      have hlog : (vs.map View.log)[i] = log := by rw [List.getElem_map, hget]
      rw [List.map_set, ← hlog, List.set_getElem_self]
    rwa [hsame]
  moved h hm hroomy := (h hroomy).moved (moved_step hm)

theorem ordered_of_sees {r : Reader} {n : Nat} {L : List Bytes} (h : Sees n L r) (hret : r.place ≠ .returned) :
    r.out.Sublist L := by
  unfold Sees at h
  split at h
  · exact h.2.1.trans (List.take_sublist _ _)
  · exact h.2.1.trans (List.take_sublist _ _)
  · exact (List.sublist_append_left _ _).trans h.2.1
  · rename_i hplace
    exact absurd hplace hret

theorem begun_of_sees {r : Reader} {n : Nat} {L : List Bytes} (h : Sees n L r) (hlate : r.overtaken = false)
    (hret : r.place ≠ .returned) : r.out <+: L := by
  have hcaught (h : Caught L r) : r.out <+: L := by
    rw [h.2.2.2 hlate]
    exact List.take_prefix _ _
  unfold Sees at h
  split at h
  · exact hcaught h
  · exact hcaught h
  · rename_i rest _
    exact ⟨rest, h.2.2.2 hlate⟩
  · rename_i hplace
    exact absurd hplace hret

theorem kept_init {w : World} {maxBytes maxRuns : Nat} {runId : String}
    (hw : w.log = { maxBytes := maxBytes, maxRuns := maxRuns }) : Kept maxBytes maxRuns runId [] (broadcast w {}) where
  bytes := congrArg RunLog.maxBytes hw
  runs := congrArg RunLog.maxRuns hw
  attentive := by
    refine ⟨?_, by simp [broadcast]⟩
    rw [broadcast, hw]
    exact (armed_init maxBytes maxRuns).live
  room := (congrArg (List.length ∘ RunLog.entries) hw).le
  found := by simp
  told := .inl ⟨by simp, congrArg (fun l => RunLog.find l runId) hw, by simp [broadcast]⟩

theorem resumes_of_ended {r : Reader} {l : RunLog} (h : Tuned l r) (hend : ∀ e, l.find r.runId = some e → e.ended = true)
    (hret : r.place ≠ .returned) : (r.resume l).isSome := by
  unfold Reader.resume
  split
  · rfl
  · rfl
  · rfl
  · rename_i event hplace
    obtain ⟨-, hfired | ⟨e, he, -, hgoes⟩⟩ := h.waits event hplace
    · rw [if_pos hfired]
      rfl
    · rw [hend e he] at hgoes
      cases hgoes
  · rename_i hplace
    exact absurd hplace hret

instance (maxBytes maxRuns : Nat) (runId : String) (logs : List TurnLog) : Decidable (Roomy maxBytes maxRuns runId logs) :=
  decidable_of_iff (logs.countP opens ≤ maxRuns ∧ logs.countP (begins runId) ≤ 1 ∧
      ∀ log ∈ logs, begins runId log = true → (logged log).flatten.length ≤ maxBytes)
    ⟨fun ⟨hf, ho, hs⟩ => ⟨hf, ho, hs⟩, fun ⟨hf, ho, hs⟩ => ⟨hf, ho, hs⟩⟩

def followed : List (Interleaving.Event Request Reply ⊕ Tab) :=
  Generations.begun.map .inl ++ ([.inl (.step 2 (.streaming Streamings.spoken)), .inl (.step 2 .done),
    .inr (.events "r"), .inr (.resume 0), .inl (.step 2 .done), .inl (.step 2 .done), .inr (.resume 0),
    .inr (.resume 0), .inl (.step 2 .done), .inl (.step 2 .done), .inl (.step 2 .done), .inr (.resume 0),
    .inr (.resume 0), .inl (.step 2 .done), .inl (.step 2 .done), .inl (.step 2 .done), .inl (.step 2 .done),
    .inr (.resume 0)] : List (Interleaving.Event Request Reply ⊕ Tab))

end CodeZard.Audiences
