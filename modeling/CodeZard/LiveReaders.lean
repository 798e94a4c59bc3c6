import CodeZard.Wakings

namespace CodeZard.LiveReaders

open Bookkeeping Followers RunLogs Tables Traces Wakings

/-- What is kept of a log, and how far into it a reader is. -/
structure Window where
  kept : List Bytes
  cursor : Nat

def Window.push (maxBytes : Nat) (w : Window) (chunk : Bytes) : List Bytes × Window :=
  let kept := (RunLog.trim maxBytes (w.kept.flatten.length + chunk.length) (w.kept ++ [chunk])).2
  (kept.drop w.cursor, ⟨kept, max w.cursor kept.length⟩)

def Window.feed (maxBytes : Nat) (w : Window) : List Bytes → List Bytes × Window
  | [] => ([], w)
  | chunk :: chunks =>
      let r := w.push maxBytes chunk
      let t := r.2.feed maxBytes chunks
      (r.1 ++ t.1, t.2)

/-- There is no chunk to drop. -/
def Fits (maxBytes : Nat) (chunks : List Bytes) : Prop := chunks.length ≤ 1 ∨ chunks.flatten.length ≤ maxBytes

instance (maxBytes : Nat) (chunks : List Bytes) : Decidable (Fits maxBytes chunks) := inferInstanceAs (Decidable (_ ∨ _))

section Windows

variable {maxBytes size : Nat} {w : Window} {kept chunks : List Bytes} {chunk : Bytes}

theorem trim_fits (maxBytes : Nat) (hsize : size = kept.flatten.length) :
    Fits maxBytes kept ∧ (RunLog.trim maxBytes size kept).2 = kept ∨
      ¬ Fits maxBytes kept ∧ (RunLog.trim maxBytes size kept).2.length < kept.length := by
  induction kept generalizing size with
  | nil => exact .inl ⟨.inl (Nat.zero_le _), rfl⟩
  | cons c kept ih =>
      cases kept with
      | nil => exact .inl ⟨.inl (Nat.le_refl _), rfl⟩
      | cons d kept =>
          rw [RunLog.trim]
          split
          · rename_i hover
            refine .inr ⟨?_, ?_⟩
            · rintro (hone | hsmall)
              · simp at hone
              · omega
            · have hrest : size - c.length = (d :: kept).flatten.length := by
                rw [hsize, List.flatten_cons, List.length_append, Nat.add_sub_cancel_left]
              rcases ih hrest with ⟨-, heq⟩ | ⟨-, hless⟩
              · rw [heq]
                exact Nat.lt_succ_self _
              · exact Nat.lt_succ_of_lt hless
          · exact .inl ⟨.inr (by omega), rfl⟩

theorem length_flatten_concat (kept : List Bytes) (chunk : Bytes) :
    (kept ++ [chunk]).flatten.length = kept.flatten.length + chunk.length := by
  rw [List.flatten_append, List.length_append, List.flatten_singleton]

theorem push_cases (maxBytes : Nat) (kept : List Bytes) (chunk : Bytes) :
    Fits maxBytes (kept ++ [chunk]) ∧
        Window.push maxBytes ⟨kept, kept.length⟩ chunk = ([chunk], ⟨kept ++ [chunk], (kept ++ [chunk]).length⟩) ∨
      ¬ Fits maxBytes (kept ++ [chunk]) ∧ (Window.push maxBytes ⟨kept, kept.length⟩ chunk).1 = [] := by
  rcases trim_fits maxBytes (length_flatten_concat kept chunk).symm with ⟨hfits, heq⟩ | ⟨hover, hless⟩
  · refine .inl ⟨hfits, ?_⟩
    rw [Window.push]
    simp only [heq, List.drop_left, List.length_append, List.length_singleton]
    rw [max_eq_right (Nat.le_succ _)]
  · refine .inr ⟨hover, ?_⟩
    rw [List.length_append, List.length_singleton] at hless
    exact List.drop_eq_nil_iff.2 (Nat.le_of_lt_succ hless)

theorem feed_length (maxBytes : Nat) (h : w.kept.length ≤ w.cursor) (chunks : List Bytes) :
    (w.feed maxBytes chunks).1.length ≤ chunks.length := by
  induction chunks generalizing w with
  | nil => exact Nat.le_refl _
  | cons chunk chunks ih =>
      have hone : (w.push maxBytes chunk).1.length ≤ 1 := by
        have hlength : (RunLog.trim maxBytes (w.kept.flatten.length + chunk.length) (w.kept ++ [chunk])).2.length ≤
            (w.kept ++ [chunk]).length := by
          rcases trim_fits maxBytes (length_flatten_concat w.kept chunk).symm with ⟨_, heq⟩ | ⟨_, hless⟩
          · rw [heq]
          · exact hless.le
        rw [List.length_append, List.length_singleton] at hlength
        rw [Window.push, List.length_drop]
        omega
      have hrest := ih (w := (w.push maxBytes chunk).2) (le_max_right _ _)
      rw [Window.feed, List.length_append, List.length_cons]
      omega

theorem feed_eq_iff (hkept : Fits maxBytes kept) (chunks : List Bytes) :
    (Window.feed maxBytes ⟨kept, kept.length⟩ chunks).1 = chunks ↔ Fits maxBytes (kept ++ chunks) := by
  induction chunks generalizing kept with
  | nil =>
      rw [List.append_nil]
      exact iff_of_true rfl hkept
  | cons chunk chunks ih =>
      have hsplit : kept ++ chunk :: chunks = (kept ++ [chunk]) ++ chunks := by simp
      rw [Window.feed]
      rcases push_cases maxBytes kept chunk with ⟨hfits, hpush⟩ | ⟨hover, hpush⟩
      · rw [hpush, hsplit, ← ih hfits]
        simp
      · refine iff_of_false ?_ ?_
        · intro h
          have hlength := congrArg List.length h
          have hrest := feed_length maxBytes (w := (Window.push maxBytes ⟨kept, kept.length⟩ chunk).2)
            (le_max_right _ _) chunks
          rw [List.length_append, hpush, List.length_nil, List.length_cons] at hlength
          omega
        · rw [hsplit]
          rintro (hone | hsmall)
          · apply hover
            left
            rw [List.length_append] at hone
            omega
          · apply hover
            right
            rw [List.flatten_append, List.length_append] at hsmall
            omega

theorem feed_concat (maxBytes : Nat) (w : Window) (chunks : List Bytes) (chunk : Bytes) :
    w.feed maxBytes (chunks ++ [chunk]) =
      ((w.feed maxBytes chunks).1 ++ ((w.feed maxBytes chunks).2.push maxBytes chunk).1,
        ((w.feed maxBytes chunks).2.push maxBytes chunk).2) := by
  induction chunks generalizing w with
  | nil => simp [Window.feed]
  | cons c chunks ih => simp [Window.feed, ih, List.append_assoc]

end Windows

def Patient (l : RunLog) (r : Reader) : Prop :=
  ∀ event, r.place = .waiting event → event < l.objects ∧
    ∀ e, l.find r.runId = some e → e.woken = event → e.ended = false

structure Steady (b : Broadcast) : Prop where
  live : Live b.log
  weighed : Weighed b.log b.said
  patient : ∀ (i : Nat) r, b.readers[i]? = some r → Patient b.log r

section Reached

variable {l l' : RunLog} {r r' : Reader} {b d : Broadcast} {ev : Event} {runId : String} {free : Nat → Prop}

theorem Patient.op (h : Patient l r) (hl : Live l) (hop : Op runId free l l') : Patient l' r := by
  intro event hp
  obtain ⟨hmade, hgoes⟩ := h event hp
  cases hop with
  | evict =>
      rw [objects_evict]
      exact ⟨hmade, fun e he => hgoes e (find_of_evict hl.sound he)⟩
  | open_ _ =>
      refine ⟨Nat.lt_succ_of_lt (Nat.lt_succ_of_lt hmade), fun e he hw => ?_⟩
      rcases find_opened_cases he with ⟨-, rfl⟩ | ⟨-, he⟩
      · rfl
      · exact hgoes e he hw
  | fill e he chunks => exact ⟨hmade, hgoes⟩
  | wake e e' he hid _ _ _ =>
      refine ⟨Nat.lt_succ_of_lt hmade, fun x hx hw => ?_⟩
      rcases find_wake_cases (hid.trans (row_key he)) hx with ⟨-, rfl⟩ | ⟨-, hx⟩
      · exact absurd hw.symm (Nat.ne_of_lt hmade)
      · exact hgoes x hx hw

theorem Patient.top (hl : Live l) (r : Reader) : Patient l (r.top l) := by
  unfold Reader.top
  cases he : l.find r.runId with
  | none => simp [Patient]
  | some e =>
      dsimp only
      split
      · simp [Patient]
      · split
        · simp [Patient]
        · rename_i hended
          rintro event hp
          cases hp
          refine ⟨hl.made _ e he, fun x hx _ => ?_⟩
          rw [show l.find r.runId = some x from hx] at he
          cases he
          exact eq_false_of_ne_true hended

theorem Patient.resume (hl : Live l) (hr : r.resume l = some r') : Patient l r' := by
  unfold Reader.resume at hr
  split at hr
  · cases hr
    exact .top hl r
  · cases hr
    simp [Patient]
  · cases hr
    exact .top hl _
  · split at hr
    · cases hr
      exact .top hl r
    · cases hr
  · cases hr

theorem log_ops (hn : next b ev = some d) : d.log = b.log ∨ ∃ runId free, Ops runId free b.log d.log := by
  cases ev with
  | start runId =>
      cases hn
      exact .inr ⟨runId, fun _ => True, start_ops _ (by simp)⟩
  | append runId chunk =>
      cases hn
      exact .inr ⟨runId, fun _ => True, append_ops b.log runId _ chunk⟩
  | end_ runId =>
      cases hn
      exact .inr ⟨runId, fun _ => True, end_ops b.log runId _⟩
  | follow runId =>
      cases hn
      exact .inl rfl
  | resume i =>
      obtain ⟨r, _, hn⟩ := Option.bind_eq_some_iff.1 hn
      obtain ⟨r', _, rfl⟩ := Option.map_eq_some_iff.1 hn
      exact .inl rfl

theorem weighed_next (h : Weighed b.log b.said) (hn : next b ev = some d) : Weighed d.log d.said := by
  cases ev with
  | start runId => cases hn; exact h.start runId
  | append runId chunk => cases hn; exact h.append runId chunk
  | end_ runId => cases hn; exact h.end_ runId
  | follow runId => cases hn; exact h
  | resume i =>
      obtain ⟨r, _, hn⟩ := Option.bind_eq_some_iff.1 hn
      obtain ⟨r', _, rfl⟩ := Option.map_eq_some_iff.1 hn
      exact h

theorem Steady.next (h : Steady b) (hn : next b ev = some d) : Steady d := by
  have hops : Live d.log ∧ ∀ r, Patient b.log r → Patient d.log r := by
    rcases log_ops hn with hlog | ⟨runId, free, hops⟩
    · rw [hlog]
      exact ⟨h.live, fun r hr => hr⟩
    · generalize d.log = l' at hops
      induction hops with
      | refl => exact ⟨h.live, fun r hr => hr⟩
      | tail _ hop ih => exact ⟨ih.1.op hop, fun r hr => (ih.2 r hr).op ih.1 hop⟩
  refine ⟨hops.1, weighed_next h.weighed hn, fun i r' hr' => ?_⟩
  rcases readers_step hn hr' with ⟨r, hr, hm⟩ | ⟨other, rfl, rfl⟩
  · have hp := hops.2 r (h.patient i r hr)
    cases ev with
    | start _ | end_ _ | follow _ =>
        obtain rfl := hm
        exact hp
    | append other _ =>
        obtain rfl := hm
        intro event hplace
        rw [overtake_runId]
        exact hp event (overtake_place r other ▸ hplace)
    | resume j =>
        simp only at hm
        split at hm
        · exact hops.2 r' (.resume h.live hm)
        · obtain rfl := hm
          exact hp
  · simp [Patient]

theorem steady_of_reachable (h : Reachable b) : Steady b := by
  induction h with
  | init maxBytes maxRuns => exact ⟨(armed_init maxBytes maxRuns).live, weighed_init maxBytes maxRuns _, by simp⟩
  | next _ hn ih => exact ih.next hn

end Reached

/-- The reader has yielded all that is kept, and waits for more. -/
structure CaughtUp (b : Broadcast) (i : Nat) (runId : String) (r : Reader) (e : Entry) : Prop where
  reader : b.readers[i]? = some r
  found : b.log.find runId = some e
  own : r.runId = runId
  waits : r.place = .waiting e.woken
  cursor : r.cursor = (b.log.lists e.chunks).length

/-- The reader cannot run on. -/
def Idle (b : Broadcast) (i : Nat) : Prop :=
  ∃ r event, b.readers[i]? = some r ∧ r.place = .waiting event ∧ b.log.fired event = false

def Reads : Event → Prop
  | .follow _ | .resume _ => True
  | _ => False

/-- Chunks are appended to one run, each when a reader has run until it waits;
in between anybody reads. -/
inductive Watches (runId : String) (i : Nat) (b : Broadcast) : List Bytes → Broadcast → Prop
  | init : Watches runId i b [] b
  | append {chunks : List Bytes} {chunk : Bytes} {c d : Broadcast} (h : Watches runId i b chunks c) (hidle : Idle c i)
      (hn : next c (.append runId chunk) = some d) : Watches runId i b (chunks ++ [chunk]) d
  | read {chunks : List Bytes} {c d : Broadcast} {e : Event} (h : Watches runId i b chunks c) (hr : Reads e)
      (hn : next c e = some d) : Watches runId i b chunks d

def Owed (given : List Bytes) (w : Window) (l : RunLog) (e : Entry) (r : Reader) : Prop :=
  match r.place with
  | .waiting event => r.out ++ w.kept.drop r.cursor = given ∧ max r.cursor w.kept.length = w.cursor ∧
      (l.fired event = true ∨ event = e.woken ∧ w.kept.length ≤ r.cursor)
  | .yielding chunks rest => chunks = e.chunks ∧ r.out ++ rest = given ∧ w.cursor = w.kept.length
  | _ => False

/-- The log of the run goes on as the window does. -/
structure Follows (maxBytes : Nat) (runId : String) (i : Nat) (given : List Bytes) (w : Window) (b : Broadcast)
    (e : Entry) (r : Reader) : Prop where
  bound : b.log.maxBytes = maxBytes
  found : b.log.find runId = some e
  goes : e.ended = false
  made : e.woken < b.log.objects
  content : b.log.lists e.chunks = w.kept
  size : e.size = w.kept.flatten.length
  reader : b.readers[i]? = some r
  own : r.runId = runId
  owed : Owed given w b.log e r

section Watching

variable {b c d : Broadcast} {ev : Event} {i maxBytes : Nat} {runId : String} {r r' : Reader} {e : Entry} {w : Window}
  {given : List Bytes} {chunk : Bytes} {l : RunLog}

theorem Owed.top (he : l.find r.runId = some e) (hgoes : e.ended = false) (hcontent : l.lists e.chunks = w.kept)
    (hout : r.out ++ w.kept.drop r.cursor = given) (hcursor : max r.cursor w.kept.length = w.cursor) :
    Owed given w l e (r.top l) := by
  unfold Reader.top
  simp only [he, hcontent]
  cases hdrop : w.kept.drop r.cursor with
  | cons chunk rest =>
      have hlength := congrArg List.length hdrop
      rw [List.length_drop, List.length_cons] at hlength
      refine ⟨rfl, ?_, by omega⟩
      rw [← hout, hdrop, List.append_assoc]
      rfl
  | nil =>
      simp only [hgoes, Bool.false_eq_true, if_false]
      exact ⟨hout, hcursor, .inr ⟨rfl, List.drop_eq_nil_iff.1 hdrop⟩⟩

theorem Follows.resume (h : Follows maxBytes runId i given w b e r) (hr : r.resume b.log = some r') :
    Owed given w b.log e r' := by
  have howed := h.owed
  have he : b.log.find r.runId = some e := h.own.symm ▸ h.found
  unfold Reader.resume at hr
  unfold Owed at howed
  cases hp : r.place with
  | created | returned =>
      simp only [hp] at howed
  | waiting event =>
      simp only [hp] at howed hr
      split at hr
      · cases hr
        exact .top he h.goes h.content howed.1 howed.2.1
      · cases hr
  | yielding chunks rest =>
      simp only [hp] at howed hr
      obtain ⟨rfl, hout, hcursor⟩ := howed
      cases rest with
      | cons chunk rest =>
          cases hr
          exact ⟨rfl, by simpa using hout, hcursor⟩
      | nil =>
          cases hr
          rw [List.append_nil] at hout
          refine Owed.top (r := { r with cursor := _ }) he h.goes h.content ?_ ?_
          · rw [h.content, List.drop_length, List.append_nil]
            exact hout
          · rw [h.content, max_self, hcursor]

theorem Follows.read (h : Follows maxBytes runId i given w b e r) (hreads : Reads ev) (hn : next b ev = some d) :
    ∃ r', Follows maxBytes runId i given w d e r' := by
  obtain ⟨r', hr', hm⟩ := reader_stays hn h.reader
  cases ev with
  | start _ | append _ _ | end_ _ => exact hreads.elim
  | follow other =>
      cases hn
      obtain rfl := hm
      exact ⟨r', { h with reader := hr' }⟩
  | resume j =>
      have hlog : d.log = b.log := by
        obtain ⟨x, _, hn⟩ := Option.bind_eq_some_iff.1 hn
        obtain ⟨y, _, rfl⟩ := Option.map_eq_some_iff.1 hn
        rfl
      refine ⟨r', ?_⟩
      dsimp only at hm
      by_cases hj : j = i
      · rw [if_pos hj] at hm
        exact ⟨hlog ▸ h.bound, hlog ▸ h.found, h.goes, hlog ▸ h.made, hlog ▸ h.content, h.size, hr',
          (resume_runId hm).trans h.own, hlog ▸ h.resume hm⟩
      · rw [if_neg hj] at hm
        obtain rfl := hm
        exact ⟨hlog ▸ h.bound, hlog ▸ h.found, h.goes, hlog ▸ h.made, hlog ▸ h.content, h.size, hr', h.own,
          hlog ▸ h.owed⟩

theorem Follows.idle (h : Follows maxBytes runId i given w b e r) (hidle : Idle b i) :
    r.place = .waiting e.woken ∧ r.out = given ∧ r.cursor = w.cursor := by
  obtain ⟨x, event, hx, hp, hset⟩ := hidle
  rw [h.reader] at hx
  cases hx
  have howed := h.owed
  unfold Owed at howed
  simp only [hp, hset, Bool.false_eq_true, false_or] at howed
  obtain ⟨hout, hcursor, rfl, hall⟩ := howed
  rw [List.drop_eq_nil_iff.2 hall, List.append_nil] at hout
  exact ⟨hp, hout, by omega⟩

theorem Follows.append (h : Follows maxBytes runId i given w b e r) (hidle : Idle b i)
    (hn : next b (.append runId chunk) = some d) :
    ∃ e' r', Follows maxBytes runId i (given ++ (w.push maxBytes chunk).1) (w.push maxBytes chunk).2 d e' r' := by
  obtain ⟨hp, hout, hcursor⟩ := h.idle hidle
  obtain ⟨r', hr', rfl⟩ := reader_stays hn h.reader
  have hid : e.runId = runId := row_key h.found
  have hkept : (trimmed b.log e chunk).2 = (w.push maxBytes chunk).2.kept := by
    rw [trimmed, h.bound, h.content, h.size]
    rfl
  have hsize : (trimmed b.log e chunk).1 = (trimmed b.log e chunk).2.flatten.length := by
    have hwhole : e.size + chunk.length = (b.log.lists e.chunks ++ [chunk]).flatten.length := by
      rw [h.content, h.size, length_flatten_concat]
    exact (trim_fair hwhole (List.suffix_refl _) rfl (by simp)).exact
  have hsame : r.overtake runId = r := by
    unfold Reader.overtake
    rw [hp]
  have hlog : d.log = { b.log with lists := Function.update b.log.lists e.chunks (trimmed b.log e chunk).2 }.wake
      { e with size := (trimmed b.log e chunk).1 } := by
    cases hn
    exact append_found h.found chunk
  have hfind : d.log.find runId = some { e with size := (trimmed b.log e chunk).1, woken := b.log.objects } := by
    rw [hlog, ← hid]
    exact find_wake _ _
  refine ⟨_, r.overtake runId, ?_, hfind, h.goes, ?_, ?_, ?_, hr', ?_, ?_⟩
  · rw [hlog]
    exact h.bound
  · rw [hlog]
    exact Nat.lt_succ_self _
  · rw [hlog, ← hkept]
    exact Function.update_self ..
  · rw [← hkept]
    exact hsize
  · rw [hsame]
    exact h.own
  · rw [hsame]
    unfold Owed
    simp only [hp]
    refine ⟨?_, ?_, .inl ?_⟩
    · rw [hout, hcursor]
      rfl
    · rw [hcursor]
      rfl
    · rw [hlog]
      exact (fired_wake (l := { b.log with lists := _ }) h.made _).2 (.inl rfl)

theorem Watches.follows {w₀ : Window} {out : List Bytes} {chunks : List Bytes} (h : Watches runId i b chunks c)
    (h₀ : Follows maxBytes runId i out w₀ b e r) :
    ∃ e' r', Follows maxBytes runId i (out ++ (w₀.feed maxBytes chunks).1) (w₀.feed maxBytes chunks).2 c e' r' := by
  induction h with
  | init =>
      refine ⟨e, r, ?_⟩
      rw [Window.feed, List.append_nil]
      exact h₀
  | append _ hidle hn ih =>
      obtain ⟨e', r', ih⟩ := ih
      rw [feed_concat, ← List.append_assoc]
      exact ih.append hidle hn
  | read _ hreads hn ih =>
      obtain ⟨e', r', ih⟩ := ih
      exact ⟨e', ih.read hreads hn⟩

theorem CaughtUp.follows (h : CaughtUp b i runId r e) (hb : Steady b) :
    Follows b.log.maxBytes runId i r.out ⟨b.log.lists e.chunks, (b.log.lists e.chunks).length⟩ b e r ∧
      Fits b.log.maxBytes (b.log.lists e.chunks) := by
  have hfair := hb.weighed.fair runId e h.found
  have hgoes : e.ended = false := (hb.patient i r h.reader e.woken h.waits).2 e (h.own.symm ▸ h.found) rfl
  constructor
  · refine ⟨rfl, h.found, hgoes, hb.live.made runId e h.found, rfl, hfair.exact, h.reader, h.own, ?_⟩
    unfold Owed
    simp only [h.waits, h.cursor]
    refine ⟨?_, max_self _, .inr ⟨trivial, Nat.le_refl _⟩⟩
    rw [List.drop_length, List.append_nil]
  · rcases hfair.bounded with hsmall | hone
    · right
      rw [← hfair.exact]
      exact hsmall
    · exact .inl hone.le

end Watching

/-- A reader that waits at the end of the log is given everything that is
appended from then on exactly when nothing has to be dropped. -/
theorem given_all_iff {b d : Broadcast} {i : Nat} {runId : String} {r : Reader} {e : Entry} {chunks : List Bytes}
    (hb : Reachable b) (hr : CaughtUp b i runId r e) (hd : Watches runId i b chunks d) (hidle : Idle d i) :
    ∃ r', d.readers[i]? = some r' ∧
      (r'.out = r.out ++ chunks ↔ Fits b.log.maxBytes (b.log.lists e.chunks ++ chunks)) := by
  obtain ⟨h₀, hfits⟩ := hr.follows (steady_of_reachable hb)
  obtain ⟨e', r', h⟩ := hd.follows h₀
  obtain ⟨_, hout, _⟩ := h.idle hidle
  refine ⟨r', h.reader, ?_⟩
  rw [hout, List.append_cancel_left_eq]
  exact feed_eq_iff hfits chunks

def idle (b : Broadcast) (i : Nat) : Bool :=
  b.readers[i]?.any fun r => match r.place with
    | .waiting event => !b.log.fired event
    | _ => false

theorem idle_of_eq_true {b : Broadcast} {i : Nat} (h : idle b i = true) : Idle b i := by
  obtain ⟨r, hr, h⟩ := (Option.any_eq_true _ _).1 h
  split at h
  · exact ⟨r, _, hr, ‹_›, by simpa using h⟩
  · cases h

/-- What some events lead to, if the chunks among them come while the reader
waits, and those chunks. -/
def watch (runId : String) (i : Nat) : List Bytes → Broadcast → List Event → Option (List Bytes × Broadcast)
  | chunks, b, [] => some (chunks, b)
  | chunks, b, .append other chunk :: es =>
      if other = runId ∧ idle b i = true then (next b (.append other chunk)).bind fun d => watch runId i (chunks ++ [chunk]) d es
      else none
  | chunks, b, .follow other :: es => (next b (.follow other)).bind fun d => watch runId i chunks d es
  | chunks, b, .resume j :: es => (next b (.resume j)).bind fun d => watch runId i chunks d es
  | _, _, _ :: _ => none

theorem watches_of_watch {runId : String} {i : Nat} {b c d : Broadcast} {chunks chunks' : List Bytes} {es : List Event}
    (h : Watches runId i b chunks c) (hw : watch runId i chunks c es = some (chunks', d)) :
    Watches runId i b chunks' d := by
  induction es generalizing chunks c with
  | nil =>
      cases hw
      exact h
  | cons e es ih =>
      cases e with
      | start _ | end_ _ => cases hw
      | append other chunk =>
          rw [watch] at hw
          split at hw
          · rename_i hidle
            obtain ⟨c', hn, hw⟩ := Option.bind_eq_some_iff.1 hw
            obtain ⟨rfl, hidle⟩ := hidle
            exact ih (h.append (idle_of_eq_true hidle) hn) hw
          · cases hw
      | follow other =>
          obtain ⟨c', hn, hw⟩ := Option.bind_eq_some_iff.1 hw
          exact ih (h.read (e := .follow other) trivial hn) hw
      | resume j =>
          obtain ⟨c', hn, hw⟩ := Option.bind_eq_some_iff.1 hw
          exact ih (h.read (e := .resume j) trivial hn) hw

theorem reachable_of_run {b c : Broadcast} {es : List Event} (hb : Reachable b) (h : run next b es = some c) :
    Reachable c :=
  run_invariant (fun _ _ _ hs hn => .next hs hn) hb h

def begun (maxBytes : Nat) : Option Broadcast :=
  run next { log := { maxBytes := maxBytes, maxRuns := MAX_RUNS } } [.append "r" [1], .follow "r", .resume 0, .resume 0]

/-- Two more chunks among some events, after which the reader has yielded `out` in all. -/
def gives (maxBytes : Nat) (es : List Event) (out : List Bytes) : Bool :=
  (begun maxBytes).any fun b => b.readers[0]?.any fun r => (b.log.find "r").any fun e => (watch "r" 0 [] b es).any fun x =>
    r.runId = "r" ∧ r.place = .waiting e.woken ∧ r.out = [[1]] ∧ b.log.lists e.chunks = [[1]] ∧ r.cursor = 1 ∧
      b.log.maxBytes = maxBytes ∧ x.1 = [[2], [3]] ∧ idle x.2 0 = true ∧ x.2.readers[0]?.map Reader.out = some out

theorem gives_spec {maxBytes : Nat} {es : List Event} {out : List Bytes} (h : gives maxBytes es out = true) :
    ∃ b d r e, Reachable b ∧ CaughtUp b 0 "r" r e ∧ Watches "r" 0 b [[2], [3]] d ∧ Idle d 0 ∧ r.out = [[1]] ∧
      b.log.maxBytes = maxBytes ∧ b.log.lists e.chunks = [[1]] ∧ d.readers[0]?.map Reader.out = some out := by
  obtain ⟨b, hb, h⟩ := (Option.any_eq_true _ _).1 h
  obtain ⟨r, hr, h⟩ := (Option.any_eq_true _ _).1 h
  obtain ⟨e, he, h⟩ := (Option.any_eq_true _ _).1 h
  obtain ⟨⟨chunks, d⟩, hw, h⟩ := (Option.any_eq_true _ _).1 h
  obtain ⟨hid, hp, hout, hlist, hcursor, hbound, hchunks, hidle, hgiven⟩ := of_decide_eq_true h
  obtain rfl : chunks = [[2], [3]] := hchunks
  refine ⟨b, d, r, e, reachable_of_run (.init maxBytes MAX_RUNS) hb, ⟨hr, he, hid, hp, ?_⟩, watches_of_watch .init hw,
    idle_of_eq_true hidle, hout, hbound, hlist, hgiven⟩
  rw [hlist]
  exact hcursor

theorem given_all_iff_fitting : ∃ (b d : Broadcast) (r r' : Reader), Reachable b ∧ Watches "r" 0 b [[2], [3]] d ∧
    d.readers[0]? = some r' ∧ r.out = [[1]] ∧ r'.out = r.out ++ [[2], [3]] := by
  have h : gives 3 [.append "r" [2], .resume 0, .resume 0, .append "r" [3], .resume 0, .resume 0] [[1], [2], [3]] = true := by
    decide +kernel
  obtain ⟨b, d, r, e, hb, hr, hd, hidle, hout, hbound, hlist, _⟩ := gives_spec h
  obtain ⟨r', hr', hall⟩ := given_all_iff hb hr hd hidle
  refine ⟨b, d, r, r', hb, hd, hr', hout, hall.2 ?_⟩
  rw [hbound, hlist]
  decide

/-- With room for two bytes the third chunk is never given. -/
theorem starved : ¬ ∀ b d i runId r e chunks, Reachable b → CaughtUp b i runId r e → Watches runId i b chunks d →
    Idle d i → ∃ r', d.readers[i]? = some r' ∧ r'.out = r.out ++ chunks := by
  intro h
  have hgives : gives 2 [.append "r" [2], .resume 0, .resume 0, .append "r" [3], .resume 0] [[1], [2]] = true := by
    decide +kernel
  obtain ⟨b, d, r, e, hb, hr, hd, hidle, hout, _, _, hgiven⟩ := gives_spec hgives
  obtain ⟨r', hr', hall⟩ := h b d 0 "r" r e _ hb hr hd hidle
  rw [hr', Option.map_some, hall, hout] at hgiven
  exact absurd hgiven (by decide)

end CodeZard.LiveReaders
