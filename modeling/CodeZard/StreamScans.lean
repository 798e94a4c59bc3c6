import CodeZard.Amounts
import CodeZard.Lines
import CodeZard.RunLogs
import CodeZard.Values

namespace CodeZard.StreamScans

open Amounts Decimals Lines RunLogs Values

def Money.parse (value : Json) : Except Error Money :=
  match Decimals.parse value.text with
  | some (.finite negative coeff exp) =>
      match mul (.finite negative coeff exp) (.finite false MICROS.toNat 0) >>= quantizeUnit with
      | .ok micros => .ok ⟨micros⟩
      | .error signal => .error (.decimal signal)
  | _ => .error (.billing (value.repr ++ " is not an amount of money"))

def signalName : Signal → String
  | .invalidOperation => "InvalidOperation"
  | .divisionByZero => "DivisionByZero"
  | .overflow => "Overflow"

def moneyOf (value : Json) : Except Failure Money :=
  match value, Money.parse value with
  | .null, _ => .ok {}
  | _, .ok money => .ok money
  | _, .error (.decimal signal) =>
      .error (.exception (signalName signal) ("[<class 'decimal." ++ signalName signal ++ "'>]"))
  | _, .error _ => .ok {}

def Usage.fromAgent (panel : Fields) : Except Failure Usage := do
  let source := match Json.get panel "usage" with
    | .dict usage => usage
    | _ => panel
  let tokens ← intOf (Json.get source "tokens")
  let calls ← intOf (Json.get source "calls")
  let cost ← moneyOf (Json.get source "cost_usd")
  return ⟨tokens, calls, cost, (Json.get source "simulated").truthy⟩

def MAX_TAIL : Nat := 8192

def newline : UInt8 := 10

def isWord (b : UInt8) : Bool :=
  (48 ≤ b && b ≤ 57) || (65 ≤ b && b ≤ 90) || b = 95 || (97 ≤ b && b ≤ 122)

def isHex (b : UInt8) : Bool := (48 ≤ b && b ≤ 57) || (97 ≤ b && b ≤ 102)

/-- `ARTIFACT_ID.search`: the first 24 hexadecimal digits with a word boundary on
either side. `word` tells whether the byte before is part of a word. -/
def searchId (word : Bool) : Bytes → Option Bytes
  | [] => none
  | b :: bs =>
      let id := (b :: bs).take 24
      if !word && id.length = 24 && id.all isHex && !(bs[23]?.any isWord) then some id
      else searchId (isWord b) bs

def decode (bs : Bytes) : String := String.ofList (bs.map fun b => Char.ofNat b.toNat)

def dataPrefix : Bytes := [100, 97, 116, 97, 58, 32]

structure Scan where
  artifact : String := ""
  usage : Usage := {}
  tail : Bytes := []
  deriving DecidableEq, Repr

variable (loads : Bytes → Option Json)

def eventOf (line : Bytes) : Option Fields :=
  if dataPrefix.isPrefixOf line then
    match loads (line.drop 6) with
    | some (.dict event) => some event
    | _ => none
  else none

def isDone (event : Fields) : Bool := match Json.get event "type" with
  | .str s => s = "done"
  | _ => false

def isArtifact (event : Fields) : Bool := match Json.get event "name" with
  | .str s => s = "artifact"
  | _ => false

/-- `str(project["id"])`, when there is a project and its id counts. -/
def projectId (event : Fields) : Option String := match Json.get event "project" with
  | .dict project => if (Json.get project "id").truthy then some (Json.get project "id").text else none
  | _ => none

def costOf (event : Fields) : Option Fields := match Json.get event "cost" with
  | .dict cost => some cost
  | _ => none

def Scan.read (s : Scan) (line : Bytes) : Except Failure Scan :=
  match eventOf loads line with
  | none => .ok s
  | some event =>
      if isDone event then do
        let artifact := (projectId event).getD s.artifact
        match costOf event with
        | some cost => return { s with artifact := artifact, usage := ← Usage.fromAgent cost }
        | none => return { s with artifact := artifact }
      else if s.artifact = "" && isArtifact event then
        match searchId false line with
        | some id => .ok { s with artifact := decode id }
        | none => .ok s
      else .ok s

def Scan.feed (s : Scan) (chunk : Bytes) : Except Failure Scan :=
  let lines := (s.tail ++ chunk).splitOn newline
  lines.dropLast.foldlM (Scan.read loads) { s with tail := keep MAX_TAIL (lines.getLastD []) }

/-- Feeding a fresh scan. It stops at the first chunk that raises. -/
def feedAll (chunks : List Bytes) : Except Failure Scan := chunks.foldlM (Scan.feed loads) {}

/-- What the run keeps of a scan. -/
def Scan.found (s : Scan) : String × Usage := (s.artifact, s.usage)

/-- The project id on the line of a `done` event. -/
def doneId (line : Bytes) : Option String :=
  (eventOf loads line).bind fun event => if isDone event then projectId event else none

def doneCost (line : Bytes) : Option Fields :=
  (eventOf loads line).bind fun event => if isDone event then costOf event else none

/-- The id that stands on the line of an `artifact` event. -/
def mentioned (line : Bytes) : Option String :=
  (eventOf loads line).bind fun event =>
    if !isDone event && isArtifact event then (searchId false line).map decode else none

/-- The project id of the last `done` event that has one, or else the first id
found in an `artifact` event. -/
def artifactOf (lines : List Bytes) : String :=
  (lines.filterMap (doneId loads)).getLast?.getD ((lines.filterMap (mentioned loads)).head?.getD "")

/-- The usage of the last `done` event whose cost is an object. -/
def usageOf (lines : List Bytes) : Except Failure Usage :=
  ((lines.filterMap (doneCost loads)).mapM Usage.fromAgent).map fun us => us.getLast?.getD {}

/-- Reading every line of the whole in order. -/
def reading (s : Bytes) : Except Failure (String × Usage) :=
  (usageOf loads (terminated newline s)).map fun usage => (artifactOf loads (terminated newline s), usage)

variable {loads} {s : Scan}

theorem searchId_length {word : Bool} {bs id : Bytes} (h : searchId word bs = some id) : id.length = 24 := by
  induction bs generalizing word with
  | nil => cases h
  | cons b bs ih =>
      simp only [searchId] at h
      split at h
      · rename_i hc
        cases h
        simp only [Bool.and_eq_true, decide_eq_true_eq] at hc
        exact hc.1.1.2
      · exact ih h

theorem decode_ne (id : Bytes) (h : id.length = 24) : decode id ≠ "" := by
  intro hd
  have := congrArg (fun s : String => s.toList.length) hd
  simp [decode, h] at this

theorem doneId_ne {line : Bytes} {id : String} (h : doneId loads line = some id) : id ≠ "" := by
  obtain ⟨event, _, h⟩ := Option.bind_eq_some_iff.1 h
  split at h
  · unfold projectId at h
    split at h
    · split at h
      · cases h
        exact Json.text_ne_of_truthy ‹_›
      · cases h
    · cases h
  · cases h

theorem mentioned_ne {line : Bytes} {id : String} (h : mentioned loads line = some id) : id ≠ "" := by
  obtain ⟨event, _, h⟩ := Option.bind_eq_some_iff.1 h
  split at h
  · obtain ⟨bs, hb, rfl⟩ := Option.map_eq_some_iff.1 h
    exact decode_ne bs (searchId_length hb)
  · cases h

def artifactAfter (loads : Bytes → Option Json) (artifact : String) (line : Bytes) : String :=
  (doneId loads line).getD
    (if artifact = "" then (mentioned loads line).getD "" else artifact)

def usageAfter (loads : Bytes → Option Json) (usage : Usage) (line : Bytes) : Except Failure Usage :=
  (doneCost loads line).elim (.ok usage) Usage.fromAgent

theorem read_eq (loads : Bytes → Option Json) (s : Scan) (line : Bytes) :
    s.read loads line = (usageAfter loads s.usage line).map fun usage =>
      { s with usage := usage, artifact := artifactAfter loads s.artifact line } := by
  have hkeep : (if s.artifact = "" then "" else s.artifact) = s.artifact := by
    split
    · exact (‹s.artifact = ""›).symm
    · rfl
  unfold Scan.read usageAfter artifactAfter doneId doneCost mentioned
  cases he : eventOf loads line with
  | none => simp [hkeep, Except.map]
  | some event =>
      by_cases hd : isDone event = true
      · cases hc : costOf event with
        | none => simp [hd, hc, hkeep, Except.map, pure, Except.pure]
        | some cost =>
            simp only [hd, hc, hkeep, if_true, Option.bind_some, Option.elim_some,
              Bool.not_true, Bool.false_and, Bool.false_eq_true, if_false, Option.getD_none]
            cases Usage.fromAgent cost <;> rfl
      · simp only [hd, Option.bind_some, Option.elim_none, Bool.false_eq_true, if_false,
          Option.getD_none, Except.map, Bool.not_false, Bool.true_and]
        by_cases ha : s.artifact = ""
        · have hself : s = ⟨"", s.usage, s.tail⟩ := by rw [← ha]
          by_cases hn : isArtifact event = true
          · cases hs : searchId false line with
            | none => simpa [ha, hn] using hself
            | some id => simp [ha, hn]
          · simpa [ha, hn] using hself
        · simp [ha]

def artifactFrom (loads : Bytes → Option Json) (artifact : String) (lines : List Bytes) : String :=
  (lines.filterMap (doneId loads)).getLast?.getD
    (if artifact = "" then (lines.filterMap (mentioned loads)).head?.getD "" else artifact)

theorem artifactFrom_cons (loads : Bytes → Option Json) (artifact : String) (line : Bytes) (lines : List Bytes) :
    artifactFrom loads artifact (line :: lines) = artifactFrom loads (artifactAfter loads artifact line) lines := by
  unfold artifactFrom artifactAfter
  cases hd : doneId loads line with
  | some id =>
      rw [List.filterMap_cons_some hd, List.getLast?_cons, Option.getD_some, Option.getD_some, if_neg (doneId_ne hd)]
  | none =>
      rw [List.filterMap_cons_none hd, Option.getD_none]
      by_cases ha : artifact = ""
      · cases hm : mentioned loads line with
        | some id =>
            simp only [ha, if_true, List.filterMap_cons_some hm, List.head?_cons, Option.getD_some,
              if_neg (mentioned_ne hm)]
        | none => simp only [ha, if_true, List.filterMap_cons_none hm, Option.getD_none]
      · simp only [if_neg ha]

def usageFrom (loads : Bytes → Option Json) (usage : Usage) (lines : List Bytes) : Except Failure Usage :=
  (lines.filterMap (doneCost loads)).mapM Usage.fromAgent |>.map fun us => us.getLast?.getD usage

theorem usageFrom_cons (loads : Bytes → Option Json) (usage : Usage) (line : Bytes) (lines : List Bytes) :
    usageFrom loads usage (line :: lines) =
      (usageAfter loads usage line).bind fun usage => usageFrom loads usage lines := by
  unfold usageFrom usageAfter
  cases hc : doneCost loads line with
  | none => rw [List.filterMap_cons_none hc]; rfl
  | some cost =>
      rw [List.filterMap_cons_some hc, List.mapM_cons]
      simp only [Option.elim_some]
      cases Usage.fromAgent cost with
      | error e => rfl
      | ok u =>
          simp only [bind, Except.bind]
          cases List.mapM Usage.fromAgent (lines.filterMap (doneCost loads)) with
          | error e => rfl
          | ok us => simp [Except.map, pure, Except.pure, List.getLast?_cons]

theorem foldlM_read (lines : List Bytes) (s : Scan) :
    (lines.foldlM (Scan.read loads) s).map Scan.found =
      (usageFrom loads s.usage lines).map fun usage => (artifactFrom loads s.artifact lines, usage) := by
  induction lines generalizing s with
  | nil => by_cases ha : s.artifact = "" <;> simp [usageFrom, artifactFrom, ha, Except.map, pure, Except.pure, Scan.found]
  | cons line lines ih =>
      rw [List.foldlM_cons, read_eq, usageFrom_cons, artifactFrom_cons]
      cases usageAfter loads s.usage line with
      | error e => rfl
      | ok usage => exact ih { s with usage := usage, artifact := artifactAfter loads s.artifact line }

theorem read_lines (loads : Bytes → Option Json) (bs : Bytes) :
    ((terminated newline bs).foldlM (Scan.read loads) {}).map Scan.found = reading loads bs := by
  rw [foldlM_read]
  rfl

theorem foldlM_read_tail (lines : List Bytes) (s : Scan) (tail : Bytes) :
    lines.foldlM (Scan.read loads) { s with tail := tail } =
      (lines.foldlM (Scan.read loads) s).map fun s => { s with tail := tail } := by
  induction lines generalizing s with
  | nil => rfl
  | cons line lines ih =>
      rw [List.foldlM_cons, List.foldlM_cons, read_eq, read_eq]
      cases usageAfter loads s.usage line with
      | error e => rfl
      | ok usage => exact ih { s with usage := usage, artifact := artifactAfter loads s.artifact line }

theorem found_tail (x : Except Failure Scan) (tail : Bytes) :
    (x.map fun s => { s with tail := tail }).map Scan.found = x.map Scan.found := by
  cases x <;> rfl

theorem foldlM_feed (chunks : List Bytes) (s : Scan) :
    (chunks.foldlM (Scan.feed loads) s).map Scan.found =
      ((handed newline MAX_TAIL s.tail chunks).foldlM (Scan.read loads) s).map Scan.found := by
  induction chunks generalizing s with
  | nil => rfl
  | cons c cs ih =>
      have hfeed : s.feed loads c = ((terminated newline (s.tail ++ c)).foldlM (Scan.read loads) s).map
          fun s' => { s' with tail := keep MAX_TAIL (remainder newline (s.tail ++ c)) } :=
        foldlM_read_tail (terminated newline (s.tail ++ c)) s _
      rw [List.foldlM_cons, hfeed, handed, List.foldlM_append]
      cases (terminated newline (s.tail ++ c)).foldlM (Scan.read loads) s with
      | error e => rfl
      | ok s' =>
          refine (ih { s' with tail := keep MAX_TAIL (remainder newline (s.tail ++ c)) }).trans ?_
          rw [foldlM_read_tail, found_tail]
          simp only [bind, Except.bind]

/-- The lines that a scan reads are those of the whole if and only if no line
that is finished later is longer than the tail when a chunk ends. Then what is
found is what reading the whole finds, however it was cut. -/
theorem scan_of_whole (loads : Bytes → Option Json) (chunks : List Bytes) :
    (feedAll loads chunks).map Scan.found =
      ((handed newline MAX_TAIL [] chunks).foldlM (Scan.read loads) {}).map Scan.found ∧
    (handed newline MAX_TAIL [] chunks = terminated newline chunks.flatten ↔ Fits newline MAX_TAIL [] chunks) ∧
    (Fits newline MAX_TAIL [] chunks → (feedAll loads chunks).map Scan.found = reading loads chunks.flatten) := by
  have hiff : handed newline MAX_TAIL [] chunks = terminated newline chunks.flatten ↔
      Fits newline MAX_TAIL [] chunks := by
    have h := handed_eq_iff (n := MAX_TAIL) (List.not_mem_nil (a := newline)) (List.suffix_refl []) chunks
    rw [List.nil_append] at h
    exact h.trans ⟨And.right, fun hf => ⟨fun _ => rfl, hf⟩⟩
  refine ⟨foldlM_feed chunks {}, hiff, fun hf => ?_⟩
  rw [feedAll, foldlM_feed, ← read_lines, hiff.2 hf]

def ascii (s : String) : Bytes := s.toList.map fun c => UInt8.ofNat c.toNat

def projectName : String := "aaaaaaaaaaaaaaaaaaaaaaaa"

def opening : Bytes := ascii ("\x7b\"type\": \"done\", \"project\": \x7b\"id\": \"" ++ projectName ++ "\"\x7d, \"note\": \"")

def closing : Bytes := ascii "\"\x7d"

/-- A `done` event with a long note. -/
def document (n : Nat) : Bytes := opening ++ (List.replicate n 120 ++ closing)

def event (n : Nat) : Fields :=
  [("type", .str "done"), ("project", .dict [("id", .str projectName)]),
    ("note", .str (String.ofList (List.replicate n 'x')))]

/-- What `json.loads` makes of such a document. -/
def loadsDocument (n : Nat) (bs : Bytes) : Option Json := if bs = document n then some (.dict (event n)) else none

/-- The line that carries it. -/
def longLine (n : Nat) : Bytes := dataPrefix ++ document n

theorem newline_notMem (n : Nat) : newline ∉ longLine n := by
  have ho : newline ∉ opening := by decide
  have hc : newline ∉ closing := by decide
  have hd : newline ∉ dataPrefix := by decide
  have hx : newline ≠ 120 := by decide
  simp [longLine, document, ho, hc, hd, hx, List.mem_replicate]

theorem eventOf_longLine (n : Nat) : eventOf (loadsDocument n) (longLine n) = some (event n) := by
  have hp : dataPrefix.isPrefixOf (longLine n) = true := List.isPrefixOf_iff_prefix.2 (List.prefix_append _ _)
  have hl : (longLine n).drop 6 = document n := rfl
  simp [eventOf, hp, hl, loadsDocument]

theorem eventOf_cut (loads : Bytes → Option Json) (n : Nat) :
    eventOf loads (List.replicate (n + 1) 120 ++ closing) = none := by
  rw [List.replicate_succ, List.cons_append]
  rfl

theorem keep_longLine (n : Nat) : keep MAX_TAIL (longLine (n + MAX_TAIL)) = List.replicate (8189 + 1) 120 ++ closing := by
  have hc : closing.length = 2 := by decide
  have hle : MAX_TAIL ≤ (List.replicate (n + MAX_TAIL) 120 ++ closing).length := by
    rw [List.length_append, List.length_replicate]
    omega
  rw [longLine, document, ← List.append_assoc, keep_append _ hle, keep, List.length_append, List.length_replicate,
    List.drop_append, List.drop_replicate, List.length_replicate, hc]
  have h₁ : n + MAX_TAIL - (n + MAX_TAIL + 2 - MAX_TAIL) = 8189 + 1 := by
    rw [MAX_TAIL]
    omega
  have h₂ : n + MAX_TAIL + 2 - MAX_TAIL - (n + MAX_TAIL) = 0 := by
    rw [MAX_TAIL]
    omega
  rw [h₁, h₂, List.drop_zero]

theorem scan_of_whole_short :
    Fits newline MAX_TAIL [] [(longLine 3).take 30, (longLine 3).drop 30 ++ [newline]] ∧
    (feedAll (loadsDocument 3) [(longLine 3).take 30, (longLine 3).drop 30 ++ [newline]]).map Scan.found =
      reading (loadsDocument 3) (longLine 3 ++ [newline]) := by
  have hf : Fits newline MAX_TAIL [] [(longLine 3).take 30, (longLine 3).drop 30 ++ [newline]] := by decide +kernel
  exact ⟨hf, (scan_of_whole (loadsDocument 3) _).2.2 hf⟩

theorem handed_whole (n : Nat) : handed newline MAX_TAIL [] [longLine n ++ [newline]] = [longLine n] := by
  have ht := terminated_append_of_mem (t := []) (List.not_mem_nil) (newline_notMem n) (b := [])
  rw [List.nil_append] at ht
  rw [handed, handed, List.append_nil, List.nil_append, ht, List.nil_append, terminated_of_notMem List.not_mem_nil]

theorem handed_cut (n : Nat) : handed newline MAX_TAIL [] [longLine (n + MAX_TAIL), [newline]] =
    [List.replicate (8189 + 1) 120 ++ closing] := by
  have hk := keep_longLine n
  have hn : newline ∉ keep MAX_TAIL (longLine (n + MAX_TAIL)) :=
    fun hm => newline_notMem _ ((keep_suffix MAX_TAIL _).subset hm)
  rw [handed, handed, handed, List.append_nil, List.nil_append, terminated_of_notMem (newline_notMem _),
    remainder_of_notMem (newline_notMem _), List.nil_append]
  have ht := terminated_append_of_mem (t := []) List.not_mem_nil hn (b := [])
  rw [List.nil_append, terminated_of_notMem List.not_mem_nil, List.nil_append] at ht
  rw [ht, hk]

/-- The same bytes, with the line whole and with a cut before its newline. The
project is found in the first and lost in the second. -/
theorem done_event_lost :
    (feedAll (loadsDocument MAX_TAIL) [longLine MAX_TAIL ++ [newline]]).map Scan.found = .ok (projectName, {}) ∧
    (feedAll (loadsDocument MAX_TAIL) [longLine MAX_TAIL, [newline]]).map Scan.found = .ok ("", {}) := by
  constructor
  · have he := eventOf_longLine MAX_TAIL
    have hd : doneId (loadsDocument MAX_TAIL) (longLine MAX_TAIL) = some projectName := by
      rw [doneId, he]
      rfl
    have hc : doneCost (loadsDocument MAX_TAIL) (longLine MAX_TAIL) = none := by
      rw [doneCost, he]
      rfl
    rw [feedAll, foldlM_feed, handed_whole, foldlM_read, usageFrom, artifactFrom, List.filterMap_cons_none hc,
      List.filterMap_cons_some hd]
    rfl
  · have hcut := handed_cut 0
    rw [Nat.zero_add] at hcut
    have he := eventOf_cut (loadsDocument MAX_TAIL) 8189
    have hd : doneId (loadsDocument MAX_TAIL) (List.replicate (8189 + 1) 120 ++ closing) = none := by
      rw [doneId, he]
      rfl
    have hc : doneCost (loadsDocument MAX_TAIL) (List.replicate (8189 + 1) 120 ++ closing) = none := by
      rw [doneCost, he]
      rfl
    have hm : mentioned (loadsDocument MAX_TAIL) (List.replicate (8189 + 1) 120 ++ closing) = none := by
      rw [mentioned, he]
      rfl
    rw [feedAll, foldlM_feed, hcut, foldlM_read, usageFrom, artifactFrom, List.filterMap_cons_none hc,
      List.filterMap_cons_none hd, List.filterMap_cons_none hm]
    rfl

end CodeZard.StreamScans
