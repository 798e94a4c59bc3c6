import CodeZard.Micros

namespace CodeZard.Panels

open Amounts Decimals Lines Micros RunLogs StreamScans Values

/-- `Usage.from_agent`, for whatever value the agent sends as its cost panel. -/
def fromPanel : Json → Except Failure Usage
  | .dict panel => Usage.fromAgent panel
  | _ => .ok {}

def Countable (a : Json) : Prop := ∀ x, a = .float x → x.text ≠ "inf" ∧ x.text ≠ "-inf"

/-- No amount, or one whose micros the precision holds if it is an amount at all. -/
def Payable (a : Json) : Prop :=
  a = .null ∨ ∀ s c e, denoted a.text = some (s, c, e) → Kept c e → 2 * ((c : ℚ) * 10 ^ (e + 6)) + 1 < 2 * 10 ^ 28

/-- The part of a panel that the usage is read from. -/
def source (panel : Fields) : Fields :=
  match Json.get panel "usage" with
  | .dict usage => usage
  | _ => panel

structure Harmless (panel : Fields) : Prop where
  tokens : Countable (Json.get (source panel) "tokens")
  calls : Countable (Json.get (source panel) "calls")
  cost : Payable (Json.get (source panel) "cost_usd")

section Values

variable {a : Json} {n : ℤ}

theorem intOf_nonneg (h : intOf a = .ok n) : 0 ≤ n := by
  cases a with
  | bool b =>
      cases b <;> cases h <;> decide
  | float x =>
      simp only [intOf] at h
      split at h
      · cases h
        exact le_refl (0 : ℤ)
      · split at h
        · cases h
        · cases h
          exact le_max_left _ _
  | int n =>
      cases h
      exact le_max_left _ _
  | str s =>
      cases h
      exact le_max_left _ _
  | null | list items | dict fields =>
      cases h
      exact le_refl (0 : ℤ)

theorem intOf_ok_iff (a : Json) : (∃ n, intOf a = .ok n) ↔ Countable a := by
  cases a with
  | float x =>
      simp only [intOf, Countable]
      by_cases hnan : x.text = "nan"
      · rw [if_pos hnan]
        refine iff_of_true ⟨0, rfl⟩ ?_
        rintro _ ⟨⟩
        rw [hnan]
        decide
      · rw [if_neg hnan]
        constructor
        · rintro ⟨n, h⟩ _ ⟨⟩
          split at h
          · cases h
          · rename_i hfinite
            exact not_or.1 hfinite
        · intro h
          exact ⟨_, if_neg (not_or.2 (h x rfl))⟩
  | null | bool b | int n | str s | list items | dict fields =>
      exact iff_of_true ⟨_, rfl⟩ (fun x h => by cases h)

theorem moneyOf_ok (ha : a ≠ .null) : (∃ m, moneyOf a = .ok m) ↔ ∀ signal, Money.parse a ≠ .error (.decimal signal) := by
  unfold moneyOf
  constructor
  · rintro ⟨m, h⟩ signal hsignal
    rw [hsignal] at h
    split at h
    · exact ha rfl
    · rename_i hok
      cases hok
    · cases h
    · rename_i hother _ herror
      cases herror
      exact hother signal rfl
  · intro h
    split
    · exact absurd rfl ha
    · exact ⟨_, rfl⟩
    · rename_i signal _ hsignal
      exact absurd hsignal (h signal)
    · exact ⟨_, rfl⟩

theorem moneyOf_ok_iff (a : Json) : (∃ m, moneyOf a = .ok m) ↔ Payable a := by
  unfold Payable
  by_cases hnull : a = .null
  · subst hnull
    exact iff_of_true ⟨_, rfl⟩ (.inl rfl)
  · rw [or_iff_right hnull, moneyOf_ok hnull]
    constructor
    · intro h s c e hdenoted hkept
      have hresult := parse_kept hdenoted hkept rfl
      by_contra hsize
      rw [if_neg hsize] at hresult
      obtain ⟨signal, hraised⟩ := hresult
      exact h signal hraised
    · intro h signal hraised
      by_cases hkept : ∃ s c e, denoted a.text = some (s, c, e) ∧ Kept c e
      · obtain ⟨s, c, e, hdenoted, hkept⟩ := hkept
        have hresult := parse_kept hdenoted hkept rfl
        rw [if_pos (h s c e hdenoted hkept), hraised] at hresult
        obtain ⟨n, hok, -⟩ := hresult
        cases hok
      · obtain ⟨message, hrefused⟩ := parse_refused (a := a) fun s c e hdenoted hk => hkept ⟨s, c, e, hdenoted, hk⟩
        rw [hraised] at hrefused
        cases hrefused

theorem fromAgent_eq (panel : Fields) : Usage.fromAgent panel = (do
    let tokens ← intOf (Json.get (source panel) "tokens")
    let calls ← intOf (Json.get (source panel) "calls")
    let cost ← moneyOf (Json.get (source panel) "cost_usd")
    return ⟨tokens, calls, cost, (Json.get (source panel) "simulated").truthy⟩) :=
  rfl

theorem fromAgent_cases {panel : Fields} {u : Usage} (h : Usage.fromAgent panel = .ok u) :
    intOf (Json.get (source panel) "tokens") = .ok u.tokens ∧ intOf (Json.get (source panel) "calls") = .ok u.calls ∧
      moneyOf (Json.get (source panel) "cost_usd") = .ok u.cost := by
  rw [fromAgent_eq] at h
  rcases htokens : intOf (Json.get (source panel) "tokens") with e | tokens
  · rw [htokens] at h
    cases h
  · rcases hcalls : intOf (Json.get (source panel) "calls") with e | calls
    · rw [htokens, hcalls] at h
      cases h
    · rcases hcost : moneyOf (Json.get (source panel) "cost_usd") with e | cost
      · rw [htokens, hcalls, hcost] at h
        cases h
      · rw [htokens, hcalls, hcost] at h
        cases h
        exact ⟨rfl, rfl, rfl⟩

theorem fromAgent_ok_iff (panel : Fields) : (∃ u, Usage.fromAgent panel = .ok u) ↔ Harmless panel := by
  constructor
  · rintro ⟨u, h⟩
    obtain ⟨htokens, hcalls, hcost⟩ := fromAgent_cases h
    exact ⟨(intOf_ok_iff _).1 ⟨_, htokens⟩, (intOf_ok_iff _).1 ⟨_, hcalls⟩, (moneyOf_ok_iff _).1 ⟨_, hcost⟩⟩
  · rintro ⟨htokens, hcalls, hcost⟩
    obtain ⟨tokens, htokens⟩ := (intOf_ok_iff _).2 htokens
    obtain ⟨calls, hcalls⟩ := (intOf_ok_iff _).2 hcalls
    obtain ⟨cost, hcost⟩ := (moneyOf_ok_iff _).2 hcost
    rw [fromAgent_eq, htokens, hcalls, hcost]
    exact ⟨_, rfl⟩

theorem fromAgent_nonneg {panel : Fields} {u : Usage} (h : Usage.fromAgent panel = .ok u) : 0 ≤ u.tokens ∧ 0 ≤ u.calls :=
  ⟨intOf_nonneg (fromAgent_cases h).1, intOf_nonneg (fromAgent_cases h).2.1⟩

end Values

section Streams

variable (loads : Bytes → Except Failure Json)

def isValueError : Failure → Bool
  | .exception name _ => ["ValueError", "JSONDecodeError", "UnicodeDecodeError"].contains name
  | _ => false

def decoded (bs : Bytes) : Option Json := (loads bs).toOption

def escaped (line : Bytes) : Option Failure :=
  if dataPrefix.isPrefixOf line then
    match loads (line.drop 6) with
    | .error e => if isValueError e then none else some e
    | .ok _ => none
  else none

/-- `StreamScan._read`, when loading may raise anything. -/
def read (s : Scan) (line : Bytes) : Except Failure Scan :=
  match escaped loads line with
  | some e => .error e
  | none => s.read (decoded loads) line

def feed (s : Scan) (chunk : Bytes) : Except Failure Scan :=
  let lines := (s.tail ++ chunk).splitOn newline
  lines.dropLast.foldlM (read loads) { s with tail := keep MAX_TAIL (lines.getLastD []) }

def feedAll (chunks : List Bytes) : Except Failure Scan := chunks.foldlM (feed loads) {}

/-- A line that can be loaded if it is an event at all, and whose cost panel is
harmless if it is the event of a run that is done. -/
structure HarmlessLine (line : Bytes) : Prop where
  loaded : escaped loads line = none
  panel : ∀ cost, doneCost (decoded loads) line = some cost → Harmless cost

variable {loads} {s t : Scan} {line chunk : Bytes}

theorem feed_eq (h : ∀ bs e, loads bs = .error e → isValueError e = true) :
    feed loads s chunk = s.feed (decoded loads) chunk := by
  have hread : read loads = Scan.read (decoded loads) := by
    funext s line
    have hnone : escaped loads line = none := by
      unfold escaped
      split
      · split
        · rename_i e he
          exact if_pos (h _ e he)
        · rfl
      · rfl
    rw [read, hnone]
  unfold feed Scan.feed
  rw [hread]

theorem read_ok_iff (s : Scan) (line : Bytes) : (∃ t, read loads s line = .ok t) ↔ HarmlessLine loads line := by
  unfold read
  cases hescaped : escaped loads line with
  | some e => exact iff_of_false (by simp) fun h => by simp [h.loaded] at hescaped
  | none =>
      dsimp only
      rw [read_eq, usageAfter]
      cases hcost : doneCost (decoded loads) line with
      | none => exact iff_of_true ⟨_, rfl⟩ ⟨hescaped, by simp [hcost]⟩
      | some cost =>
          rw [Option.elim_some]
          have hpanel : HarmlessLine loads line ↔ ∃ u, Usage.fromAgent cost = .ok u := by
            rw [fromAgent_ok_iff]
            refine ⟨fun h => h.panel cost hcost, fun h => ⟨hescaped, ?_⟩⟩
            rintro _ hcost'
            rw [hcost] at hcost'
            cases hcost'
            exact h
          rw [hpanel]
          cases Usage.fromAgent cost with
          | error e => exact iff_of_false (by rintro ⟨t, ht⟩; cases ht) (by simp)
          | ok u => exact iff_of_true ⟨_, rfl⟩ ⟨u, rfl⟩

theorem read_tail (h : read loads s line = .ok t) : t.tail = s.tail := by
  unfold read at h
  split at h
  · cases h
  · rw [read_eq] at h
    cases husage : usageAfter (decoded loads) s.usage line with
    | error e =>
        rw [husage] at h
        cases h
    | ok usage =>
        rw [husage] at h
        cases h
        rfl

theorem foldlM_read_ok (lines : List Bytes) (s : Scan) :
    (∃ t, lines.foldlM (read loads) s = .ok t) ↔ ∀ line ∈ lines, HarmlessLine loads line := by
  induction lines generalizing s with
  | nil => exact iff_of_true ⟨s, rfl⟩ (by simp)
  | cons line lines ih =>
      rw [List.foldlM_cons, List.forall_mem_cons, ← read_ok_iff s line]
      cases read loads s line with
      | error e => exact iff_of_false (by rintro ⟨t, ht⟩; cases ht) (by simp)
      | ok s' => exact (ih s').trans (by simp)

theorem foldlM_read_tail {lines : List Bytes} (h : lines.foldlM (read loads) s = .ok t) : t.tail = s.tail := by
  induction lines generalizing s with
  | nil =>
      cases h
      rfl
  | cons line lines ih =>
      rw [List.foldlM_cons] at h
      cases hread : read loads s line with
      | error e =>
          rw [hread] at h
          cases h
      | ok s' =>
          rw [hread] at h
          exact (ih h).trans (read_tail hread)

theorem foldlM_feed_ok (chunks : List Bytes) (s : Scan) :
    (∃ t, chunks.foldlM (feed loads) s = .ok t) ↔ ∀ line ∈ handed newline MAX_TAIL s.tail chunks, HarmlessLine loads line := by
  induction chunks generalizing s with
  | nil => exact iff_of_true ⟨s, rfl⟩ (by simp [handed])
  | cons chunk chunks ih =>
      rw [List.foldlM_cons, handed, List.forall_mem_append]
      have hfeed : feed loads s chunk = (terminated newline (s.tail ++ chunk)).foldlM (read loads)
          { s with tail := keep MAX_TAIL (remainder newline (s.tail ++ chunk)) } := rfl
      rw [← foldlM_read_ok (terminated newline (s.tail ++ chunk))
        { s with tail := keep MAX_TAIL (remainder newline (s.tail ++ chunk)) }, hfeed]
      cases hread : (terminated newline (s.tail ++ chunk)).foldlM (read loads)
          { s with tail := keep MAX_TAIL (remainder newline (s.tail ++ chunk)) } with
      | error e => exact iff_of_false (by rintro ⟨t, ht⟩; cases ht) (by simp)
      | ok s' =>
          have htail := foldlM_read_tail hread
          dsimp only at htail
          rw [← htail]
          exact (ih s').trans (by simp)

end Streams

/-- A cost panel is read exactly when it is harmless, and a stream is read to
its end exactly when every line of it is. -/
theorem report_read_iff (a : Json) (loads : Bytes → Except Failure Json) (chunks : List Bytes) :
    ((∃ u, fromPanel a = .ok u ∧ 0 ≤ u.tokens ∧ 0 ≤ u.calls) ↔ ∀ panel, a = .dict panel → Harmless panel) ∧
    ((∃ t, feedAll loads chunks = .ok t) ↔
      ∀ line ∈ handed newline MAX_TAIL [] chunks, HarmlessLine loads line) := by
  constructor
  · cases a with
    | dict panel =>
        constructor
        · rintro ⟨u, hu, -⟩ _ ⟨⟩
          exact (fromAgent_ok_iff panel).1 ⟨u, hu⟩
        · intro h
          obtain ⟨u, hu⟩ := (fromAgent_ok_iff panel).2 (h panel rfl)
          exact ⟨u, hu, fromAgent_nonneg hu⟩
    | null | bool b | int n | float x | str s | list items =>
        exact iff_of_true ⟨{}, rfl, le_refl (0 : ℤ), le_refl (0 : ℤ)⟩ (fun panel h => by cases h)
  · exact foldlM_feed_ok chunks {}

/-- An infinite count and an amount beyond the precision are raised. -/
theorem report_raised :
    (¬ ∃ u, fromPanel (.dict [("usage", .dict [("tokens", .float ⟨"inf", 0, by decide⟩)])]) = .ok u) ∧
      ¬ ∃ u, fromPanel (.dict [("cost_usd", .float ⟨"1e+30", 10 ^ 30, by decide⟩)]) = .ok u := by
  have hcount : fromPanel (.dict [("usage", .dict [("tokens", .float ⟨"inf", 0, by decide⟩)])]) =
      .error (.exception "OverflowError" "cannot convert float infinity to integer") := by decide +kernel
  have hcost : fromPanel (.dict [("cost_usd", .float ⟨"1e+30", 10 ^ 30, by decide⟩)]) =
      .error (.exception "InvalidOperation" "[<class 'decimal.InvalidOperation'>]") := by decide +kernel
  rw [hcount, hcost]
  constructor
  · rintro ⟨u, h⟩
    cases h
  · rintro ⟨u, h⟩
    cases h

end CodeZard.Panels
