import CodeZard.Calendars
import CodeZard.Ledgers

namespace CodeZard.Namings

open Calendars Chronology Ledgers Products Timestamps Values

/-- A `period_key`. -/
def periodKey (planId : String) (s : Stamp) : String := planId ++ ":" ++ isoformat s

def textOf : Reference → Option String
  | .blank => some ""
  | .invoice invoiceId => some ("invoice:" ++ invoiceId)
  | .x402 transaction => some ("x402:" ++ transaction)
  | .run runId => some ("run:" ++ runId)
  | .grant planId renewsAt => (stampOf renewsAt).map fun s => "grant:" ++ periodKey planId s
  | .chain planId started => some ("chain:" ++ (planId ++ ":" ++ toString started))
  | .expiry planId renewsAt => (stampOf renewsAt).map fun s => "expiry:" ++ periodKey planId s

def endingIn (k : Nat) (cs : List Char) : Option (String × Datetime) :=
  match (cs.take (cs.length - k)).getLast?, time (String.ofList (cs.drop (cs.length - k))) with
  | some ':', .ok s => some (String.ofList (cs.take (cs.length - k)).dropLast, instant s - EPOCH)
  | _, _ => none

def datedOf (cs : List Char) : Option (String × Datetime) := (endingIn 25 cs).or (endingIn 32 cs)

def wholeOf : List Char → Int
  | '-' :: digits => -(Nat.ofDigitChars 10 digits 0 : Nat)
  | digits => (Nat.ofDigitChars 10 digits 0 : Nat)

def numberedOf (cs : List Char) : String × Int :=
  let (digits, plan) := cs.reverse.span fun c => c ≠ ':'
  (String.ofList (plan.drop 1).reverse, wholeOf digits.reverse)

def referenceOf (text : String) : Option Reference :=
  if text = "" then some .blank
  else
    let (kind, rest) := text.toList.span fun c => c ≠ ':'
    let rest := rest.drop 1
    match String.ofList kind with
    | "invoice" => some (.invoice (String.ofList rest))
    | "x402" => some (.x402 (String.ofList rest))
    | "run" => some (.run (String.ofList rest))
    | "grant" => (datedOf rest).map fun p => .grant p.1 p.2
    | "chain" => some (.chain (numberedOf rest).1 (numberedOf rest).2)
    | "expiry" => (datedOf rest).map fun p => .expiry p.1 p.2
    | _ => none

section Times

variable {s : Stamp} {plan before after : List Char} {k : Nat}

theorem endingIn_append (h : after.length = k) : endingIn k (before ++ after) =
    match before.getLast?, time (String.ofList after) with
    | some ':', .ok s => some (String.ofList before.dropLast, instant s - EPOCH)
    | _, _ => none := by
  have hlength : (before ++ after).length - k = before.length := by
    rw [List.length_append, h, Nat.add_sub_cancel]
  rw [endingIn, hlength, List.take_left, List.drop_left]

theorem endingIn_iso (h : (isoformat s).toList.length = k) :
    endingIn k (plan ++ ':' :: (isoformat s).toList) = some (String.ofList plan, instant s - EPOCH) := by
  have hsplit : plan ++ ':' :: (isoformat s).toList = (plan ++ [':']) ++ (isoformat s).toList := by simp
  rw [hsplit, endingIn_append h, String.ofList_toList, time_isoformat, List.getLast?_concat, List.dropLast_concat]
  rfl

theorem iso_cases (hs : s.offset = 0) : (isoformat s).toList.length = 25 ∨
    (isoformat s).toList.length = 32 ∧ ∃ before after c, (isoformat s).toList = (before ++ [c]) ++ after ∧
      after.length = 25 ∧ c ≠ ':' := by
  have hzone : offsetText s.offset = ['+', '0', '0', ':', '0', '0'] := by
    rw [hs]
    decide
  have hpadded (k n : Nat) : (padded k n).length = k := by
    induction k generalizing n with
    | zero => rfl
    | succ k ih => simp [padded, ih]
  rw [isoformat, String.toList_ofList, hzone]
  by_cases hmicro : s.microsecond = 0
  · left
    simp [dateText, clockText, hmicro, hpadded]
  · right
    refine ⟨by simp [dateText, clockText, hmicro, hpadded], ?_⟩
    have hmonth : padded 2 s.month = padded 1 (s.month / 10) ++ [Nat.digitChar (s.month % 10)] := rfl
    refine ⟨padded 4 s.year ++ '-' :: padded 1 (s.month / 10), '-' :: (padded 2 s.day ++ 'T' ::
      (clockText s.hour s.minute s.second s.microsecond ++ ['+', '0', '0', ':', '0', '0'])), Nat.digitChar (s.month % 10),
      ?_, ?_, ?_⟩
    · simp [dateText, hmonth]
    · simp [clockText, hmicro, hpadded]
    · intro hc
      have hdigit := digitOf_digitChar (Nat.mod_lt s.month (by decide : 0 < 10))
      rw [hc] at hdigit
      cases hdigit

theorem datedOf_iso (hs : s.offset = 0) :
    datedOf (plan ++ ':' :: (isoformat s).toList) = some (String.ofList plan, instant s - EPOCH) := by
  rcases iso_cases hs with hshort | ⟨hlong, before, after, c, hiso, hafter, hc⟩
  · rw [datedOf, endingIn_iso hshort]
    rfl
  · have hnone : endingIn 25 (plan ++ ':' :: (isoformat s).toList) = none := by
      have hsplit : plan ++ ':' :: (isoformat s).toList = (plan ++ ':' :: (before ++ [c])) ++ after := by
        rw [hiso]
        simp
      have hlast : (plan ++ ':' :: (before ++ [c])).getLast? = some c := by
        rw [← List.cons_append, ← List.append_assoc, List.getLast?_concat]
      rw [hsplit, endingIn_append hafter, hlast]
      split
      · rename_i h _
        exact absurd (Option.some.inj h) hc
      · rfl
    rw [datedOf, hnone, endingIn_iso hlong]
    rfl

end Times

section Numbers

theorem wholeOf_toString (n : Int) : wholeOf (toString n).toList = n ∧ ∀ c ∈ (toString n).toList, c ≠ ':' := by
  have hdigits (m : Nat) : ∀ c ∈ Nat.toDigits 10 m, c ≠ ':' ∧ c ≠ '-' := by
    intro c hc
    have hdigit := Nat.isDigit_of_mem_toDigits (by decide) (by decide) hc
    constructor
    · rintro rfl
      cases hdigit
    · rintro rfl
      cases hdigit
  cases n with
  | ofNat m =>
      have htext : (toString (Int.ofNat m)).toList = Nat.toDigits 10 m := by simp [toString, Int.repr, Nat.repr]
      rw [htext]
      refine ⟨?_, fun c hc => (hdigits m c hc).1⟩
      have hread : wholeOf (Nat.toDigits 10 m) = (Nat.ofDigitChars 10 (Nat.toDigits 10 m) 0 : Nat) := by
        unfold wholeOf
        split
        · rename_i digits h
          exact absurd rfl (hdigits m '-' (by rw [h]; exact List.mem_cons_self)).2
        · rfl
      rw [hread, Nat.ofDigitChars_ten_toDigits]
      rfl
  | negSucc m =>
      have htext : (toString (Int.negSucc m)).toList = '-' :: Nat.toDigits 10 (m + 1) := by
        simp [toString, Int.repr, Nat.repr]
      rw [htext]
      refine ⟨?_, ?_⟩
      · rw [wholeOf, Nat.ofDigitChars_ten_toDigits]
        rfl
      · intro c hc
        rcases List.mem_cons.1 hc with rfl | hc
        · decide
        · exact (hdigits _ c hc).1

theorem span_of_all {p : Char → Bool} {cs rest : List Char} {c : Char} (h : ∀ c ∈ cs, p c = true) (hc : p c = false) :
    (cs ++ c :: rest).span p = (cs, c :: rest) := by
  rw [List.span_eq_takeWhile_dropWhile, List.takeWhile_append_of_pos h, List.dropWhile_append_of_pos h]
  simp [hc]

theorem numberedOf_text (plan : List Char) (n : Int) :
    numberedOf (plan ++ ':' :: (toString n).toList) = (String.ofList plan, n) := by
  obtain ⟨hread, hcolon⟩ := wholeOf_toString n
  have hspan : (plan ++ ':' :: (toString n).toList).reverse.span (fun c => c ≠ ':') =
      ((toString n).toList.reverse, ':' :: plan.reverse) := by
    rw [List.reverse_append, List.reverse_cons, List.append_assoc]
    exact span_of_all (fun c hc => decide_eq_true (hcolon c (List.mem_reverse.1 hc))) (by decide)
  rw [numberedOf, hspan]
  dsimp only
  rw [List.reverse_reverse, hread, List.drop_succ_cons, List.drop_zero, List.reverse_reverse]

end Numbers

section Texts

variable {kind : List Char} {rest : List Char}

theorem span_kind (h : ∀ c ∈ kind, c ≠ ':') (rest : List Char) :
    (kind ++ ':' :: rest).span (fun c => c ≠ ':') = (kind, ':' :: rest) :=
  span_of_all (fun c hc => decide_eq_true (h c hc)) (by decide)

variable (kind) in
theorem referenceOf_kind {text : String} (htext : text.toList = kind ++ ':' :: rest) (h : ∀ c ∈ kind, c ≠ ':') :
    referenceOf text = match String.ofList kind with
      | "invoice" => some (.invoice (String.ofList rest))
      | "x402" => some (.x402 (String.ofList rest))
      | "run" => some (.run (String.ofList rest))
      | "grant" => (datedOf rest).map fun p => .grant p.1 p.2
      | "chain" => some (.chain (numberedOf rest).1 (numberedOf rest).2)
      | "expiry" => (datedOf rest).map fun p => .expiry p.1 p.2
      | _ => none := by
  have hne : text ≠ "" := by
    rintro rfl
    simp at htext
  rw [referenceOf, if_neg hne, htext, span_kind h]
  rfl

theorem datedOf_periodKey {planId : String} {t : Datetime} {s : Stamp} (h : stampOf t = some s) :
    datedOf (periodKey planId s).toList = some (planId, t) := by
  obtain ⟨hs, ht⟩ := stampOf_sound h
  have hkey : (periodKey planId s).toList = planId.toList ++ ':' :: (isoformat s).toList := by simp [periodKey]
  rw [hkey, datedOf_iso hs, String.ofList_toList, ht, Int.add_sub_cancel]

theorem referenceOf_textOf {r : Reference} {text : String} (h : textOf r = some text) : referenceOf text = some r := by
  cases r with
  | blank =>
      cases h
      rfl
  | invoice invoiceId =>
      cases h
      have hkind : referenceOf ("invoice:" ++ invoiceId) = some (.invoice (String.ofList invoiceId.toList)) :=
        referenceOf_kind "invoice".toList (by simp) (by simp)
      rw [hkind, String.ofList_toList]
  | x402 transaction =>
      cases h
      have hkind : referenceOf ("x402:" ++ transaction) = some (.x402 (String.ofList transaction.toList)) :=
        referenceOf_kind "x402".toList (by simp) (by simp)
      rw [hkind, String.ofList_toList]
  | run runId =>
      cases h
      have hkind : referenceOf ("run:" ++ runId) = some (.run (String.ofList runId.toList)) :=
        referenceOf_kind "run".toList (by simp) (by simp)
      rw [hkind, String.ofList_toList]
  | grant planId renewsAt =>
      obtain ⟨s, hs, rfl⟩ := Option.map_eq_some_iff.1 h
      have hkind : referenceOf ("grant:" ++ periodKey planId s) =
          (datedOf (periodKey planId s).toList).map fun p => .grant p.1 p.2 :=
        referenceOf_kind "grant".toList (by simp) (by simp)
      rw [hkind, datedOf_periodKey hs]
      rfl
  | chain planId started =>
      cases h
      have hkind : referenceOf ("chain:" ++ (planId ++ ":" ++ toString started)) =
          some (.chain (numberedOf (planId.toList ++ ':' :: (toString started).toList)).1
            (numberedOf (planId.toList ++ ':' :: (toString started).toList)).2) :=
        referenceOf_kind "chain".toList (by simp) (by simp)
      rw [hkind, numberedOf_text, String.ofList_toList]
  | expiry planId renewsAt =>
      obtain ⟨s, hs, rfl⟩ := Option.map_eq_some_iff.1 h
      have hkind : referenceOf ("expiry:" ++ periodKey planId s) =
          (datedOf (periodKey planId s).toList).map fun p => .expiry p.1 p.2 :=
        referenceOf_kind "expiry".toList (by simp) (by simp)
      rw [hkind, datedOf_periodKey hs]
      rfl

theorem textOf_inj {r r' : Reference} {text : String} (h : textOf r = some text) (h' : textOf r' = some text) : r = r' := by
  have hr := referenceOf_textOf h
  rw [referenceOf_textOf h'] at hr
  exact (Option.some.inj hr).symm

theorem textOf_empty {r : Reference} {text : String} (h : textOf r = some text) : text = "" ↔ r = .blank := by
  constructor
  · rintro rfl
    exact textOf_inj h rfl
  · rintro rfl
    exact (Option.some.inj h).symm

end Texts

end CodeZard.Namings
