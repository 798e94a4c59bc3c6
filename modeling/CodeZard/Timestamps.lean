import CodeZard.Values

namespace CodeZard.Timestamps

open Values

def leap (year : Nat) : Bool := year % 4 = 0 && (year % 100 ≠ 0 || year % 400 = 0)

def daysInMonth (year month : Nat) : Nat :=
  if month = 2 then if leap year then 29 else 28
  else if month = 4 ∨ month = 6 ∨ month = 9 ∨ month = 11 then 30
  else 31

/-- The microseconds of a day. -/
def DAY : Int := 86400000000

/-- The fields of a `datetime`, and its offset from UTC in microseconds. -/
structure Fields where
  year : Nat
  month : Nat
  day : Nat
  hour : Nat := 0
  minute : Nat := 0
  second : Nat := 0
  microsecond : Nat := 0
  offset : Int := 0
  deriving DecidableEq, Repr

structure Fields.Valid (f : Fields) : Prop where
  year : 1 ≤ f.year ∧ f.year ≤ 9999
  month : 1 ≤ f.month ∧ f.month ≤ 12
  day : 1 ≤ f.day ∧ f.day ≤ daysInMonth f.year f.month
  time : f.hour < 24 ∧ f.minute < 60 ∧ f.second < 60 ∧ f.microsecond < 1000000
  offset : -DAY < f.offset ∧ f.offset < DAY

instance (f : Fields) : Decidable f.Valid :=
  decidable_of_iff ((1 ≤ f.year ∧ f.year ≤ 9999) ∧ (1 ≤ f.month ∧ f.month ≤ 12) ∧
    (1 ≤ f.day ∧ f.day ≤ daysInMonth f.year f.month) ∧
    (f.hour < 24 ∧ f.minute < 60 ∧ f.second < 60 ∧ f.microsecond < 1000000) ∧ (-DAY < f.offset ∧ f.offset < DAY))
    ⟨fun h => ⟨h.1, h.2.1, h.2.2.1, h.2.2.2.1, h.2.2.2.2⟩, fun h => ⟨h.year, h.month, h.day, h.time, h.offset⟩⟩

/-- A `datetime` with its timezone attached. -/
structure Stamp extends Fields where
  valid : toFields.Valid
  deriving DecidableEq

def padded : Nat → Nat → List Char
  | 0, _ => []
  | k + 1, n => padded k (n / 10) ++ [Nat.digitChar (n % 10)]

def clockText (hour minute second microsecond : Nat) : List Char :=
  padded 2 hour ++ ':' :: (padded 2 minute ++ ':' :: (padded 2 second ++
    if microsecond = 0 then [] else '.' :: padded 6 microsecond))

def offsetText (offset : Int) : List Char :=
  let n := offset.natAbs
  let seconds := n / 1000000
  (if offset < 0 then '-' else '+') ::
    if seconds % 60 = 0 ∧ n % 1000000 = 0 then padded 2 (seconds / 3600) ++ ':' :: padded 2 (seconds / 60 % 60)
    else clockText (seconds / 3600) (seconds / 60 % 60) (seconds % 60) (n % 1000000)

def dateText (year month day : Nat) : List Char :=
  padded 4 year ++ '-' :: (padded 2 month ++ '-' :: padded 2 day)

/-- `datetime.isoformat`. -/
def isoformat (s : Stamp) : String :=
  String.ofList (dateText s.year s.month s.day ++ 'T' :: (clockText s.hour s.minute s.second s.microsecond ++
    offsetText s.offset))

def digitOf (c : Char) : Option Nat := if 48 ≤ c.toNat ∧ c.toNat ≤ 57 then some (c.toNat - 48) else none

def number (n : Nat) : List Char → Option Nat
  | [] => some n
  | c :: cs => (digitOf c).bind fun d => number (10 * n + d) cs

def taken (k : Nat) (cs : List Char) : Option (Nat × List Char) :=
  if cs.length < k then none else (number 0 (cs.take k)).map fun n => (n, cs.drop k)

def fraction : List Char → Option Nat
  | [] => some 0
  | c :: cs =>
      if (c = '.' ∨ c = ',') ∧ cs ≠ [] ∧ cs.all fun d => (digitOf d).isSome then
        number 0 ((cs ++ List.replicate 6 '0').take 6)
      else none

structure Clock where
  hour : Nat
  minute : Nat := 0
  second : Nat := 0
  microsecond : Nat := 0
  deriving DecidableEq

def secondsOf (hour minute : Nat) (cs : List Char) : Option Clock := do
  let (second, rest) ← taken 2 cs
  let microsecond ← fraction rest
  return ⟨hour, minute, second, microsecond⟩

def minutesOf (separated : Bool) (hour : Nat) (cs : List Char) : Option Clock := do
  let (minute, rest) ← taken 2 cs
  if rest = [] then return { hour := hour, minute := minute }
  else if !separated then secondsOf hour minute rest
  else if rest.head? = some ':' then secondsOf hour minute rest.tail
  else none

def clockOf (cs : List Char) : Option Clock := do
  let (hour, rest) ← taken 2 cs
  if rest = [] then return { hour := hour }
  else if rest.head? = some ':' then minutesOf true hour rest.tail
  else minutesOf false hour rest

def daysBeforeYear (year : Nat) : Nat := (year - 1) * 365 + (year - 1) / 4 - (year - 1) / 100 + (year - 1) / 400

def monthOf (year : Nat) : Nat → Nat → Nat → Nat × Nat
  | 0, month, days => (month, days + 1)
  | left + 1, month, days =>
      if daysInMonth year month ≤ days then monthOf year left (month + 1) (days - daysInMonth year month)
      else (month, days + 1)

def dateOfDays (year days : Nat) : Nat × Nat × Nat :=
  let length := if leap year then 366 else 365
  if length ≤ days then let (month, day) := monthOf (year + 1) 11 1 (days - length); (year + 1, month, day)
  else let (month, day) := monthOf year 11 1 days; (year, month, day)

def weekDate (year week day : Nat) : Option (Nat × Nat × Nat) :=
  let weekday := daysBeforeYear year % 7
  let long := weekday = 3 ∨ (weekday = 2 ∧ leap year = true)
  if (1 ≤ year ∧ year ≤ 9999) ∧ (1 ≤ week ∧ (week ≤ 52 ∨ (week = 53 ∧ long))) ∧ 1 ≤ day ∧ day ≤ 7 then
    let first : Int := if 3 < weekday then 7 - weekday else -weekday
    let days : Int := first + ((week - 1) * 7 + (day - 1) : Nat)
    if 0 ≤ days then some (dateOfDays year days.toNat)
    else some (dateOfDays (year - 1) ((if leap (year - 1) then 366 else 365) - days.natAbs))
  else none

def weekOf (separated : Bool) (year : Nat) (cs : List Char) : Option (Nat × Nat × Nat) := do
  let (week, rest) ← taken 2 cs
  if rest = [] then weekDate year week 1
  else if separated ∧ rest.head? ≠ some '-' then none
  else do
    let (day, rest) ← taken 1 (if separated then rest.tail else rest)
    if rest = [] then weekDate year week day else none

def dateOf (cs : List Char) : Option (Nat × Nat × Nat) := do
  let (year, rest) ← taken 4 cs
  let separated : Bool := rest.head? = some '-'
  let rest := if separated then rest.tail else rest
  if rest.head? = some 'W' then weekOf separated year rest.tail
  else do
    let (month, rest) ← taken 2 rest
    if separated ∧ rest.head? ≠ some '-' then none
    else do
      let (day, rest) ← taken 2 (if separated then rest.tail else rest)
      if rest = [] then return (year, month, day) else none

def dateLength (cs : List Char) : Nat :=
  if cs.length = 7 then 7
  else if cs[4]? = some '-' then
    if cs[5]? = some 'W' then
      if cs[8]? = some '-' then if (cs[10]?.bind digitOf).isSome then 8 else 10 else 8
    else 10
  else if cs[4]? = some 'W' then
    let digits := 7 + ((cs.drop 7).takeWhile fun c => (digitOf c).isSome).length
    if digits < 9 then digits else if digits % 2 = 0 then 7 else 8
  else 8

def signs : List Char := ['+', '-', 'Z']

def timeOf (cs : List Char) : Option (Clock × Option Int) := do
  let (time, zone) := cs.span fun c => !signs.contains c
  let clock ← clockOf time
  match zone with
  | [] => return (clock, none)
  | sign :: rest =>
      if sign = 'Z' then if rest = [] then return (clock, some 0) else none
      else do
        let z ← clockOf rest
        let n : Int := ((z.hour * 3600 + z.minute * 60 + z.second) * 1000000 + z.microsecond : Nat)
        return (clock, some (if sign = '-' then -n else n))

/-- `datetime.fromisoformat`, before the fields are checked: the fields, and the
offset apart. -/
def fromisoformat (cs : List Char) : Option (Fields × Option Int) := do
  if cs.length < 7 then none
  else do
    let n := dateLength cs
    let (year, month, day) ← dateOf (cs.take n)
    let (clock, offset) ← if cs.length ≤ n then some ({ hour := 0 }, none) else timeOf (cs.drop (n + 1))
    return (⟨year, month, day, clock.hour, clock.minute, clock.second, clock.microsecond, 0⟩, offset)

/-- `_time`: a time without a zone counts as UTC. -/
def time (value : String) : Except Failure Stamp :=
  match fromisoformat value.toList with
  | some (fields, offset) =>
      let fields := { fields with offset := offset.getD 0 }
      if h : fields.Valid then .ok ⟨fields, h⟩
      else .error (.exception "ValueError" ("Invalid isoformat string: " ++ Json.quoted value))
  | none => .error (.exception "ValueError" ("Invalid isoformat string: " ++ Json.quoted value))

section Digits

theorem digitOf_digitChar {d : Nat} (h : d < 10) : digitOf (Nat.digitChar d) = some d := by
  rw [digitOf, Nat.toNat_digitChar_of_lt_ten h, if_pos (by omega), Nat.add_sub_cancel_left]

@[simp] theorem length_padded (k n : Nat) : (padded k n).length = k := by
  induction k generalizing n with
  | zero => rfl
  | succ k ih => simp [padded, ih]

theorem number_append (n : Nat) (cs ds : List Char) : number n (cs ++ ds) = (number n cs).bind fun m => number m ds := by
  induction cs generalizing n with
  | nil => rfl
  | cons c cs ih =>
      rw [List.cons_append, number, number, Option.bind_assoc]
      congr 1
      funext d
      exact ih _

theorem number_padded {k n : Nat} (h : n < 10 ^ k) (m : Nat) : number m (padded k n) = some (m * 10 ^ k + n) := by
  induction k generalizing n with
  | zero => simp [padded, number, Nat.lt_one_iff.1 h]
  | succ k ih =>
      have hdiv : n / 10 < 10 ^ k := by
        rw [Nat.pow_succ] at h
        omega
      rw [padded, number_append, ih hdiv]
      simp only [Option.bind_some, number, digitOf_digitChar (Nat.mod_lt n (by omega : 0 < 10))]
      rw [Nat.pow_succ]
      have hm : m * (10 ^ k * 10) = 10 * (m * 10 ^ k) := by rw [← Nat.mul_assoc, Nat.mul_comm]
      congr 1
      omega

theorem taken_correct {k n : Nat} (h : n < 10 ^ k) (rest : List Char) : taken k (padded k n ++ rest) = some (n, rest) := by
  have hlen : ¬ (padded k n ++ rest).length < k := by simp
  rw [taken, if_neg hlen, List.take_left' (length_padded k n), List.drop_left' (length_padded k n), number_padded h]
  simp

theorem padded_digits {k n : Nat} {c : Char} (h : c ∈ padded k n) : ∃ d < 10, c = Nat.digitChar d := by
  induction k generalizing n with
  | zero => cases h
  | succ k ih =>
      rcases List.mem_append.1 h with h | h
      · exact ih h
      · exact ⟨n % 10, Nat.mod_lt n (by omega), List.mem_singleton.1 h⟩

theorem fraction_correct {n : Nat} (h : n < 1000000) : fraction ('.' :: padded 6 n) = some n := by
  have hne : padded 6 n ≠ [] := by
    intro he
    simpa [he] using length_padded 6 n
  have hall : (padded 6 n).all (fun d => (digitOf d).isSome) = true := by
    refine List.all_eq_true.2 fun c hc => ?_
    obtain ⟨d, hd, rfl⟩ := padded_digits hc
    rw [digitOf_digitChar hd]
    rfl
  rw [fraction, if_pos ⟨.inl rfl, hne, hall⟩, List.take_left' (length_padded 6 n), number_padded h]
  simp

end Digits

section Texts

theorem head_padded {k n : Nat} {rest : List Char} {c : Char} (hk : k ≠ 0) (hc : digitOf c = none) :
    (padded k n ++ rest).head? ≠ some c := by
  intro h
  have hne : padded k n ≠ [] := fun he => hk (by simpa [he] using (length_padded k n).symm)
  have hm : c ∈ padded k n := by
    rw [List.head?_append_of_ne_nil _ hne] at h
    exact List.mem_of_mem_head? h
  obtain ⟨d, hd, rfl⟩ := padded_digits hm
  rw [digitOf_digitChar hd] at hc
  cases hc

theorem dateOf_correct {year month day : Nat} (hy : year < 10000) (hm : month < 100) (hd : day < 100) :
    dateOf (dateText year month day) = some (year, month, day) := by
  have hday := taken_correct (k := 2) (by omega : day < 10 ^ 2) []
  rw [List.append_nil] at hday
  have hmonth := taken_correct (k := 2) (by omega : month < 10 ^ 2) ('-' :: padded 2 day)
  have hyear := taken_correct (k := 4) (by omega : year < 10 ^ 4) ('-' :: (padded 2 month ++ '-' :: padded 2 day))
  have hw : (padded 2 month ++ '-' :: padded 2 day).head? ≠ some 'W' := head_padded (by decide) rfl
  simp [dateOf, dateText, hyear, hmonth, hday, hw, -List.head?_append]

theorem secondsOf_correct (hour minute : Nat) {second microsecond : Nat} (hs : second < 100) (hu : microsecond < 1000000) :
    secondsOf hour minute (padded 2 second ++ if microsecond = 0 then [] else '.' :: padded 6 microsecond) =
      some ⟨hour, minute, second, microsecond⟩ := by
  have hfrac : fraction (if microsecond = 0 then [] else '.' :: padded 6 microsecond) = some microsecond := by
    split
    · subst microsecond
      rfl
    · exact fraction_correct hu
  rw [secondsOf, taken_correct (by omega)]
  simp [hfrac]

theorem clockOf_correct {hour minute second microsecond : Nat} (hh : hour < 100) (hm : minute < 100) (hs : second < 100)
    (hu : microsecond < 1000000) :
    clockOf (clockText hour minute second microsecond) = some ⟨hour, minute, second, microsecond⟩ := by
  rw [clockOf, clockText, taken_correct (by omega)]
  simp only [Option.bind_eq_bind, Option.bind_some, List.head?_cons, if_true, List.tail_cons, reduceCtorEq, if_false]
  rw [minutesOf, taken_correct (by omega)]
  simpa using secondsOf_correct hour minute hs hu

theorem clockOf_short {hour minute : Nat} (hh : hour < 100) (hm : minute < 100) :
    clockOf (padded 2 hour ++ ':' :: padded 2 minute) = some { hour := hour, minute := minute } := by
  have hminute := taken_correct (k := 2) (by omega : minute < 10 ^ 2) []
  rw [List.append_nil] at hminute
  rw [clockOf, taken_correct (by omega)]
  simp [minutesOf, hminute]

theorem length_dateText (year month day : Nat) : (dateText year month day).length = 10 := by simp [dateText]

theorem dateLength_correct (year month day : Nat) (rest : List Char) :
    dateLength (dateText year month day ++ rest) = 10 := by
  have hlen : (dateText year month day ++ rest).length ≠ 7 := by
    rw [List.length_append, length_dateText]
    omega
  have htail : dateText year month day ++ rest =
      padded 4 year ++ '-' :: (padded 2 month ++ ('-' :: padded 2 day ++ rest)) := by simp [dateText]
  have hat (i : Nat) (l : List Char) : (padded 4 year ++ l)[4 + i]? = l[i]? := by
    rw [List.getElem?_append_right (by simp), length_padded, Nat.add_sub_cancel_left]
  have hdash : (dateText year month day ++ rest)[4]? = some '-' := by
    rw [htail]
    exact hat 0 _
  have hweek : (dateText year month day ++ rest)[5]? ≠ some 'W' := by
    rw [htail, hat 1 _, List.getElem?_cons_succ, ← List.head?_eq_getElem?]
    exact head_padded (by decide) rfl
  rw [dateLength, if_neg hlen, if_pos hdash, if_neg hweek]

theorem mem_clockText {hour minute second microsecond : Nat} {c : Char}
    (h : c ∈ clockText hour minute second microsecond) : c = ':' ∨ c = '.' ∨ ∃ d < 10, c = Nat.digitChar d := by
  simp only [clockText, List.mem_append, List.mem_cons] at h
  rcases h with h | rfl | h | rfl | h | h
  · exact .inr (.inr (padded_digits h))
  · exact .inl rfl
  · exact .inr (.inr (padded_digits h))
  · exact .inl rfl
  · exact .inr (.inr (padded_digits h))
  · split at h
    · cases h
    · rcases List.mem_cons.1 h with rfl | h
      · exact .inr (.inl rfl)
      · exact .inr (.inr (padded_digits h))

theorem not_sign_of_mem {hour minute second microsecond : Nat} {c : Char}
    (h : c ∈ clockText hour minute second microsecond) : (!signs.contains c) = true := by
  rcases mem_clockText h with rfl | rfl | ⟨d, hd, rfl⟩
  · rfl
  · rfl
  · have hnone {s : Char} (hs : digitOf s = none) : Nat.digitChar d ≠ s := by
      rintro rfl
      rw [digitOf_digitChar hd] at hs
      cases hs
    simp [signs, hnone (s := '+') rfl, hnone (s := '-') rfl, hnone (s := 'Z') rfl]

theorem zone_correct {n : Nat} (hn : n < 86400000000) :
    ∃ z : Clock, clockOf (if n / 1000000 % 60 = 0 ∧ n % 1000000 = 0 then
        padded 2 (n / 1000000 / 3600) ++ ':' :: padded 2 (n / 1000000 / 60 % 60)
      else clockText (n / 1000000 / 3600) (n / 1000000 / 60 % 60) (n / 1000000 % 60) (n % 1000000)) = some z ∧
      (z.hour * 3600 + z.minute * 60 + z.second) * 1000000 + z.microsecond = n := by
  split
  · exact ⟨_, clockOf_short (by omega) (by omega), by dsimp only; omega⟩
  · exact ⟨_, clockOf_correct (by omega) (by omega) (by omega) (by omega), by dsimp only; omega⟩

theorem timeOf_correct {hour minute second microsecond : Nat} (hh : hour < 100) (hm : minute < 100) (hs : second < 100)
    (hu : microsecond < 1000000) {offset : Int} (ho : -DAY < offset ∧ offset < DAY) :
    timeOf (clockText hour minute second microsecond ++ offsetText offset) =
      some (⟨hour, minute, second, microsecond⟩, some offset) := by
  have hn : offset.natAbs < 86400000000 := by
    have hday : DAY = 86400000000 := rfl
    omega
  obtain ⟨z, hz, hsum⟩ := zone_correct hn
  have hspan : (clockText hour minute second microsecond ++ offsetText offset).span (fun c => !signs.contains c) =
      (clockText hour minute second microsecond, offsetText offset) := by
    have hoff : ∃ sign rest, offsetText offset = sign :: rest ∧ sign ∈ signs := by
      refine ⟨_, _, rfl, ?_⟩
      split <;> simp [signs]
    obtain ⟨sign, rest, he, hsign⟩ := hoff
    rw [List.span_eq_takeWhile_dropWhile, List.takeWhile_append_of_pos fun c => not_sign_of_mem,
      List.dropWhile_append_of_pos fun c => not_sign_of_mem, he]
    simp [hsign]
  rw [timeOf, hspan]
  simp only [clockOf_correct hh hm hs hu, Option.bind_eq_bind, Option.bind_some, offsetText, hz]
  by_cases hneg : offset < 0
  · have hn' : (((z.hour * 3600 + z.minute * 60 + z.second) * 1000000 + z.microsecond : Nat) : Int) = -offset := by omega
    simp only [hneg, if_true, hn']
    simp
  · have hn' : (((z.hour * 3600 + z.minute * 60 + z.second) * 1000000 + z.microsecond : Nat) : Int) = offset := by omega
    simp only [hneg, if_false, hn']
    simp

end Texts

theorem fromisoformat_isoformat (s : Stamp) : fromisoformat (isoformat s).toList =
    some ({ s.toFields with offset := 0 }, some s.offset) := by
  obtain ⟨hy, hm, hd, ⟨hh, hmin, hs, hu⟩, ho⟩ := s.valid
  have hmonth : daysInMonth s.year s.month ≤ 31 := by
    unfold daysInMonth
    split
    · split <;> omega
    · split <;> omega
  have hlen := length_dateText s.year s.month s.day
  rw [isoformat, String.toList_ofList, fromisoformat]
  simp only [dateLength_correct, List.take_left' hlen, dateOf_correct (by omega : s.year < 10000)
    (by omega : s.month < 100) (by omega : s.day < 100)]
  have hdrop (l : List Char) : (dateText s.year s.month s.day ++ 'T' :: l).drop (10 + 1) = l := by
    rw [List.drop_append, hlen]
    simp [hlen]
  rw [hdrop, timeOf_correct (by omega) (by omega) (by omega) hu ho]
  have hlong : ¬ (dateText s.year s.month s.day ++ 'T' :: (clockText s.hour s.minute s.second s.microsecond ++
      offsetText s.offset)).length ≤ 10 := by
    rw [List.length_append, hlen, List.length_cons]
    omega
  rw [if_neg (by omega), Option.bind_eq_bind, Option.bind_some, if_neg hlong]
  rfl

theorem time_isoformat (s : Stamp) : time (isoformat s) = .ok s := by
  have hvalid : ({ s.toFields with offset := s.offset } : Fields).Valid := s.valid
  simp only [time, fromisoformat_isoformat, Option.getD_some]
  rw [dif_pos hvalid]

end CodeZard.Timestamps
