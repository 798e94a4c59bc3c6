import CodeZard.StoredRows

namespace CodeZard.Chronology

open SqliteStore StoredRows Tables Timestamps Values

def daysBeforeMonth (year month : Nat) : Nat := ((List.range (month - 1)).map fun m => daysInMonth year (m + 1)).sum

/-- `date.toordinal`. -/
def ordinal (year month day : Nat) : Nat := daysBeforeYear year + daysBeforeMonth year month + day

def timeOfDay (hour minute second microsecond : Nat) : Nat := ((hour * 60 + minute) * 60 + second) * 1000000 + microsecond

/-- When a time is, in microseconds of UTC. -/
def instant (s : Stamp) : Int :=
  ordinal s.year s.month s.day * DAY + timeOfDay s.hour s.minute s.second s.microsecond - s.offset

section Calendar

variable {year month day year' month' day' : Nat}

theorem daysBeforeMonth_succ (hm : 1 ≤ month) (year : Nat) :
    daysBeforeMonth year (month + 1) = daysBeforeMonth year month + daysInMonth year month := by
  obtain ⟨m, rfl⟩ := Nat.exists_eq_add_of_le' hm
  simp [daysBeforeMonth, List.range_succ]

theorem daysBeforeMonth_mono (hm : 1 ≤ month) (h : month ≤ month') (year : Nat) :
    daysBeforeMonth year month ≤ daysBeforeMonth year month' := by
  induction month', h using Nat.le_induction with
  | base => exact Nat.le_refl _
  | succ n hn ih =>
      rw [daysBeforeMonth_succ (hm.trans hn)]
      exact ih.trans (Nat.le_add_right _ _)

theorem daysBeforeMonth_all (year : Nat) : daysBeforeMonth year 13 = if leap year then 366 else 365 := by
  have hlist : daysBeforeMonth year 13 = 31 + ((if leap year then 29 else 28) + 306) := by
    simp [daysBeforeMonth, List.range, List.range.loop, daysInMonth]
  rw [hlist]
  split <;> rfl

theorem daysBeforeYear_succ (hy : 1 ≤ year) :
    daysBeforeYear (year + 1) = daysBeforeYear year + daysBeforeMonth year 13 := by
  obtain ⟨y, rfl⟩ := Nat.exists_eq_add_of_le' hy
  have hfew : y / 100 ≤ y / 4 := Nat.div_le_div_left (by decide) (by decide)
  have hleap : leap (y + 1) = decide (4 ∣ y + 1 ∧ (¬ 100 ∣ y + 1 ∨ 400 ∣ y + 1)) := by
    simp [leap, Nat.dvd_iff_mod_eq_zero]
  have hfour : 100 ∣ y + 1 → 4 ∣ y + 1 := (by decide : 4 ∣ 100).trans
  have hcentury : 400 ∣ y + 1 → 100 ∣ y + 1 := (by decide : 100 ∣ 400).trans
  rw [daysBeforeMonth_all, hleap, daysBeforeYear, daysBeforeYear, Nat.add_sub_cancel, Nat.add_sub_cancel, Nat.succ_div,
    Nat.succ_div, Nat.succ_div]
  by_cases h4 : 4 ∣ y + 1
  · by_cases h100 : 100 ∣ y + 1
    · by_cases h400 : 400 ∣ y + 1
      · simp [h4, h100, h400]
        omega
      · simp [h4, h100, h400]
        omega
    · have h400 : ¬ 400 ∣ y + 1 := mt hcentury h100
      simp [h4, h100, h400]
      omega
  · have h100 : ¬ 100 ∣ y + 1 := mt hfour h4
    have h400 : ¬ 400 ∣ y + 1 := mt hcentury h100
    simp [h4, h100, h400]
    omega

theorem daysBeforeYear_mono (hy : 1 ≤ year) (h : year ≤ year') : daysBeforeYear year ≤ daysBeforeYear year' := by
  induction year', h using Nat.le_induction with
  | base => exact Nat.le_refl _
  | succ n hn ih =>
      rw [daysBeforeYear_succ (hy.trans hn)]
      exact ih.trans (Nat.le_add_right _ _)

theorem ordinal_le (hm : 1 ≤ month) (hd : day ≤ daysInMonth year month) (h : month < month') :
    ordinal year month day ≤ daysBeforeYear year + daysBeforeMonth year month' := by
  have hnext := daysBeforeMonth_succ hm year
  have hmono : daysBeforeMonth year (month + 1) ≤ daysBeforeMonth year month' :=
    daysBeforeMonth_mono (Nat.le_succ_of_le hm) h year
  rw [ordinal]
  omega

theorem ordinal_lt_of_month (hm : 1 ≤ month) (hd : day ≤ daysInMonth year month) (hd' : 1 ≤ day') (h : month < month') :
    ordinal year month day < ordinal year month' day' := by
  have hle := ordinal_le hm hd h
  rw [ordinal.eq_def year month' day']
  omega

theorem ordinal_lt_of_year (hy : 1 ≤ year) (hm : 1 ≤ month ∧ month ≤ 12) (hd : day ≤ daysInMonth year month)
    (hd' : 1 ≤ day') (h : year < year') : ordinal year month day < ordinal year' month' day' := by
  have hle : ordinal year month day ≤ daysBeforeYear year + daysBeforeMonth year 13 :=
    ordinal_le hm.1 hd (Nat.lt_succ_of_le hm.2)
  have hnext := daysBeforeYear_succ hy
  have hmono : daysBeforeYear (year + 1) ≤ daysBeforeYear year' := daysBeforeYear_mono (Nat.le_succ_of_le hy) h
  rw [ordinal.eq_def year' month' day']
  omega

end Calendar

section Texts

variable {k a b : Nat} {xs ys : List Char}

theorem digitChar_lt {d e : Nat} (hd : d < 10) (he : e < 10) : Nat.digitChar d < Nat.digitChar e ↔ d < e := by
  have hd' := Nat.toNat_digitChar_of_lt_ten hd
  have he' := Nat.toNat_digitChar_of_lt_ten he
  have hlt : Nat.digitChar d < Nat.digitChar e ↔ (Nat.digitChar d).toNat < (Nat.digitChar e).toNat := UInt32.lt_iff_toNat_lt
  rw [hlt, hd', he', Nat.add_lt_add_iff_left]

theorem digitChar_inj {d e : Nat} (hd : d < 10) (he : e < 10) : Nat.digitChar d = Nat.digitChar e ↔ d = e := by
  rw [← Char.toNat_inj, Nat.toNat_digitChar_of_lt_ten hd, Nat.toNat_digitChar_of_lt_ten he]
  omega

theorem padded_lt (ha : a < 10 ^ k) (hb : b < 10 ^ k) :
    padded k a ++ xs < padded k b ++ ys ↔ a < b ∨ a = b ∧ xs < ys := by
  induction k generalizing a b xs ys with
  | zero =>
      obtain rfl := Nat.lt_one_iff.1 ha
      obtain rfl := Nat.lt_one_iff.1 hb
      simp [padded]
  | succ k ih =>
      rw [Nat.pow_succ] at ha hb
      have hlast (n : Nat) : n % 10 < 10 := Nat.mod_lt n (by decide)
      rw [padded, padded, List.append_assoc, List.append_assoc, ih (by omega) (by omega), List.singleton_append,
        List.singleton_append, List.cons_lt_cons_iff, digitChar_lt (hlast a) (hlast b), digitChar_inj (hlast a) (hlast b)]
      by_cases hxy : xs < ys
      · simp only [hxy, and_true]
        omega
      · simp only [hxy, and_false, or_false]
        omega

theorem cons_lt (c : Char) : c :: xs < c :: ys ↔ xs < ys := by
  rw [List.cons_lt_cons_iff]
  simp

theorem fraction_lt (ha : a < 1000000) (hb : b < 1000000) :
    (if a = 0 then [] else '.' :: padded 6 a) ++ offsetText 0 < (if b = 0 then [] else '.' :: padded 6 b) ++ offsetText 0 ↔
      a < b := by
  have hzone : offsetText 0 = ['+', '0', '0', ':', '0', '0'] := by decide
  split <;> split
  · simp_all
  · rename_i hpos
    rw [hzone, List.nil_append, List.cons_append, List.cons_lt_cons_iff]
    refine iff_of_true (.inl (by decide)) (by omega)
  · rename_i hpos _
    rw [hzone, List.nil_append, List.cons_append, List.cons_lt_cons_iff]
    refine iff_of_false ?_ (by omega)
    rintro (hlt | ⟨heq, _⟩)
    · exact absurd hlt (by decide)
    · exact absurd heq (by decide)
  · rw [List.cons_append, List.cons_append, cons_lt, padded_lt (by omega) (by omega)]
    simp

theorem clockText_lt {hour minute second microsecond hour' minute' second' microsecond' : Nat}
    (h : hour < 24 ∧ minute < 60 ∧ second < 60 ∧ microsecond < 1000000)
    (h' : hour' < 24 ∧ minute' < 60 ∧ second' < 60 ∧ microsecond' < 1000000) :
    clockText hour minute second microsecond ++ offsetText 0 < clockText hour' minute' second' microsecond' ++ offsetText 0 ↔
      timeOfDay hour minute second microsecond < timeOfDay hour' minute' second' microsecond' := by
  simp only [clockText, List.append_assoc, List.cons_append]
  rw [padded_lt (by omega) (by omega), cons_lt, padded_lt (by omega) (by omega), cons_lt, padded_lt (by omega) (by omega),
    fraction_lt (by omega) (by omega), timeOfDay, timeOfDay]
  omega

theorem dateText_lt (s t : Stamp) :
    dateText s.year s.month s.day ++ 'T' :: xs < dateText t.year t.month t.day ++ 'T' :: ys ↔
      ordinal s.year s.month s.day < ordinal t.year t.month t.day ∨
        ordinal s.year s.month s.day = ordinal t.year t.month t.day ∧ xs < ys := by
  have hlong (year month : Nat) : daysInMonth year month ≤ 31 := by
    unfold daysInMonth
    split
    · split <;> omega
    · split <;> omega
  obtain ⟨hy, hm, hd, _, _⟩ := s.valid
  obtain ⟨hy', hm', hd', _, _⟩ := t.valid
  have hd31 := hd.2.trans (hlong _ _)
  have hd31' := hd'.2.trans (hlong _ _)
  simp only [dateText, List.append_assoc, List.cons_append]
  rw [padded_lt (by omega) (by omega), cons_lt, padded_lt (by omega) (by omega), cons_lt, padded_lt (by omega) (by omega),
    cons_lt]
  rcases lt_trichotomy s.year t.year with hyear | hyear | hyear
  · exact iff_of_true (.inl hyear) (.inl (ordinal_lt_of_year hy.1 hm hd.2 hd'.1 hyear))
  · rcases lt_trichotomy s.month t.month with hmonth | hmonth | hmonth
    · refine iff_of_true (.inr ⟨hyear, .inl hmonth⟩) (.inl ?_)
      rw [hyear] at hd ⊢
      exact ordinal_lt_of_month hm.1 hd.2 hd'.1 hmonth
    · rw [hyear, hmonth, ordinal, ordinal]
      simp
    · have hless : ordinal t.year t.month t.day < ordinal s.year s.month s.day := by
        rw [hyear]
        exact ordinal_lt_of_month hm'.1 hd'.2 hd.1 hmonth
      refine iff_of_false ?_ ?_ <;> omega
  · have hless : ordinal t.year t.month t.day < ordinal s.year s.month s.day :=
      ordinal_lt_of_year hy'.1 hm' hd'.2 hd.1 hyear
    refine iff_of_false ?_ ?_ <;> omega

theorem timeOfDay_lt (s : Stamp) : (timeOfDay s.hour s.minute s.second s.microsecond : Int) < DAY := by
  obtain ⟨hh, hm, hs, hu⟩ := s.valid.time
  have hday : DAY = 86400000000 := rfl
  rw [timeOfDay, hday]
  omega

theorem isoformat_lt {s t : Stamp} (hs : s.offset = 0) (ht : t.offset = 0) :
    isoformat s < isoformat t ↔ instant s < instant t := by
  have hday : DAY = 86400000000 := rfl
  have hsday := timeOfDay_lt s
  have htday := timeOfDay_lt t
  rw [String.lt_iff, isoformat, isoformat, String.toList_ofList, String.toList_ofList, hs, ht, dateText_lt,
    clockText_lt s.valid.time t.valid.time, instant, instant, hs, ht]
  rw [hday] at hsday htday ⊢
  omega

theorem isoformat_le {s t : Stamp} (hs : s.offset = 0) (ht : t.offset = 0) :
    isoformat s ≤ isoformat t ↔ instant s ≤ instant t := by
  rw [← String.not_lt, isoformat_lt ht hs, not_lt]

end Texts

/-- Invoices that are open, the oldest first, so many of them as there may be. -/
structure Oldest (limit : Int) (stored found : List Invoice) : Prop where
  open_ : ∃ left, (found ++ left).Perm (stored.filter fun i => i.status = .pending) ∧
    ∀ i ∈ found, ∀ j ∈ left, instant i.createdAt ≤ instant j.createdAt
  ordered : found.Pairwise fun i j => instant i.createdAt ≤ instant j.createdAt
  many : (found.length : Int) = min limit (stored.filter fun i => i.status = .pending).length

section Queries

variable {db : Database} {stored : List Invoice} {limit : Int}

theorem status_pending (i : Invoice) :
    (invoiceRow i).status = invoiceStatusValue .pending ↔ i.status = .pending := by
  rw [invoiceRow]
  cases i.status <;> simp [invoiceStatusValue]

theorem mapM_invoiceOf (is : List Invoice) : (is.map invoiceRow).mapM invoiceOf = .ok is := by
  induction is with
  | nil => rfl
  | cons i is ih =>
      rw [List.map_cons, List.mapM_cons, invoiceOf_invoiceRow, ih]
      rfl

def byText (i j : Invoice) : Prop := isoformat i.createdAt ≤ isoformat j.createdAt

instance : DecidableRel byText := fun i j => inferInstanceAs (Decidable (isoformat i.createdAt ≤ isoformat j.createdAt))

theorem openInvoices_eq (h : db.invoices = stored.map invoiceRow) (hlimit : fits (max 1 limit) = true) :
    db.openInvoices limit =
      .ok (((stored.filter fun i => i.status = .pending).insertionSort byText).take (max 1 limit).toNat) := by
  have hfilter : (db.invoices.filter fun row => row.status = invoiceStatusValue .pending) =
      (stored.filter fun i => i.status = .pending).map invoiceRow := by
    rw [h, List.filter_map]
    congr 2
    funext i
    exact decide_eq_decide.2 (status_pending i)
  have hsort : (((stored.filter fun i => i.status = .pending).map invoiceRow).insertionSort fun x y =>
      x.createdAt ≤ y.createdAt) = ((stored.filter fun i => i.status = .pending).insertionSort byText).map invoiceRow :=
    (List.map_insertionSort _ _ invoiceRow _ fun _ _ _ _ => Iff.rfl).symm
  rw [Database.openInvoices, hlimit, hfilter, hsort, ← List.map_take, mapM_invoiceOf]
  rfl

instance : Std.Total byText := ⟨fun i j => String.le_total (isoformat i.createdAt) (isoformat j.createdAt)⟩

instance : IsTrans Invoice byText := ⟨fun _ _ _ => String.le_trans⟩

theorem oldest_take (hutc : ∀ i ∈ stored, i.createdAt.offset = 0) (hlimit : 1 ≤ limit) :
    Oldest limit stored (((stored.filter fun i => i.status = .pending).insertionSort byText).take (max 1 limit).toNat) := by
  have hperm := List.perm_insertionSort byText (stored.filter fun i => i.status = .pending)
  have hsorted := List.pairwise_insertionSort byText (stored.filter fun i => i.status = .pending)
  have hmem : ∀ i ∈ (stored.filter fun i => i.status = .pending).insertionSort byText, i.createdAt.offset = 0 := by
    intro i hi
    exact hutc i (List.mem_of_mem_filter (hperm.subset hi))
  have hlength := hperm.length_eq
  generalize (stored.filter fun i => i.status = .pending).insertionSort byText = sorted at *
  have hchrono : sorted.Pairwise fun i j => instant i.createdAt ≤ instant j.createdAt := by
    apply hsorted.imp_of_mem
    intro i j hi hj hij
    exact (isoformat_le (hmem i hi) (hmem j hj)).1 hij
  have hsplit := hchrono
  rw [← List.take_append_drop (max 1 limit).toNat sorted, List.pairwise_append] at hsplit
  refine ⟨⟨sorted.drop (max 1 limit).toNat, ?_, hsplit.2.2⟩, hsplit.1, ?_⟩
  · rwa [List.take_append_drop]
  · rw [List.length_take, hlength]
    omega

theorem rows_run (ops : List Op) : ∀ row ∈ (run ops).invoices, ∃ i ∈ puts ops, Keeps row i := by
  induction ops using List.reverseRecOn with
  | nil =>
      intro row hrow
      cases hrow
  | append_singleton ops op ih =>
      have hmore : ∀ i ∈ puts ops, i ∈ puts (ops ++ [op]) := by
        intro i hi
        rw [puts, List.filterMap_append]
        exact List.mem_append_left _ hi
      have hold : ∀ row ∈ (run ops).invoices, ∃ i ∈ puts (ops ++ [op]), Keeps row i := by
        intro row hrow
        obtain ⟨i, hi, hkeeps⟩ := ih row hrow
        exact ⟨i, hmore i hi, hkeeps⟩
      rw [run, List.foldl_append]
      cases op with
      | append e => exact (append_invoices e).symm ▸ hold
      | putSubscription s => exact hold
      | putInvoice i =>
          change ∀ row ∈ ((run ops).putInvoice i).2.invoices, _
          rw [Database.putInvoice]
          split
          · exact hold
          · intro row hrow
            rcases mem_upsert hrow with hmem | rfl | ⟨old, hmem, rfl⟩
            · exact hold row hmem
            · exact ⟨i, by simp [puts], keeps_self i⟩
            · obtain ⟨j, hj, hkeeps⟩ := hold old hmem
              exact ⟨j, hj, keeps_updated hkeeps i⟩

theorem stored_run {ops : List Op} (hutc : ∀ i ∈ puts ops, i.createdAt.offset = 0) :
    ∃ stored : List Invoice, (run ops).invoices = stored.map invoiceRow ∧ ∀ i ∈ stored, i.createdAt.offset = 0 := by
  have hrows := rows_run ops
  generalize (run ops).invoices = rows at hrows
  induction rows with
  | nil => exact ⟨[], rfl, by simp⟩
  | cons row rows ih =>
      obtain ⟨stored, rfl, hstored⟩ := ih fun row hrow => hrows row (List.mem_cons_of_mem _ hrow)
      obtain ⟨i, hi, status, txHash, payer, rfl⟩ := hrows row List.mem_cons_self
      exact ⟨_ :: stored, rfl, List.forall_mem_cons.2 ⟨hutc i hi, hstored⟩⟩

theorem fits_limit (h : limit < 2 ^ 63) : fits (max 1 limit) = true := by
  simp only [fits, Bool.and_eq_true, decide_eq_true_eq]
  omega

theorem openInvoices_run {ops : List Op} (hutc : ∀ i ∈ puts ops, i.createdAt.offset = 0) (hlimit : 1 ≤ limit)
    (hfits : limit < 2 ^ 63) : ∃ stored found, (run ops).invoices = stored.map invoiceRow ∧
      (run ops).openInvoices limit = .ok found ∧ Oldest limit stored found := by
  obtain ⟨stored, hrows, hstored⟩ := stored_run hutc
  exact ⟨stored, _, hrows, openInvoices_eq hrows (fits_limit hfits), oldest_take hstored hlimit⟩

end Queries

/-- Times in UTC are stored in an order that is theirs and are read back, and
the invoices that are open come the oldest first. -/
theorem chronological :
    (∀ s t : Stamp, s.offset = 0 → t.offset = 0 → (isoformat s < isoformat t ↔ instant s < instant t)) ∧
    (∀ s : Stamp, s.offset = 0 → time (isoformat s) = .ok s) ∧
    ∀ (db : Database) (stored : List Invoice) (limit : Int), db.invoices = stored.map invoiceRow →
      (∀ i ∈ stored, i.createdAt.offset = 0) → 1 ≤ limit → limit < 2 ^ 63 →
        ∃ found, db.openInvoices limit = .ok found ∧ Oldest limit stored found := by
  refine ⟨fun s t => isoformat_lt, fun s _ => time_isoformat s, ?_⟩
  intro db stored limit hrows hutc hlimit hfits
  exact ⟨_, openInvoices_eq hrows (fits_limit hfits), oldest_take hutc hlimit⟩

def invoiceAt (id : String) (createdAt : Stamp) : Invoice :=
  { id := id, account := "acct", sku := "pack", tokens := 10, price := ⟨5⟩, asset := "native", amount := "1", destination := "G",
    createdAt := createdAt, expiresAt := noon }

def later : Stamp := ⟨{ noon.toFields with microsecond := 500000 }, by decide⟩

theorem chronological_noon : isoformat noon < isoformat later ∧ ∃ found,
    ({ invoices := [invoiceRow (invoiceAt "a" later), invoiceRow (invoiceAt "b" noon)] } : Database).openInvoices 1 = .ok found ∧
      Oldest 1 [invoiceAt "a" later, invoiceAt "b" noon] found :=
  ⟨(chronological.1 noon later rfl rfl).2 (by decide), chronological.2.2 _ [_, _] 1 rfl (by decide) (by decide) (by decide)⟩

/-- More than a column takes is no limit. -/
theorem limit_overflows : ¬ ∀ (db : Database) (stored : List Invoice) (limit : Int), db.invoices = stored.map invoiceRow →
    (∀ i ∈ stored, i.createdAt.offset = 0) → 1 ≤ limit →
      ∃ found, db.openInvoices limit = .ok found ∧ Oldest limit stored found := by
  intro h
  obtain ⟨found, hfound, _⟩ := h {} [] (2 ^ 63) rfl (by simp) (by decide)
  have hraised : ({} : Database).openInvoices (2 ^ 63) = .error overflowError := by decide +kernel
  rw [hraised] at hfound
  cases hfound

end CodeZard.Chronology
