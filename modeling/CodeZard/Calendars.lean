import CodeZard.Chronology
import Mathlib.Data.Nat.Find

namespace CodeZard.Calendars

open Chronology Timestamps

def EPOCH : Int := 719163 * DAY

def yearOf (days : Nat) : Nat := Nat.findGreatest (fun year => daysBeforeYear year < days) (days / 365 + 1)

def monthOf (year days : Nat) : Nat := Nat.findGreatest (fun month => daysBeforeMonth year month < days) 12

def fieldsOf (t : Int) : Fields :=
  let days := ((t + EPOCH) / DAY).toNat
  let micros := ((t + EPOCH) % DAY).toNat
  let year := yearOf days
  let month := monthOf year (days - daysBeforeYear year)
  { year := year
    month := month
    day := days - daysBeforeYear year - daysBeforeMonth year month
    hour := micros / 3600000000
    minute := micros / 60000000 % 60
    second := micros / 1000000 % 60
    microsecond := micros % 1000000 }

/-- `datetime.fromtimestamp` in UTC, for what a `datetime` can say. -/
def stampOf (t : Int) : Option Stamp :=
  if h : 0 < t + EPOCH ∧ (fieldsOf t).Valid then some ⟨fieldsOf t, h.2⟩ else none

section Days

variable {year month day days : Nat}

theorem daysBeforeYear_ge (year : Nat) : (year - 1) * 365 ≤ daysBeforeYear year := by
  rw [daysBeforeYear]
  omega

theorem yearOf_ordinal (hy : 1 ≤ year) (hm : 1 ≤ month ∧ month ≤ 12) (hd : 1 ≤ day ∧ day ≤ daysInMonth year month) :
    yearOf (ordinal year month day) = year := by
  have hle : ordinal year month day ≤ daysBeforeYear year + daysBeforeMonth year 13 :=
    ordinal_le hm.1 hd.2 (Nat.lt_succ_of_le hm.2)
  have hlow := daysBeforeYear_ge year
  have hnext := daysBeforeYear_succ hy
  rw [yearOf, Nat.findGreatest_eq_iff]
  refine ⟨?_, fun _ => ?_, fun n hn _ => ?_⟩
  · have hbelow : (year - 1) * 365 ≤ ordinal year month day := by
      rw [ordinal]
      omega
    have hdiv := Nat.div_le_div_right (c := 365) hbelow
    rw [Nat.mul_div_cancel _ (by decide)] at hdiv
    omega
  · rw [ordinal]
    omega
  · have hmono : daysBeforeYear (year + 1) ≤ daysBeforeYear n := daysBeforeYear_mono (Nat.le_succ_of_le hy) hn
    omega

theorem monthOf_days (hm : 1 ≤ month ∧ month ≤ 12) (hd : 1 ≤ day ∧ day ≤ daysInMonth year month) :
    monthOf year (daysBeforeMonth year month + day) = month := by
  rw [monthOf, Nat.findGreatest_eq_iff]
  refine ⟨hm.2, fun _ => by omega, fun n hn _ => ?_⟩
  have hnext := daysBeforeMonth_succ hm.1 year
  have hmono : daysBeforeMonth year (month + 1) ≤ daysBeforeMonth year n := daysBeforeMonth_mono (Nat.le_succ_of_le hm.1) hn year
  omega

theorem ordinal_days (h : 1 ≤ days) : ordinal (yearOf days) (monthOf (yearOf days) (days - daysBeforeYear (yearOf days)))
    (days - daysBeforeYear (yearOf days) - daysBeforeMonth (yearOf days)
      (monthOf (yearOf days) (days - daysBeforeYear (yearOf days)))) = days := by
  have hyear : daysBeforeYear (yearOf days) < days :=
    Nat.findGreatest_spec (P := fun year => daysBeforeYear year < days) (m := 1) (by omega) (by rw [daysBeforeYear]; omega)
  generalize yearOf days = year at *
  have hmonth : daysBeforeMonth year (monthOf year (days - daysBeforeYear year)) < days - daysBeforeYear year := by
    have hfirst : daysBeforeMonth year 1 = 0 := rfl
    exact Nat.findGreatest_spec (P := fun month => daysBeforeMonth year month < days - daysBeforeYear year) (m := 1)
      (by decide) (by omega)
  rw [ordinal]
  omega

end Days

section Instants

variable {s : Stamp} {t : Int}

theorem timeOfDay_micros (n : Nat) :
    timeOfDay (n / 3600000000) (n / 60000000 % 60) (n / 1000000 % 60) (n % 1000000) = n := by
  rw [timeOfDay]
  omega

theorem parts_of_day (days : Nat) {micros : Nat} (h : (micros : Int) < DAY) :
    ((days * DAY + micros : Int) / DAY).toNat = days ∧ ((days * DAY + micros : Int) % DAY).toNat = micros := by
  have hparts := (Int.ediv_emod_unique (a := days * DAY + micros) (r := micros) (q := days) (by decide : 0 < DAY)).2
    ⟨by rw [Int.mul_comm, Int.add_comm], Int.natCast_nonneg _, h⟩
  rw [hparts.1, hparts.2]
  exact ⟨Int.toNat_natCast _, Int.toNat_natCast _⟩

theorem stampOf_sound (h : stampOf t = some s) : s.offset = 0 ∧ instant s = t + EPOCH := by
  rw [stampOf] at h
  split at h
  swap
  · cases h
  rename_i hv
  cases h
  refine ⟨rfl, ?_⟩
  have hday : DAY = 86400000000 := rfl
  have hdays : 1 ≤ ((t + EPOCH) / DAY).toNat := by
    by_contra hc
    have hzero : ((t + EPOCH) / DAY).toNat = 0 := by omega
    have hyear := hv.2.day.1
    simp only [fieldsOf, hzero] at hyear
    omega
  simp only [instant, fieldsOf]
  rw [ordinal_days hdays, timeOfDay_micros, hday] at *
  omega

theorem stampOf_complete (hs : s.offset = 0) : stampOf (instant s - EPOCH) = some s := by
  obtain ⟨hy, hm, hd, ⟨hhour, hminute, hsecond, hmicro⟩, _⟩ := s.valid
  have hinstant : instant s =
      ordinal s.year s.month s.day * DAY + timeOfDay s.hour s.minute s.second s.microsecond := by
    rw [instant, hs]
    omega
  obtain ⟨hdays, hmicros⟩ := parts_of_day (ordinal s.year s.month s.day) (timeOfDay_lt s)
  rw [← hinstant, ← Int.sub_add_cancel (instant s) EPOCH] at hdays hmicros
  have hfields : fieldsOf (instant s - EPOCH) = s.toFields := by
    have hrest : ordinal s.year s.month s.day - daysBeforeYear s.year = daysBeforeMonth s.year s.month + s.day := by
      rw [ordinal]
      omega
    simp only [fieldsOf]
    rw [hdays, hmicros, yearOf_ordinal hy.1 hm hd, hrest, monthOf_days hm hd, timeOfDay]
    obtain ⟨⟨year, month, day, hour, minute, second, microsecond, offset⟩, hvalid⟩ := s
    simp only [Fields.mk.injEq, true_and]
    simp only at hs hhour hminute hsecond hmicro
    omega
  have hpos : 0 < instant s - EPOCH + EPOCH := by
    have hone : 1 ≤ ordinal s.year s.month s.day := by
      rw [ordinal]
      omega
    have hday : DAY = 86400000000 := rfl
    rw [Int.sub_add_cancel, hinstant, hday]
    omega
  have hvalid : 0 < instant s - EPOCH + EPOCH ∧ (fieldsOf (instant s - EPOCH)).Valid := ⟨hpos, hfields ▸ s.valid⟩
  rw [stampOf, dif_pos hvalid]
  congr 1
  obtain ⟨fields, hf⟩ := s
  simp only at hfields
  simp only [hfields]

end Instants

end CodeZard.Calendars
