import Dwater.Base.Types
import Dwater.Base.Date

/-! # Universal time

A `time_t` counts seconds from 1 January 1970. `ToUtcTime` splits it into a date and a
time of the day, and `FromUtcTime` puts them together again. Nothing results where a
signed type overflows; the narrowing casts to `int` wrap around.
-/

set_option autoImplicit false
namespace Dwater

open Checked Calendar

abbrev CTime := Checked (2 ^ 63)

def castInt (n : ℤ) : ℤ := n.bmod (2 ^ 32)

/-- `struct tm`; the time zone is the text up to its terminating zero. -/
structure Tm where
  tmSec : ℤ := 0
  tmMin : ℤ := 0
  tmHour : ℤ := 0
  tmMday : ℤ := 0
  tmMon : ℤ := 0
  tmYear : ℤ := 0
  tmWday : ℤ := 0
  tmYday : ℤ := 0
  tmIsdst : ℤ := 0
  tmGmtoff : ℤ := 0
  tmZone : Option (List Char) := none
  deriving DecidableEq, Repr

def Tm.day (t : Tm) : YearMonthDay := ⟨t.tmYear + 1900, t.tmMon + 1, t.tmMday⟩

/-- `FillHMS`; the arithmetic is that of `unsigned`. -/
def fillHMS (seconds : ℤ) (utc : Tm) : Tm :=
  let seconds := seconds % 2 ^ 32
  let minutes := seconds / 60
  { utc with tmSec := seconds % 60, tmMin := minutes % 60, tmHour := minutes / 60 }

def ksecondsPerDay : ℤ := 24 * 60 * 60

namespace TimeZone

/-- The quotient and the remainder of `ToUtcTime`, with the correction for negative times. -/
def splitDays (secondsSinceEpoch : ℤ) : Option (ℤ × ℤ) :=
  let seconds := castInt (secondsSinceEpoch.tmod ksecondsPerDay)
  let days := castInt (secondsSinceEpoch.tdiv ksecondsPerDay)
  if seconds < 0 then do
    let seconds ← (ofInt seconds + ofInt ksecondsPerDay : CInt).value
    let days ← (ofInt days - 1 : CInt).value
    return (seconds, days)
  else some (seconds, days)

def toUtcTime (secondsSinceEpoch : ℤ) (yday : Bool) : Option Tm := do
  let (seconds, days) ← splitDays secondsSinceEpoch
  let utc := fillHMS seconds { tmZone := some "GMT".toList }
  let number ← (ofInt days + ofInt Date.kjulianDayOf19700101 : CInt).value
  let date : Date := ⟨number⟩
  let ymd ← date.yearMonthDay
  let year ← (ofInt ymd.year - 1900 : CInt).value
  let mon ← (ofInt ymd.month - 1 : CInt).value
  let wday ← date.weekDay
  let utc := { utc with tmYear := year, tmMon := mon, tmMday := ymd.day, tmWday := wday }
  if yday then
    let startOfYear ← Date.new (ofInt ymd.year) 1 1
    let days ← (ofInt date.julianDayNumber - ofInt startOfYear.julianDayNumber : CInt).value
    return { utc with tmYday := days }
  else return utc

/-- `FromUtcTime(int year, int month, int day, int hour, int minute, int seconds)`. -/
def fromFields (year month day hour minute seconds : CInt) : Option ℤ := do
  let date ← Date.new year month day
  let secondsInDay ← (hour * 3600 + minute * 60 + seconds).value
  let days ← (ofInt date.julianDayNumber - ofInt Date.kjulianDayOf19700101 : CInt).value
  (ofInt days * ofInt ksecondsPerDay + ofInt secondsInDay : CTime).value

def fromUtcTime (utc : Tm) : Option ℤ :=
  fromFields (ofInt utc.tmYear + 1900) (ofInt utc.tmMon + 1) (ofInt utc.tmMday)
    (ofInt utc.tmHour) (ofInt utc.tmMin) (ofInt utc.tmSec)

end TimeZone

def utcOf (d : YearMonthDay) (s : ℤ) (yday : Bool) : Tm where
  tmSec := s % 60
  tmMin := s / 60 % 60
  tmHour := s / 60 / 60
  tmMday := d.day
  tmMon := d.month - 1
  tmYear := d.year - 1900
  tmWday := d.weekday
  tmYday := if yday then d.ofYear else 0
  tmZone := some "GMT".toList

@[simp] theorem utcOf_day {d : YearMonthDay} {s : ℤ} {yday : Bool} : (utcOf d s yday).day = d := by
  simp [utcOf, Tm.day]

namespace TimeZone

variable {d : YearMonthDay} {n s : ℤ}

theorem castInt_of_fits {a : ℤ} (h : -2 ^ 31 ≤ a) (h' : a < 2 ^ 31) : castInt a = a :=
  Int.bmod_eq_of_le (by omega) (by omega)

theorem splitDays_eq (hs : 0 ≤ s) (hs' : s < 86400) (hn : -2440588 ≤ n) (hn' : n ≤ 536838867) :
    splitDays (n * 86400 + s) = some (s, n) := by
  have hk : ksecondsPerDay = 86400 := rfl
  simp only [splitDays, hk]
  by_cases hsplit : 0 ≤ n * 86400 + s ∨ (86400 : ℤ) ∣ n * 86400 + s
  · have hmod : (n * 86400 + s).tmod 86400 = s := by
      rw [Int.tmod_eq_emod, if_pos hsplit]
      omega
    have hdiv : (n * 86400 + s).tdiv 86400 = n := by
      rw [Int.tdiv_eq_ediv, if_pos hsplit]
      omega
    rw [hmod, hdiv, castInt_of_fits (by omega) (by omega), castInt_of_fits (by omega) (by omega),
      if_neg (by omega)]
  · have hmod : (n * 86400 + s).tmod 86400 = s - 86400 := by
      rw [Int.tmod_eq_emod, if_neg hsplit]
      omega
    have hdiv : (n * 86400 + s).tdiv 86400 = n + 1 := by
      have hsign : Int.sign 86400 = 1 := rfl
      rw [Int.tdiv_eq_ediv, if_neg hsplit, hsign]
      omega
    rw [hmod, hdiv, castInt_of_fits (by omega) (by omega), castInt_of_fits (by omega) (by omega),
      if_pos (by omega)]
    simp (disch := omega) only [ofNat_eq, ofInt_add, ofInt_sub, value_ofInt]
    simp

theorem fillHMS_eq {utc : Tm} (hs : 0 ≤ s) (hs' : s < 86400) :
    fillHMS s utc =
      { utc with tmSec := s % 60, tmMin := s / 60 % 60, tmHour := s / 60 / 60 } := by
  have hmod : s % 2 ^ 32 = s := Int.emod_eq_of_lt hs (by omega)
  simp only [fillHMS, hmod]

theorem julianDay_start : julianDay ⟨d.year, 1, 1⟩ = julianDay d - d.ofYear := by
  simp only [julianDay, Day.number, Day.ofYear, daysBeforeMonth_one]
  omega

theorem valid_start (y : ℤ) : Day.Valid ⟨y, 1, 1⟩ :=
  ⟨le_rfl, show (1 : ℤ) ≤ 12 by decide, le_rfl, Int.add_one_le_of_lt (monthLength_pos _ _)⟩

theorem new_start (hv : d.Valid) (hj : 0 ≤ julianDay d) (hj' : julianDay d ≤ 536838867) :
    Date.new (ofInt d.year) 1 1 = some ⟨julianDay d - d.ofYear⟩ := by
  have ho := hv.ofYear_nonneg
  have ho' := hv.ofYear_lt
  have hl : yearLength d.year ≤ 366 := yearLength_le _
  have hjs := julianDay_start (d := d)
  have hm : FromMarch ⟨d.year, 1, 1⟩ := (fromMarch_iff (valid_start d.year)).mpr (by omega)
  have hnew := Date.new_eq (valid_start d.year) hm (by omega)
  rw [hjs] at hnew
  exact hnew

theorem toUtcTime_eq (hv : d.Valid) (hj : 0 ≤ julianDay d) (hj' : julianDay d ≤ 536838867)
    (hs : 0 ≤ s) (hs' : s < 86400) (yday : Bool) :
    toUtcTime (d.number * 86400 + s) yday = some (utcOf d s yday) := by
  have hm : FromMarch d := (fromMarch_iff hv).mpr (by omega)
  have hnum : julianDay d = d.number + 2440588 := rfl
  have hnumber : (ofInt d.number + ofInt Date.kjulianDayOf19700101 : CInt).value =
      some (julianDay d) := by
    have hk : Date.kjulianDayOf19700101 = 2440588 := rfl
    rw [hk, ofInt_add (by omega) (by omega), value_ofInt, hnum]
  have hyear : (ofInt d.year - 1900 : CInt).value = some (d.year - 1900) := by
    have hbounds := year_bounds hv hm (by omega)
    rw [ofNat_eq, ofInt_sub (by omega) (by omega), value_ofInt]
  have hmonth : (ofInt d.month - 1 : CInt).value = some (d.month - 1) := by
    have hpos := hv.month_pos
    have hle := hv.month_le
    rw [ofNat_eq, ofInt_sub (by omega) (by omega), value_ofInt]
  have hdays : (ofInt (julianDay d) - ofInt (julianDay d - d.ofYear) : CInt).value =
      some d.ofYear := by
    have ho := hv.ofYear_nonneg
    have ho' := hv.ofYear_lt
    have hl : yearLength d.year ≤ 366 := yearLength_le _
    rw [ofInt_sub (by omega) (by omega), value_ofInt, sub_sub_cancel]
  have hweek : Date.weekDay ⟨julianDay d⟩ = some d.weekday := by
    have hw : (julianDay d + 1) % 7 = d.weekday := by
      rw [hnum, Day.weekday]
      omega
    rw [Date.weekDay_eq hj (by omega), hw]
  rw [toUtcTime, splitDays_eq hs hs' (by omega) (by omega)]
  simp only [Option.bind_eq_bind, Option.bind_some, hnumber, hyear, hmonth, hdays, hweek,
    Date.yearMonthDay_julianDay hv hm hj', new_start hv hj hj', fillHMS_eq hs hs']
  cases yday with
  | true => rfl
  | false => rfl

theorem fromFields_eq {h mi sec : ℤ} (hv : d.Valid) (hj : 0 ≤ julianDay d)
    (hj' : julianDay d ≤ 536838867) (hh : 0 ≤ h ∧ h < 24) (hmi : 0 ≤ mi ∧ mi < 60)
    (hsec : 0 ≤ sec ∧ sec < 60) :
    fromFields (ofInt d.year) (ofInt d.month) (ofInt d.day) (ofInt h) (ofInt mi) (ofInt sec) =
      some (d.number * 86400 + (h * 3600 + mi * 60 + sec)) := by
  have hm : FromMarch d := (fromMarch_iff hv).mpr (by omega)
  have hk : Date.kjulianDayOf19700101 = 2440588 := rfl
  have hday : ksecondsPerDay = 86400 := rfl
  have hnum : julianDay d = d.number + 2440588 := rfl
  have hnew := Date.new_eq hv hm (by omega)
  rw [fromFields, hnew]
  simp (disch := omega) only [Option.bind_eq_bind, Option.bind_some, hk, hday, ofInt_add,
    value_ofInt, ofInt_sub, ofInt_mul, ofNat_eq]
  congr 1
  omega

theorem fromUtcTime_utcOf (hv : d.Valid) (hj : 0 ≤ julianDay d) (hj' : julianDay d ≤ 536838867)
    (hs : 0 ≤ s) (hs' : s < 86400) (yday : Bool) :
    fromUtcTime (utcOf d s yday) = some (d.number * 86400 + s) := by
  have hm : FromMarch d := (fromMarch_iff hv).mpr (by omega)
  have hyear := year_bounds hv hm (by omega)
  have hmonth := hv.month_pos
  have hmonth' := hv.month_le
  have hh : 0 ≤ s / 60 / 60 ∧ s / 60 / 60 < 24 := by omega
  have hmi : 0 ≤ s / 60 % 60 ∧ s / 60 % 60 < 60 := by omega
  have hsec : 0 ≤ s % 60 ∧ s % 60 < 60 := by omega
  have hfields := fromFields_eq hv hj hj' hh hmi hsec
  unfold fromUtcTime utcOf
  simp (disch := omega) only [ofNat_eq, ofInt_add, sub_add_cancel, hfields]
  congr 1
  omega

end TimeZone

def gmtimeR (t : ℤ) : Tm := utcOf (dayAfter (t / 86400 + 2472632)) (t % 86400) true

/-- `timegm`, which brings the month into the year and reads no other field than these. -/
def timegm (t : Tm) : ℤ :=
  (Day.number ⟨t.tmYear + 1900 + t.tmMon / 12, t.tmMon % 12 + 1, 1⟩ + (t.tmMday - 1)) * 86400 +
    t.tmHour * 3600 + t.tmMin * 60 + t.tmSec

theorem timegm_utcOf {d : YearMonthDay} {s : ℤ} (hv : d.Valid) (yday : Bool) :
    timegm (utcOf d s yday) = d.number * 86400 + s := by
  have hmonth := hv.month_pos
  have hmonth' := hv.month_le
  have hy : d.year - 1900 + 1900 + (d.month - 1) / 12 = d.year := by omega
  have hm : (d.month - 1) % 12 + 1 = d.month := by omega
  have hnum : Day.number ⟨d.year, d.month, 1⟩ + (d.day - 1) = d.number := by
    simp only [Day.number, Day.ofYear]
    omega
  simp only [timegm, utcOf, hy, hm, hnum]
  omega

/-- `timegm` is the inverse of `gmtime_r`, whatever the fields of the time zone. -/
theorem timegm_gmtimeR (t isdst gmtoff : ℤ) (zone : Option (List Char)) :
    timegm { gmtimeR t with tmIsdst := isdst, tmGmtoff := gmtoff, tmZone := zone } = t := by
  obtain ⟨hv, hj⟩ := dayAfter_spec (t / 86400 + 2472632)
  have hnum : julianDay (dayAfter (t / 86400 + 2472632)) =
      (dayAfter (t / 86400 + 2472632)).number + 2440588 := rfl
  have ht := timegm_utcOf (s := t % 86400) hv true
  refine Eq.trans ht ?_
  omega

open TimeZone in
/--
`ToUtcTime` gives a valid date and time of the day, the day of the week and the day of the year,
from which `FromUtcTime` recovers the seconds; and it gives back every valid date and time
of the day that `FromUtcTime` has made seconds of.
-/
theorem utc_round_trip :
    (∀ t : ℤ, 0 ≤ t / 86400 + 2440588 → t / 86400 + 2440588 ≤ 536838867 →
      ∃ u, toUtcTime t true = some u ∧ (0 ≤ u.tmSec ∧ u.tmSec < 60) ∧
        (0 ≤ u.tmMin ∧ u.tmMin < 60) ∧ (0 ≤ u.tmHour ∧ u.tmHour < 24) ∧ u.day.Valid ∧
        u.tmWday = u.day.weekday ∧ (0 ≤ u.tmWday ∧ u.tmWday ≤ 6) ∧
        u.tmYday = u.day.ofYear ∧ (0 ≤ u.tmYday ∧ u.tmYday ≤ 365) ∧ fromUtcTime u = some t) ∧
    ∀ (d : YearMonthDay) (h mi s : ℤ), d.Valid → 0 ≤ julianDay d → julianDay d ≤ 536838867 →
      (0 ≤ h ∧ h < 24) → (0 ≤ mi ∧ mi < 60) → (0 ≤ s ∧ s < 60) → ∀ yday,
      ∃ t u, fromFields (ofInt d.year) (ofInt d.month) (ofInt d.day) (ofInt h) (ofInt mi)
          (ofInt s) = some t ∧
        toUtcTime t yday = some u ∧ u.day = d ∧ u.tmHour = h ∧ u.tmMin = mi ∧ u.tmSec = s := by
  constructor
  · intro t h h'
    obtain ⟨d, -, hv, hj⟩ := Date.yearMonthDay_eq (j := t / 86400 + 2440588) (by omega) h'
    have hnum : d.number = t / 86400 := add_right_cancel hj
    have ht : d.number * 86400 + t % 86400 = t := by omega
    have hs : 0 ≤ t % 86400 := by omega
    have hs' : t % 86400 < 86400 := by omega
    have hto := toUtcTime_eq hv (by omega) (by omega) hs hs' true
    have hfrom := fromUtcTime_utcOf hv (by omega) (by omega) hs hs' true
    have ho := hv.ofYear_lt.trans_le (yearLength_le _)
    have hday : (utcOf d (t % 86400) true).day = d := utcOf_day
    rw [ht] at hto hfrom
    have hsec : 0 ≤ t % 86400 % 60 ∧ t % 86400 % 60 < 60 := by omega
    have hmin : 0 ≤ t % 86400 / 60 % 60 ∧ t % 86400 / 60 % 60 < 60 := by omega
    have hhour : 0 ≤ t % 86400 / 60 / 60 ∧ t % 86400 / 60 / 60 < 24 := by omega
    refine ⟨_, hto, hsec, hmin, hhour, ?_⟩
    rw [hday]
    exact ⟨hv, rfl, d.weekday_range, rfl, ⟨hv.ofYear_nonneg, by simp only [utcOf]; omega⟩, hfrom⟩
  · intro d h mi s hv hj hj' hh hmi hs yday
    have hto := toUtcTime_eq (s := h * 3600 + mi * 60 + s) hv hj hj' (by omega) (by omega) yday
    refine ⟨_, _, fromFields_eq hv hj hj' hh hmi hs, hto, ?_, ?_, ?_, ?_⟩
    · exact utcOf_day
    · simp only [utcOf]
      omega
    · simp only [utcOf]
      omega
    · simp only [utcOf]
      omega

theorem utc_round_trip_before_epoch :
    ∃ u, TimeZone.toUtcTime (-1) true = some u ∧ (0 ≤ u.tmSec ∧ u.tmSec < 60) ∧
      (0 ≤ u.tmMin ∧ u.tmMin < 60) ∧ (0 ≤ u.tmHour ∧ u.tmHour < 24) ∧ u.day.Valid ∧
      u.tmWday = u.day.weekday ∧ (0 ≤ u.tmWday ∧ u.tmWday ≤ 6) ∧
      u.tmYday = u.day.ofYear ∧ (0 ≤ u.tmYday ∧ u.tmYday ≤ 365) ∧
      TimeZone.fromUtcTime u = some (-1) :=
  utc_round_trip.1 (-1) (by decide) (by decide)

end Dwater
