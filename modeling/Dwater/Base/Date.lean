import Dwater.Lib.Calendar
import Dwater.Lib.Checked
import Mathlib.Tactic.Linarith

/-! # Dates

A date is a Julian day number in an `int`, computed from a year, a month and a day and
back. The computation gives nothing where an `int` overflows. On the days that the
numbers from -32044 to 536838867 stand for it agrees with the Gregorian calendar.
-/

set_option autoImplicit false
namespace Dwater

open Checked Calendar

abbrev CInt := Checked (2 ^ 31)

abbrev YearMonthDay := Calendar.Day

def getJulianDayNumber (year month day : CInt) : CInt :=
  let a := (14 - month) / 12
  let y := year + 4800 - a
  let m := month + 12 * a - 3
  day + (153 * m + 2) / 5 + y * 365 + y / 4 - y / 100 + y / 400 - 32045

def getYearMonthDay (julianDayNumber : CInt) : Option YearMonthDay :=
  let a := julianDayNumber + 32044
  let b := (4 * a + 3) / 146097
  let c := a - b * 146097 / 4
  let d := (4 * c + 3) / 1461
  let e := c - 1461 * d / 4
  let m := (5 * e + 2) / 153
  do
    let day ← (e - (153 * m + 2) / 5 + 1).value
    let month ← (m + 3 - 12 * (m / 10)).value
    let year ← (b * 100 + d - 4800 + m / 10).value
    return ⟨year, month, day⟩

structure Date where
  julianDayNumber : ℤ
  deriving DecidableEq, Repr

namespace Date

def kdaysPerWeek : ℤ := 7

def kjulianDayOf19700101 : ℤ := 2440588

def new (year month day : CInt) : Option Date :=
  (getJulianDayNumber year month day).value.map Date.mk

def yearMonthDay (d : Date) : Option YearMonthDay := getYearMonthDay (ofInt d.julianDayNumber)

def weekDay (d : Date) : Option ℤ :=
  ((ofInt d.julianDayNumber + 1) % ofInt kdaysPerWeek : CInt).value

end Date

example : (getJulianDayNumber 1970 1 1).value = some Date.kjulianDayOf19700101 := by decide +kernel

/-- The Julian day number that the calendar gives to a day. -/
def julianDay (d : YearMonthDay) : ℤ := d.number + Date.kjulianDayOf19700101

def FromMarch (d : YearMonthDay) : Prop := -4800 < d.year ∨ d.year = -4800 ∧ 3 ≤ d.month

/-- The months from March to February, numbered from zero. -/
theorem month_of_march {m : ℤ} (h : 0 ≤ m) (h' : m ≤ 11) :
    1 ≤ m + 3 - 12 * (m / 10) ∧ m + 3 - 12 * (m / 10) ≤ 12 := by
  omega

def dayOfMarchYear (y e : ℤ) : YearMonthDay :=
  let m := (5 * e + 2) / 153
  ⟨y + m / 10, m + 3 - 12 * (m / 10), e - (153 * m + 2) / 5 + 1⟩

theorem dayOfMarchYear_valid {y e : ℤ} (h : 0 ≤ e) (h' : e ≤ 365)
    (hleap : e = 365 → IsLeap (y + 1)) : (dayOfMarchYear y e).Valid := by
  unfold dayOfMarchYear
  generalize hm : (5 * e + 2) / 153 = m
  have h₀ : 0 ≤ m := by omega
  have h₁ : m ≤ 11 := by omega
  have hmonth := month_of_march h₀ h₁
  constructor
  · exact hmonth.1
  · exact hmonth.2
  · show 1 ≤ e - (153 * m + 2) / 5 + 1
    omega
  · show e - (153 * m + 2) / 5 + 1 ≤ monthLength (y + m / 10) (m + 3 - 12 * (m / 10))
    by_cases hlast : e = 365
    · obtain rfl : m = 11 := by omega
      simp [monthLength, hleap hlast, hlast]
    · unfold monthLength
      interval_cases m <;> split_ifs <;> omega

theorem days_of_months {y m : ℤ} (h : 1 ≤ m) (h' : m ≤ 12) :
    (153 * (m + 12 * ((14 - m) / 12) - 3) + 2) / 5 + daysBeforeYear (y - (14 - m) / 12 + 1) =
      daysBeforeMonth y m + daysBeforeYear y + 306 := by
  rw [daysBeforeMonth_eq h (by omega)]
  by_cases hm : m ≤ 2
  · have ha : (14 - m) / 12 = 1 := by omega
    rw [if_pos hm, ha, sub_add_cancel]
    omega
  · have ha : (14 - m) / 12 = 0 := by omega
    rw [if_neg hm, ha, sub_zero, daysBeforeYear_succ, yearLength]
    interval_cases m <;> split_ifs <;> omega

theorem julianDay_dayOfMarchYear {y e : ℤ} (h : 0 ≤ e) (h' : e ≤ 365) :
    julianDay (dayOfMarchYear y e) = 365 * y + y / 4 - y / 100 + y / 400 + e + 1721120 := by
  unfold dayOfMarchYear
  generalize hm : (5 * e + 2) / 153 = m
  have h₀ : 0 ≤ m := by omega
  have h₁ : m ≤ 11 := by omega
  have hmonth := month_of_march h₀ h₁
  have hyear : (14 - (m + 3 - 12 * (m / 10))) / 12 = m / 10 := by omega
  have hmarch : m + 3 - 12 * (m / 10) + 12 * (m / 10) - 3 = m := by omega
  have hmonths := days_of_months (y := y + m / 10) hmonth.1 hmonth.2
  have hyears : daysBeforeYear (y + 1) = 365 * y + y / 4 - y / 100 + y / 400 := by
    rw [daysBeforeYear, add_sub_cancel_right]
  have hstart : daysBeforeYear 1970 = 719162 := by decide
  rw [hyear, hmarch, add_sub_cancel_right, hyears] at hmonths
  simp only [julianDay, Day.number, Day.ofYear, Date.kjulianDayOf19700101, hstart]
  linarith

theorem century_of_days {a b : ℤ} (hb : (4 * a + 3) / 146097 = b) :
    0 ≤ a - b * 146097 / 4 ∧ a - b * 146097 / 4 ≤ 36524 ∧
    (a - b * 146097 / 4 = 36524 → b % 4 = 3) := by
  have hdays : b * 146097 / 4 = 36524 * b + b / 4 := by omega
  rw [hdays]
  refine ⟨?_, ?_, ?_⟩
  · omega
  · omega
  · omega

theorem year_of_days {c d : ℤ} (h : 0 ≤ c) (h' : c ≤ 36524) (hd : (4 * c + 3) / 1461 = d) :
    0 ≤ d ∧ d ≤ 99 ∧ 0 ≤ c - 1461 * d / 4 ∧ c - 1461 * d / 4 ≤ 365 ∧
    (c - 1461 * d / 4 = 365 → d % 4 = 3 ∧ (d = 99 → c = 36524)) := by
  have hdays : 1461 * d / 4 = 365 * d + d / 4 := by omega
  rw [hdays]
  refine ⟨?_, ?_, ?_, ?_, ?_⟩
  · omega
  · omega
  · omega
  · omega
  · omega

/-- The leap years are the fourth years of a century, except for the last one of three
centuries in four. -/
theorem isLeap_of_last {b d : ℤ} (h₀ : 0 ≤ d) (h₁ : d ≤ 99) (h : d % 4 = 3)
    (h99 : d = 99 → b % 4 = 3) : IsLeap (b * 100 + d - 4800 + 1) := by
  unfold IsLeap
  constructor
  · omega
  · intro hcentury
    have h99' : d = 99 := by omega
    have hb := h99 h99'
    omega

/-- The day that lies `a` days after 1 March -4800, as the program divides it. -/
def dayAfter (a : ℤ) : YearMonthDay :=
  let b := (4 * a + 3) / 146097
  let c := a - b * 146097 / 4
  let d := (4 * c + 3) / 1461
  dayOfMarchYear (b * 100 + d - 4800) (c - 1461 * d / 4)

theorem dayAfter_spec (a : ℤ) : (dayAfter a).Valid ∧ julianDay (dayAfter a) = a - 32044 := by
  simp only [dayAfter]
  generalize hb : (4 * a + 3) / 146097 = b
  obtain ⟨hc₀, hc₁, hcb⟩ := century_of_days hb
  generalize hc : a - b * 146097 / 4 = c at hc₀ hc₁ hcb ⊢
  generalize hd : (4 * c + 3) / 1461 = d
  obtain ⟨hd₀, hd₁, he₀, he₁, hed⟩ := year_of_days hc₀ hc₁ hd
  generalize he : c - 1461 * d / 4 = e at he₀ he₁ hed ⊢
  have hleap : e = 365 → IsLeap (b * 100 + d - 4800 + 1) := by
    intro h365
    obtain ⟨h₁, h₂⟩ := hed h365
    exact isLeap_of_last hd₀ hd₁ h₁ fun h99 => hcb (h₂ h99)
  constructor
  · exact dayOfMarchYear_valid he₀ he₁ hleap
  · rw [julianDay_dayOfMarchYear he₀ he₁]
    have hcentury : b * 146097 / 4 = 36524 * b + b / 4 := by omega
    have hyear : 1461 * d / 4 = 365 * d + d / 4 := by omega
    have h4 : (b * 100 + d - 4800) / 4 = 25 * b + d / 4 - 1200 := by omega
    have h100 : (b * 100 + d - 4800) / 100 = b - 48 := by omega
    have h400 : (b * 100 + d - 4800) / 400 = b / 4 - 12 := by omega
    rw [h4, h100, h400]
    linarith

theorem getYearMonthDay_eq {j : ℤ} (h : -32044 ≤ j) (h' : j ≤ 536838867) :
    getYearMonthDay (ofInt j) = some (dayAfter (j + 32044)) := by
  unfold getYearMonthDay dayAfter
  extract_lets a b c d e m b' c' d'
  -- Each variable of the source holds the number of the same name, whose range is known before
  -- the next one is computed.
  have ha : a = ofInt (j + 32044) := ofInt_add (by omega) (by omega)
  have hb' : 0 ≤ b' ∧ b' ≤ 14700 := by omega
  have hc' : 0 ≤ c' ∧ c' ≤ 36524 := by
    obtain ⟨hc₀, hc₁, -⟩ := century_of_days (a := j + 32044) (b := b') rfl
    exact ⟨hc₀, hc₁⟩
  have hb : b = ofInt b' := by
    simp (disch := omega) only [b, ha, ofNat_eq, ofInt_add, ofInt_mul, ofInt_div]
    rfl
  clear_value b b'
  have hc : c = ofInt c' := by
    simp (disch := omega) only [c, ha, hb, ofNat_eq, ofInt_sub, ofInt_mul, ofInt_div]
    rfl
  clear_value a c c'
  obtain ⟨hd₀, hd₁, he₀, he₁, -⟩ := year_of_days hc'.1 hc'.2 (d := d') rfl
  have hd : d = ofInt d' := by
    simp (disch := omega) only [d, hc, ofNat_eq, ofInt_add, ofInt_mul, ofInt_div]
    rfl
  clear_value d d'
  have he : e = ofInt (c' - 1461 * d' / 4) := by
    simp (disch := omega) only [e, hc, hd, ofNat_eq, ofInt_sub, ofInt_mul, ofInt_div]
  generalize c' - 1461 * d' / 4 = e' at he₀ he₁ he ⊢
  unfold dayOfMarchYear
  extract_lets m'
  have hm' : 0 ≤ m' ∧ m' ≤ 11 := by omega
  have hm : m = ofInt m' := by
    simp (disch := omega) only [m, he, ofNat_eq, ofInt_add, ofInt_mul, ofInt_div]
    rfl
  clear_value e m m'
  simp (disch := omega) only [hb, hd, he, hm, ofNat_eq, ofInt_add, ofInt_sub, ofInt_mul,
    ofInt_div]
  rfl

theorem year_bounds {d : YearMonthDay} (hv : d.Valid) (hm : FromMarch d)
    (h : julianDay d ≤ 2146000000) : -4800 ≤ d.year ∧ d.year ≤ 5872000 := by
  constructor
  · rcases hm with hy | ⟨hy, -⟩ <;> omega
  · by_contra hy
    have hmono := daysBeforeYear_mono (show 5872001 ≤ d.year by omega)
    have hstart : daysBeforeYear 5872001 - daysBeforeYear 1970 = 2143984798 := by decide
    have hpos := hv.ofYear_nonneg
    simp only [julianDay, Day.number, Date.kjulianDayOf19700101] at h
    omega

/-- The days in the years from -4800 on, with a leap day at the end of each. -/
theorem days_of_years (y : ℤ) :
    (y + 4800) * 365 + (y + 4800) / 4 - (y + 4800) / 100 + (y + 4800) / 400 =
      daysBeforeYear (y + 1) + 1753164 := by
  unfold daysBeforeYear
  omega

theorem getJulianDayNumber_eq {d : YearMonthDay} (hv : d.Valid) (hm : FromMarch d)
    (h : julianDay d ≤ 2146000000) :
    getJulianDayNumber (ofInt d.year) (ofInt d.month) (ofInt d.day) = ofInt (julianDay d) := by
  obtain ⟨hy, hy'⟩ := year_bounds hv hm h
  obtain ⟨h₁, h₂, h₃, h₄⟩ := hv
  have h₅ : d.day ≤ 31 := h₄.trans (monthLength_le d.year d.month)
  have hmonths := days_of_months (y := d.year) h₁ h₂
  have hyears := days_of_years (d.year - (14 - d.month) / 12)
  have hstart : daysBeforeYear 1970 = 719162 := by decide
  unfold FromMarch at hm
  unfold getJulianDayNumber
  extract_lets a y m
  have ha : a = ofInt ((14 - d.month) / 12) := by
    simp (disch := omega) only [a, ofNat_eq, ofInt_sub, ofInt_div]
  generalize ha' : (14 - d.month) / 12 = a' at hmonths hyears ha
  rw [sub_add_eq_add_sub d.year a' 4800] at hyears
  have hy : y = ofInt (d.year + 4800 - a') := by
    simp (disch := omega) only [y, ha, ofNat_eq, ofInt_add, ofInt_sub]
  have hm : m = ofInt (d.month + 12 * a' - 3) := by
    simp (disch := omega) only [m, ha, ofNat_eq, ofInt_add, ofInt_sub, ofInt_mul]
  have hy' : 0 ≤ d.year + 4800 - a' ∧ d.year + 4800 - a' ≤ 5876800 := by omega
  have hm' : 0 ≤ d.month + 12 * a' - 3 ∧ d.month + 12 * a' - 3 ≤ 11 := by omega
  clear_value a y m
  generalize d.year + 4800 - a' = y' at hyears hy hy'
  generalize d.month + 12 * a' - 3 = m' at hmonths hm hm'
  simp (disch := omega) only [hy, hm, ofNat_eq, ofInt_add, ofInt_sub, ofInt_mul, ofInt_div]
  congr 1
  simp only [julianDay, Day.number, Day.ofYear, Date.kjulianDayOf19700101, hstart]
  linarith

theorem fromMarch_iff {d : YearMonthDay} (hv : d.Valid) : FromMarch d ↔ -32044 ≤ julianDay d := by
  have hstart : Day.Valid ⟨-4800, 3, 1⟩ := by constructor <;> decide
  have hnum : Day.number ⟨-4800, 3, 1⟩ = -2472632 := by decide
  constructor
  · rintro (hy | ⟨hy, hm⟩)
    · have hlt := hstart.number_lt_of_year hv hy
      unfold julianDay Date.kjulianDayOf19700101
      omega
    · rcases lt_or_eq_of_le hm with hm | hm
      · have hlt := hstart.number_lt_of_month hv hy.symm hm
        unfold julianDay Date.kjulianDayOf19700101
        omega
      · have hle : (1 : ℤ) ≤ d.day := hv.day_pos
        simp only [julianDay, Day.number, Day.ofYear, Date.kjulianDayOf19700101, hy, ← hm] at hnum ⊢
        omega
  · intro h
    by_contra hm
    have hlt : d.number < Day.number ⟨-4800, 3, 1⟩ := by
      unfold FromMarch at hm
      by_cases hy : d.year = -4800
      · exact hv.number_lt_of_month hstart hy (show d.month < 3 by omega)
      · exact hv.number_lt_of_year hstart (show d.year < -4800 by omega)
    unfold julianDay Date.kjulianDayOf19700101 at h
    omega

namespace Date

variable {d : YearMonthDay} {j : ℤ}

theorem new_eq (hv : d.Valid) (hm : FromMarch d) (h : julianDay d ≤ 2146000000) :
    new (ofInt d.year) (ofInt d.month) (ofInt d.day) = some ⟨julianDay d⟩ := by
  rw [new, getJulianDayNumber_eq hv hm h]
  rfl

theorem yearMonthDay_eq (h : -32044 ≤ j) (h' : j ≤ 536838867) :
    ∃ d, yearMonthDay ⟨j⟩ = some d ∧ d.Valid ∧ julianDay d = j := by
  obtain ⟨hv, hj⟩ := dayAfter_spec (j + 32044)
  exact ⟨_, getYearMonthDay_eq h h', hv, hj.trans (by omega)⟩

theorem yearMonthDay_julianDay (hv : d.Valid) (hm : FromMarch d) (h : julianDay d ≤ 536838867) :
    yearMonthDay ⟨julianDay d⟩ = some d := by
  obtain ⟨e, he, hev, hej⟩ := yearMonthDay_eq ((fromMarch_iff hv).mp hm) h
  rw [he, hev.number_inj hv (add_right_cancel hej)]

theorem weekDay_eq (h : 0 ≤ j) (h' : j + 1 < 2 ^ 31) : weekDay ⟨j⟩ = some ((j + 1) % 7) := by
  unfold weekDay kdaysPerWeek
  simp (disch := omega) only [ofNat_eq, ofInt_add, ofInt_mod, value_ofInt]

end Date

/--
Julian day numbers are the days of the Gregorian calendar: every number is that of a
day of the calendar and every day from 1 March -4800 is found again from its number, without
overflow; the next day has the next number and the next day of the week.
-/
theorem dates_are_gregorian :
    (∀ j, -32044 ≤ j → j ≤ 536838867 → ∃ d, getYearMonthDay (ofInt j) = some d ∧ d.Valid ∧
      (getJulianDayNumber (ofInt d.year) (ofInt d.month) (ofInt d.day)).value = some j) ∧
    (∀ d : YearMonthDay, d.Valid → FromMarch d → julianDay d ≤ 536838867 →
      Date.new (ofInt d.year) (ofInt d.month) (ofInt d.day) = some ⟨julianDay d⟩ ∧
      Date.yearMonthDay ⟨julianDay d⟩ = some d ∧
      Date.new (ofInt d.next.year) (ofInt d.next.month) (ofInt d.next.day) =
        some ⟨julianDay d + 1⟩) ∧
    ∀ j, 0 ≤ j → j + 2 < 2 ^ 31 → ∃ w, Date.weekDay ⟨j⟩ = some w ∧ 0 ≤ w ∧ w < 7 ∧
      Date.weekDay ⟨j + 1⟩ = some ((w + 1) % 7) := by
  refine ⟨?_, ?_, ?_⟩
  · intro j h h'
    obtain ⟨d, hd, hv, rfl⟩ := Date.yearMonthDay_eq h h'
    refine ⟨d, hd, hv, ?_⟩
    rw [getJulianDayNumber_eq hv ((fromMarch_iff hv).mpr h) (by omega), value_ofInt]
  · intro d hv hm h
    have hnext : julianDay d.next = julianDay d + 1 := by
      unfold julianDay
      rw [hv.number_next]
      omega
    have hm' : FromMarch d.next := by
      rw [fromMarch_iff hv.next, hnext]
      exact Int.le_add_one ((fromMarch_iff hv).mp hm)
    refine ⟨Date.new_eq hv hm (by omega), Date.yearMonthDay_julianDay hv hm h, ?_⟩
    rw [Date.new_eq hv.next hm' (by omega), hnext]
  · intro j h h'
    refine ⟨(j + 1) % 7, Date.weekDay_eq h (by omega), by omega, by omega, ?_⟩
    rw [Date.weekDay_eq (by omega) (by omega)]
    congr 1
    omega

theorem dates_are_gregorian_leap_day :
    Date.new 2000 2 29 = some ⟨2451604⟩ ∧ Date.yearMonthDay ⟨2451604⟩ = some ⟨2000, 2, 29⟩ ∧
    Date.new 2000 3 1 = some ⟨2451605⟩ := by
  have hv : Day.Valid ⟨2000, 2, 29⟩ := by constructor <;> decide
  exact dates_are_gregorian.2.1 ⟨2000, 2, 29⟩ hv (.inl (by decide)) (by decide)

end Dwater
