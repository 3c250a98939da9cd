import Mathlib.Tactic.IntervalCases
import Mathlib.Tactic.NormNum
import Mathlib.Algebra.BigOperators.Intervals

/-! # The proleptic Gregorian calendar

Years are integers, of which those divisible by four are leap years, except for the
centuries that are not divisible by four hundred. The days are numbered from
1 January 1970; the number grows by one from each day to the next, and two days of the
calendar never share a number.
-/

set_option autoImplicit false
namespace Calendar

/-- A year, a month and a day, which need not exist in the calendar. -/
structure Day where
  year : ℤ
  month : ℤ
  day : ℤ
  deriving DecidableEq, Repr

def IsLeap (y : ℤ) : Prop := y % 4 = 0 ∧ (y % 100 = 0 → y % 400 = 0)

instance (y : ℤ) : Decidable (IsLeap y) := inferInstanceAs (Decidable (_ ∧ _))

def monthLength (y m : ℤ) : ℤ :=
  if m = 2 then if IsLeap y then 29 else 28
  else if m = 4 ∨ m = 6 ∨ m = 9 ∨ m = 11 then 30 else 31

def yearLength (y : ℤ) : ℤ := if IsLeap y then 366 else 365

def daysBeforeMonth (y m : ℤ) : ℤ := ∑ k ∈ Finset.range (m - 1).toNat, monthLength y (k + 1)

/-- The days from 1 January of the year 1 to 1 January of the year `y`. -/
def daysBeforeYear (y : ℤ) : ℤ := 365 * (y - 1) + (y - 1) / 4 - (y - 1) / 100 + (y - 1) / 400

namespace Day

variable {d e : Day}

/-- The day exists in the calendar. -/
structure Valid (d : Day) : Prop where
  month_pos : 1 ≤ d.month
  month_le : d.month ≤ 12
  day_pos : 1 ≤ d.day
  day_le : d.day ≤ monthLength d.year d.month

def next (d : Day) : Day :=
  if d.day < monthLength d.year d.month then { d with day := d.day + 1 }
  else if d.month < 12 then ⟨d.year, d.month + 1, 1⟩
  else ⟨d.year + 1, 1, 1⟩

def ofYear (d : Day) : ℤ := daysBeforeMonth d.year d.month + (d.day - 1)

def number (d : Day) : ℤ := daysBeforeYear d.year - daysBeforeYear 1970 + d.ofYear

/-- The day of the week, counted from Sunday; 1 January 1970 was a Thursday. -/
def weekday (d : Day) : ℤ := (d.number + 4) % 7

end Day

theorem yearLength_le (y : ℤ) : yearLength y ≤ 366 := by
  unfold yearLength
  split <;> omega

theorem daysBeforeYear_succ (y : ℤ) : daysBeforeYear (y + 1) = daysBeforeYear y + yearLength y := by
  unfold daysBeforeYear yearLength
  by_cases h : IsLeap y
  · rw [if_pos h]
    unfold IsLeap at h
    omega
  · rw [if_neg h]
    unfold IsLeap at h
    omega

theorem daysBeforeYear_mono {y z : ℤ} (h : y ≤ z) : daysBeforeYear y ≤ daysBeforeYear z := by
  unfold daysBeforeYear
  omega

theorem daysBeforeMonth_succ {y m : ℤ} (h : 1 ≤ m) :
    daysBeforeMonth y (m + 1) = daysBeforeMonth y m + monthLength y m := by
  have hm : (m + 1 - 1).toNat = (m - 1).toNat + 1 := by omega
  have hk : (((m - 1).toNat : ℤ) + 1) = m := by omega
  rw [daysBeforeMonth, hm, Finset.sum_range_succ, hk, daysBeforeMonth]

theorem daysBeforeMonth_one (y : ℤ) : daysBeforeMonth y 1 = 0 := by
  simp [daysBeforeMonth]

/-- The months follow a line of slope 367/12, but for the days that February lacks. -/
theorem daysBeforeMonth_eq {y m : ℤ} (h : 1 ≤ m) (h' : m ≤ 13) :
    daysBeforeMonth y m =
      (367 * m - 362) / 12 - (if m ≤ 2 then 0 else if IsLeap y then 1 else 2) := by
  induction m, h using Int.leInduction with
  | base => exact daysBeforeMonth_one y
  | succ m h ih =>
    have hm : m ≤ 12 := by omega
    rw [daysBeforeMonth_succ h, ih (by omega), monthLength]
    by_cases hleap : IsLeap y
    · simp only [hleap, if_true]
      interval_cases m <;> rfl
    · simp only [hleap, if_false]
      interval_cases m <;> rfl

theorem daysBeforeMonth_end (y : ℤ) : daysBeforeMonth y 13 = yearLength y := by
  rw [daysBeforeMonth_eq (by omega) (by omega), yearLength]
  by_cases h : IsLeap y <;> simp [h]

theorem monthLength_pos (y m : ℤ) : 0 < monthLength y m := by
  unfold monthLength
  split_ifs <;> omega

theorem monthLength_le (y m : ℤ) : monthLength y m ≤ 31 := by
  unfold monthLength
  split_ifs <;> omega

theorem daysBeforeMonth_mono {y m n : ℤ} (h : 1 ≤ m) (hmn : m ≤ n) :
    daysBeforeMonth y m ≤ daysBeforeMonth y n := by
  induction n, hmn using Int.leInduction with
  | base => exact le_rfl
  | succ n hn ih =>
    rw [daysBeforeMonth_succ (h.trans hn)]
    exact ih.trans (le_add_of_nonneg_right (monthLength_pos y n).le)

namespace Day

variable {d e : Day}

theorem weekday_range (d : Day) : 0 ≤ d.weekday ∧ d.weekday ≤ 6 := by
  unfold weekday
  omega

theorem Valid.ofYear_nonneg (h : d.Valid) : 0 ≤ d.ofYear := by
  have h₁ := daysBeforeMonth_mono (y := d.year) le_rfl h.month_pos
  rw [daysBeforeMonth_one] at h₁
  have h₂ := h.day_pos
  unfold ofYear
  omega

theorem Valid.ofYear_lt_month (h : d.Valid) {n : ℤ} (hn : d.month < n) :
    d.ofYear < daysBeforeMonth d.year n := by
  have h₁ := daysBeforeMonth_succ (y := d.year) h.month_pos
  have h₂ := daysBeforeMonth_mono (y := d.year) (h.month_pos.trans (Int.le_add_one le_rfl))
    (Int.add_one_le_of_lt hn)
  have h₃ := h.day_le
  unfold ofYear
  omega

theorem Valid.ofYear_lt (h : d.Valid) : d.ofYear < yearLength d.year := by
  rw [← daysBeforeMonth_end]
  exact h.ofYear_lt_month (Int.lt_add_one_of_le h.month_le)

theorem Valid.number_lt_of_year (hd : d.Valid) (he : e.Valid) (h : d.year < e.year) :
    d.number < e.number := by
  have h₁ := hd.ofYear_lt
  have h₂ := he.ofYear_nonneg
  have h₃ := daysBeforeYear_mono (Int.add_one_le_of_lt h)
  rw [daysBeforeYear_succ] at h₃
  unfold number
  omega

theorem Valid.ofYear_lt_of_month (hd : d.Valid) (he : e.Valid) (hy : d.year = e.year)
    (h : d.month < e.month) : d.ofYear < e.ofYear := by
  have h₁ := hd.ofYear_lt_month h
  have h₂ := he.day_pos
  rw [hy] at h₁
  rw [show e.ofYear = daysBeforeMonth e.year e.month + (e.day - 1) from rfl]
  omega

theorem Valid.number_lt_of_month (hd : d.Valid) (he : e.Valid) (hy : d.year = e.year)
    (h : d.month < e.month) : d.number < e.number := by
  have ho := hd.ofYear_lt_of_month he hy h
  unfold number
  rw [hy]
  omega

theorem Valid.number_inj (hd : d.Valid) (he : e.Valid) (h : d.number = e.number) : d = e := by
  have hy : d.year = e.year := by
    rcases lt_trichotomy d.year e.year with hy | hy | hy
    · exact absurd h (hd.number_lt_of_year he hy).ne
    · exact hy
    · exact absurd h (he.number_lt_of_year hd hy).ne'
  have ho : d.ofYear = e.ofYear := by
    unfold number at h
    rw [hy] at h
    exact add_left_cancel h
  have hm : d.month = e.month := by
    rcases lt_trichotomy d.month e.month with hm | hm | hm
    · exact absurd ho (hd.ofYear_lt_of_month he hy hm).ne
    · exact hm
    · exact absurd ho (he.ofYear_lt_of_month hd hy.symm hm).ne'
  have hday : d.day = e.day := by
    unfold ofYear at ho
    rw [hy, hm] at ho
    omega
  cases d
  cases e
  simp_all

theorem Valid.next (h : d.Valid) : d.next.Valid := by
  obtain ⟨h₁, h₂, h₃, h₄⟩ := h
  unfold Day.next
  split_ifs with hl hm
  · exact ⟨h₁, h₂, Int.le_add_one h₃, Int.add_one_le_of_lt hl⟩
  · exact ⟨Int.le_add_one h₁, Int.add_one_le_of_lt hm, le_rfl,
      Int.add_one_le_of_lt (monthLength_pos _ _)⟩
  · exact ⟨le_rfl, by simp, le_rfl, Int.add_one_le_of_lt (monthLength_pos _ _)⟩

theorem Valid.number_next (h : d.Valid) : d.next.number = d.number + 1 := by
  obtain ⟨h₁, h₂, h₃, h₄⟩ := h
  unfold Day.next
  split_ifs with hl hm
  · simp only [number, ofYear]
    omega
  · have hs := daysBeforeMonth_succ (y := d.year) h₁
    simp only [number, ofYear]
    omega
  · have hm' : d.month = 12 := by omega
    have hs : daysBeforeMonth d.year 13 = daysBeforeMonth d.year 12 + monthLength d.year 12 :=
      daysBeforeMonth_succ (m := 12) (by omega)
    have hy := daysBeforeYear_succ d.year
    have hend := daysBeforeMonth_end d.year
    simp only [number, ofYear, daysBeforeMonth_one]
    rw [hm'] at h₄ hl ⊢
    omega

end Day

end Calendar
