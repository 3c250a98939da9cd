import Dwater.Base.TimeZone

/-! # Local time

`FindLocaltime` takes the rule of the transition after the time it looks for, and the rule
before the transition when the time falls on one; on the first transition it stops.
Nevertheless most conversions to local time can be undone, since the conversion back makes
the same choice among the local times. The ones that cannot are listed exactly.
-/

set_option autoImplicit false
namespace Dwater

open Fallible

/-- The column of the table that `comp` compares. -/
def Comp.key (comp : Comp) (transition : Transition) : ℤ :=
  if comp.compareGmt then transition.gmttime else transition.localtime

theorem Comp.less_iff {comp : Comp} {a b : Transition} :
    comp.less a b = true ↔ comp.key a < comp.key b := by
  unfold Comp.less Comp.key
  split <;> simp

theorem Comp.equal_iff {comp : Comp} {a b : Transition} :
    comp.equal a b = true ↔ comp.key a < comp.key b := by
  unfold Comp.equal Comp.key
  split <;> simp

namespace ZoneData

def transition (data : ZoneData) (i : ℕ) : Transition := data.transitions.getD i default

/-- The rule in force before transition `i`, which is that of the transition before. -/
def rule (data : ZoneData) : ℕ → Localtime
  | 0 => data.localtimes.getD 0 default
  | i + 1 => data.localtimes.getD (toSizeT (data.transition i).localtimeIndex) default

abbrev size (data : ZoneData) : ℕ := data.transitions.length

def time (data : ZoneData) (i : ℕ) : ℤ := (data.transition i).gmttime

def offset (data : ZoneData) (i : ℕ) : ℤ := (data.rule i).gmtOffset

def isDst (data : ZoneData) (i : ℕ) : Bool := (data.rule i).isDst

/-- A table with valid indices, as `ReadTimeZoneFile` fills it, whose transitions are
more than one hour apart; where a transition moves the clock back, it ends the daylight saving time
and moves it back by an hour. -/
structure Legal (data : ZoneData) : Prop where
  localtimes_ne : data.localtimes ≠ []
  index_lt : ∀ i < data.size,
    toSizeT (data.transition i).localtimeIndex < data.localtimes.length
  arrb_le : ∀ found ∈ data.localtimes, toSizeT found.arrbIndex ≤ data.abbreviation.length
  localtime_eq : ∀ i < data.size, (data.transition i).localtime = data.time i + data.offset (i + 1)
  apart : ∀ i, i + 1 < data.size → data.time i + 3600 < data.time (i + 1)
  back : ∀ i < data.size, data.offset (i + 1) < data.offset i →
    data.offset i = data.offset (i + 1) + 3600 ∧ data.isDst i = true ∧ data.isDst (i + 1) = false

/-- There is a rule, and the transitions point to rules. -/
structure Indexed (data : ZoneData) : Prop where
  localtimes_ne : data.localtimes ≠ []
  index_lt : ∀ i < data.size,
    toSizeT (data.transition i).localtimeIndex < data.localtimes.length

/-- Transition `i` has moved the clock back; it is the last one, or the next one moves the clock
forward again or keeps the offset outside the daylight saving time. -/
def Resumes (data : ZoneData) (i : ℕ) : Prop :=
  i + 1 = data.size ∨ data.offset (i + 2) = data.offset i ∨
    data.offset (i + 2) = data.offset (i + 1) ∧ data.isDst (i + 2) = false

/-- The times that are recovered from their local times. `rule i` is the rule before
transition `i`, and `ToLocalTime` takes `rule (i + 2)` between the transitions `i` and `i + 1`. -/
structure Recoverable (data : ZoneData) (t : ℤ) : Prop where
  beforeFirst : 0 < data.size → t < data.time 0 →
    t + data.offset 0 < data.time 0 + data.offset 1 ∨
    data.time 0 + data.offset 1 < t + data.offset 0 ∧ data.Resumes 0
  atTransition : ∀ i < data.size, t = data.time i →
    0 < i ∧ (data.offset (i + 1) = data.offset i ∨
      data.offset (i + 1) < data.offset i ∧ data.Resumes i)
  between : ∀ i, i + 1 < data.size → data.time i < t → t < data.time (i + 1) →
    data.time i + data.offset (i + 1) < t + data.offset (i + 2) ∨
    t + data.offset (i + 2) = data.time i + data.offset (i + 1) ∧ 0 < i ∧
      data.offset (i + 2) = data.offset i ∨
    t + data.offset (i + 2) < data.time i + data.offset (i + 1) ∧ i = 0 ∧
      data.offset 2 = data.offset 0

variable {data : ZoneData} {comp : Comp} {sentry : Transition} {i : ℕ}

theorem getElem?_eq (h : i < data.size) : data.transitions[i]? = some (data.transition i) := by
  rw [transition, List.getD_eq_getElem?_getD, List.getElem?_eq_getElem h, Option.getD_some]

theorem localtimeAt_zero (h : data.localtimes ≠ []) (line : ℕ) :
    data.localtimeAt 0 line = .ok (data.rule 0) := by
  obtain ⟨first, rest, heq⟩ := List.exists_cons_of_ne_nil h
  simp [localtimeAt, rule, heq, toSizeT]

theorem localtimeAt_succ (h : toSizeT (data.transition i).localtimeIndex < data.localtimes.length)
    (line : ℕ) :
    data.localtimeAt (data.transition i).localtimeIndex line = .ok (data.rule (i + 1)) := by
  simp [localtimeAt, rule, List.getElem?_eq_getElem h]

theorem lowerBound_eq (hi : i ≤ data.size)
    (hlt : ∀ j < i, comp.key (data.transition j) < comp.key sentry)
    (hle : ∀ j, i ≤ j → j < data.size → comp.key sentry ≤ comp.key (data.transition j)) :
    lowerBound data.transitions sentry comp = i := by
  have hsize : 0 + data.transitions.length = data.size := Nat.zero_add _
  refine Search.lowerBound_eq (fun j hj => Comp.less_iff.mpr (hlt j hj)) (fun j hj hj' => ?_)
    (Nat.zero_le i) (hsize ▸ hi) le_rfl
  rw [← Bool.not_eq_true, Comp.less_iff]
  exact not_lt.mpr (hle j hj (hsize ▸ hj'))

theorem cons_of_size (h : 0 < data.size) :
    ∃ rest, data.transitions = data.transition 0 :: rest := by
  obtain ⟨front, rest, heq⟩ := List.exists_cons_of_length_pos h
  exact ⟨rest, by simp [transition, heq]⟩

theorem findLocaltime_first (hl : data.localtimes ≠ [])
    (h : 0 < data.size → comp.key sentry < comp.key (data.transition 0)) :
    findLocaltime data sentry comp = .ok (data.rule 0) := by
  rcases Nat.eq_zero_or_pos data.size with h₀ | h₀
  · rw [findLocaltime, List.length_eq_zero_iff.mp h₀]
    exact localtimeAt_zero hl 210
  · obtain ⟨rest, heq⟩ := cons_of_size h₀
    rw [findLocaltime, heq]
    simp only [Comp.less_iff.mpr (h h₀), if_true]
    exact localtimeAt_zero hl 210

theorem findLocaltime_search (h : data.Indexed) (h₀ : 0 < data.size)
    (h' : comp.key (data.transition 0) ≤ comp.key sentry) (hi : i ≤ data.size)
    (hlt : ∀ j < i, comp.key (data.transition j) < comp.key sentry)
    (hle : ∀ j, i ≤ j → j < data.size → comp.key sentry ≤ comp.key (data.transition j)) :
    findLocaltime data sentry comp =
      if i < data.size then
        if comp.key sentry < comp.key (data.transition i) then .ok (data.rule (i + 1))
        else if i = 0 then .error (.assertion .time_zone_cc 216) else .ok (data.rule i)
      else .ok (data.rule data.size) := by
  obtain ⟨rest, heq⟩ := cons_of_size h₀
  have hless : comp.less sentry (data.transition 0) = false := by
    rw [← Bool.not_eq_true, Comp.less_iff]
    exact not_lt.mpr h'
  have hunfold : findLocaltime data sentry comp =
      (data.transitions[i]?).elim
        (data.localtimeAt (data.transitions.getLastD (data.transition 0)).localtimeIndex 221)
        (fun found =>
          if comp.equal sentry found then data.localtimeAt found.localtimeIndex 219
          else do
            check (i ≠ 0) (.assertion .time_zone_cc 216)
            data.localtimeAt (data.transitions.getD (i - 1) found).localtimeIndex 219) := by
    rw [findLocaltime]
    split
    · next hnil =>
      rw [hnil] at heq
      cases heq
    · next front _ hcons =>
      cases hcons.symm.trans heq
      rw [if_neg (Bool.eq_false_iff.mp hless)]
      simp only [lowerBound_eq hi hlt hle]
      cases data.transitions[i]? with
      | none => rfl
      | some found => rfl
  rw [hunfold]
  by_cases hi' : i < data.size
  · rw [getElem?_eq hi', Option.elim_some, if_pos hi']
    simp only [Comp.equal_iff]
    split_ifs with hkey hzero
    · exact localtimeAt_succ (h.index_lt i hi') 219
    · rw [check_bind_of_false (not_not_intro hzero)]
    · obtain ⟨j, rfl⟩ := Nat.exists_eq_succ_of_ne_zero hzero
      have hj : j < data.size := by omega
      rw [check_bind_of_true hzero, Nat.succ_sub_one]
      rw [List.getD_eq_getElem?_getD, getElem?_eq hj]
      exact localtimeAt_succ (h.index_lt j hj) 219
  · rw [if_neg hi', List.getElem?_eq_none (Nat.le_of_not_lt hi'), Option.elim_none]
    obtain ⟨n, hn⟩ := Nat.exists_eq_succ_of_ne_zero h₀.ne'
    have hlast : data.transitions.getLastD (data.transition 0) = data.transition n := by
      rw [List.getLastD_eq_getLast?, List.getLast?_eq_getElem?,
        show data.transitions.length - 1 = n from Nat.sub_eq_of_eq_add hn,
        getElem?_eq (show n < data.size by omega), Option.getD_some]
    simp only [hlast, hn]
    exact localtimeAt_succ (h.index_lt n (by omega)) 221

/-- The column that `comp` compares, of which `FindLocaltime` needs that it increases. -/
def Increasing (data : ZoneData) (comp : Comp) : Prop :=
  ∀ i j, i < j → j < data.size → comp.key (data.transition i) < comp.key (data.transition j)

theorem Increasing.mono (hs : data.Increasing comp) {j : ℕ} (hij : i ≤ j) (hj : j < data.size) :
    comp.key (data.transition i) ≤ comp.key (data.transition j) := by
  rcases Nat.lt_or_eq_of_le hij with hij | rfl
  · exact (hs i j hij hj).le
  · exact le_rfl

theorem increasing_of_step
    (h : ∀ i, i + 1 < data.size →
      comp.key (data.transition i) < comp.key (data.transition (i + 1))) :
    data.Increasing comp := by
  intro i j hij
  induction j, hij using Nat.le_induction with
  | base => exact h i
  | succ j hij ih =>
    intro hj
    exact (ih (by omega)).trans (h j hj)

theorem exists_place (data : ZoneData) (comp : Comp) (x : ℤ) :
    (∀ j < data.size, comp.key (data.transition j) < x) ∨
    (0 < data.size ∧ x < comp.key (data.transition 0)) ∨
    (∃ i < data.size, x = comp.key (data.transition i)) ∨
    ∃ i, i + 1 < data.size ∧ comp.key (data.transition i) < x ∧
      x < comp.key (data.transition (i + 1)) := by
  by_cases hex : ∃ i, i < data.size ∧ x ≤ comp.key (data.transition i)
  · obtain ⟨hi, hx⟩ := Nat.find_spec hex
    have hmin := @Nat.find_min _ _ hex
    generalize Nat.find hex = i at hi hx hmin
    rcases lt_or_eq_of_le hx with hx | hx
    · cases i with
      | zero => exact .inr (.inl ⟨hi, hx⟩)
      | succ i =>
        have hbefore : comp.key (data.transition i) < x := by
          by_contra hle
          exact hmin (Nat.lt_succ_self i) ⟨Nat.lt_of_succ_lt hi, not_lt.mp hle⟩
        exact .inr (.inr (.inr ⟨i, hi, hbefore, hx⟩))
    · exact .inr (.inr (.inl ⟨i, hi, hx⟩))
  · left
    intro j hj
    by_contra hle
    exact hex ⟨j, hj, not_lt.mp hle⟩

section Increasing

variable (h : data.Indexed)

include h

theorem findLocaltime_between (hs : data.Increasing comp) (hi : i + 1 < data.size)
    (hlt : comp.key (data.transition i) < comp.key sentry)
    (hgt : comp.key sentry < comp.key (data.transition (i + 1))) :
    findLocaltime data sentry comp = .ok (data.rule (i + 2)) := by
  have hbefore : ∀ j < i + 1, comp.key (data.transition j) < comp.key sentry := by
    intro j hj
    rcases Nat.lt_succ_iff_lt_or_eq.mp hj with hj | rfl
    · exact (hs j i hj (by omega)).trans hlt
    · exact hlt
  rw [findLocaltime_search h (by omega) (hbefore 0 (by omega)).le hi.le hbefore
    fun j hj hj' => hgt.le.trans (hs.mono hj hj'), if_pos hi, if_pos hgt]

theorem findLocaltime_at (hs : data.Increasing comp) (hi : i < data.size)
    (heq : comp.key sentry = comp.key (data.transition i)) :
    findLocaltime data sentry comp =
      if i = 0 then .error (.assertion .time_zone_cc 216) else .ok (data.rule i) := by
  have hbefore : ∀ j < i, comp.key (data.transition j) < comp.key sentry := by
    intro j hj
    exact heq ▸ hs j i hj hi
  have hfirst : comp.key (data.transition 0) ≤ comp.key sentry := by
    rcases Nat.eq_zero_or_pos i with rfl | h₀
    · exact heq.ge
    · exact (hbefore 0 h₀).le
  rw [findLocaltime_search h (by omega) hfirst hi.le hbefore
    fun j hj hj' => heq.le.trans (hs.mono hj hj'), if_pos hi, if_neg heq.not_lt]

theorem findLocaltime_last
    (hlt : ∀ j < data.size, comp.key (data.transition j) < comp.key sentry) :
    findLocaltime data sentry comp = .ok (data.rule data.size) := by
  rcases Nat.eq_zero_or_pos data.size with h₀ | h₀
  · rw [h₀]
    exact findLocaltime_first h.localtimes_ne (by omega)
  · rw [findLocaltime_search h h₀ (hlt 0 h₀).le le_rfl hlt (fun _ hj hj' => absurd hj' (by omega)),
      if_neg (lt_irrefl _)]

theorem findLocaltime_afterLast (hs : data.Increasing comp) (hi : i + 1 = data.size)
    (hlt : comp.key (data.transition i) < comp.key sentry) :
    findLocaltime data sentry comp = .ok (data.rule (i + 1)) := by
  rw [hi]
  apply findLocaltime_last h
  intro j hj
  rcases Nat.lt_or_eq_of_le (show j ≤ i by omega) with hj | rfl
  · exact (hs j i hj (by omega)).trans hlt
  · exact hlt

end Increasing

theorem Legal.indexed (h : data.Legal) : data.Indexed := ⟨h.localtimes_ne, h.index_lt⟩

theorem Legal.not_back (h : data.Legal) (hi : i + 1 < data.size)
    (hback : data.offset (i + 1) < data.offset i) : data.offset (i + 1) ≤ data.offset (i + 2) := by
  by_contra hback'
  have h₁ := (h.back i (by omega) hback).2.2
  have h₂ := (h.back (i + 1) hi (not_le.mp hback')).2.1
  rw [h₁] at h₂
  cases h₂

theorem Legal.le_offset (h : data.Legal) (hi : i < data.size) :
    data.offset i ≤ data.offset (i + 1) + 3600 := by
  by_cases hback : data.offset (i + 1) < data.offset i
  · exact (h.back i hi hback).1.le
  · omega

theorem Legal.increasing_gmt (h : data.Legal) : data.Increasing ⟨true⟩ := by
  apply increasing_of_step
  intro i hi
  exact lt_of_le_of_lt (le_add_of_nonneg_right (by decide)) (h.apart i hi)

theorem Legal.key_local (h : data.Legal) (hi : i < data.size) :
    Comp.key ⟨false⟩ (data.transition i) = data.time i + data.offset (i + 1) :=
  h.localtime_eq i hi

theorem Legal.increasing_local (h : data.Legal) : data.Increasing ⟨false⟩ := by
  apply increasing_of_step
  intro i hi
  have h₁ := h.apart i hi
  have h₂ := h.le_offset hi
  rw [h.key_local (by omega), h.key_local hi]
  omega

theorem mem_of_localtimeAt {index : ℤ} {line : ℕ} {a : Localtime}
    (h : data.localtimeAt index line = .ok a) : a ∈ data.localtimes := by
  unfold localtimeAt at h
  split at h
  · next found hfound =>
    cases h
    exact List.mem_of_getElem? hfound
  · cases h

theorem mem_of_findLocaltime {a : Localtime} (h : findLocaltime data sentry comp = .ok a) :
    a ∈ data.localtimes := by
  unfold findLocaltime at h
  split at h
  · exact mem_of_localtimeAt h
  · split at h
    · exact mem_of_localtimeAt h
    · simp only at h
      split at h
      · split at h
        · exact mem_of_localtimeAt h
        · exact mem_of_localtimeAt (check_bind_eq_ok h).2
      · exact mem_of_localtimeAt h

end ZoneData

namespace TimeZone

/-- `FindLocaltime` among the universal times, as `ToLocalTime` calls it. -/
def findGmt (data : ZoneData) (t : ℤ) : Except Fault Localtime :=
  findLocaltime data ⟨t, 0, 0⟩ ⟨true⟩

/-- `FindLocaltime` among the local times, as `FromLocalTime` calls it. -/
def findLocal (data : ZoneData) (t : ℤ) : Except Fault Localtime :=
  findLocaltime data ⟨0, t, 0⟩ ⟨false⟩

def roundTrip (zone : TimeZone) (t : ℤ) : Except Fault ℤ :=
  zone.toLocalTime t >>= zone.fromLocalTime

def SameClock (s t : ℤ) : Prop :=
  (gmtimeR s).tmHour = (gmtimeR t).tmHour ∧ (gmtimeR s).tmMin = (gmtimeR t).tmMin

/-- The conversion back undoes the offset at once, or after it has found
the time an hour later out of the daylight saving time. -/
def Undone (data : ZoneData) (t : ℤ) (a b : Localtime) : Prop :=
  a.gmtOffset = b.gmtOffset ∨
    a.gmtOffset = b.gmtOffset + 3600 ∧ a.isDst = true ∧
      ∃ c, findGmt data (t + 3600) = .ok c ∧ c.isDst = false ∧
        SameClock (t + 3600 + c.gmtOffset) (t + a.gmtOffset)

variable {data : ZoneData} {t : ℤ} {a b : Localtime}

theorem toLocalTime_ok (h : data.Legal) (ha : findGmt data t = .ok a) :
    ∃ zone, toLocalTime ⟨some data⟩ t = .ok { gmtimeR (t + a.gmtOffset) with
      tmIsdst := if a.isDst then 1 else 0, tmGmtoff := a.gmtOffset, tmZone := some zone } := by
  have habb := h.arrb_le a (ZoneData.mem_of_findLocaltime ha)
  unfold findGmt at ha
  simp only [toLocalTime, getData, bind, Except.bind, ha, abbreviationAt, if_pos habb]
  exact ⟨_, rfl⟩

theorem toLocalTime_error {e : Fault} (ha : findGmt data t = .error e) :
    toLocalTime ⟨some data⟩ t = .error e := by
  unfold findGmt at ha
  simp only [toLocalTime, getData, bind, Except.bind, ha]

theorem repeatedHour_eq (h : data.Legal) {localtime : Tm} {seconds offset : ℤ}
    (hdst : localtime.tmIsdst ≠ 0) {c : Localtime} (hc : findGmt data (seconds - offset) = .ok c) :
    repeatedHour ⟨some data⟩ localtime seconds offset = .ok
      (if c.isDst = false ∧ (gmtimeR (seconds - offset + c.gmtOffset)).tmHour = localtime.tmHour ∧
        (gmtimeR (seconds - offset + c.gmtOffset)).tmMin = localtime.tmMin
        then 3600 else 0) := by
  obtain ⟨zone, hz⟩ := toLocalTime_ok h hc
  rw [repeatedHour, if_pos hdst, hz]
  cases hd : c.isDst <;> simp [bind, Except.bind, pure, Except.pure]

theorem roundTrip_eq (h : data.Legal) (ha : findGmt data t = .ok a)
    (hb : findLocal data (t + a.gmtOffset) = .ok b) :
    ∃ tm : Tm, tm.tmIsdst = (if a.isDst then 1 else 0) ∧
      tm.tmHour = (gmtimeR (t + a.gmtOffset)).tmHour ∧
      tm.tmMin = (gmtimeR (t + a.gmtOffset)).tmMin ∧
      roundTrip ⟨some data⟩ t =
        (repeatedHour ⟨some data⟩ tm (t + a.gmtOffset) b.gmtOffset).map
          fun back => t + a.gmtOffset - back - b.gmtOffset := by
  obtain ⟨zone, hz⟩ := toLocalTime_ok h ha
  refine ⟨{ gmtimeR (t + a.gmtOffset) with
    tmIsdst := if a.isDst then 1 else 0, tmGmtoff := a.gmtOffset, tmZone := some zone },
    rfl, rfl, rfl, ?_⟩
  unfold findLocal at hb
  rw [roundTrip, hz]
  simp only [fromLocalTime, getData, bind, Except.bind, timegm_gmtimeR, hb]
  cases repeatedHour ⟨some data⟩ _ (t + a.gmtOffset) b.gmtOffset <;> rfl

/-- The hour is taken off exactly where that undoes the difference of the offsets. -/
theorem repeatedHour_iff (h : data.Legal) (ha : findGmt data t = .ok a) {tm : Tm}
    (hdst : tm.tmIsdst = if a.isDst then 1 else 0)
    (hhour : tm.tmHour = (gmtimeR (t + a.gmtOffset)).tmHour)
    (hmin : tm.tmMin = (gmtimeR (t + a.gmtOffset)).tmMin) :
    repeatedHour ⟨some data⟩ tm (t + a.gmtOffset) b.gmtOffset =
      .ok (a.gmtOffset - b.gmtOffset) ↔ Undone data t a b := by
  cases hd : a.isDst with
  | false =>
    have hzero : ¬ tm.tmIsdst ≠ 0 := by simp [hdst, hd]
    rw [repeatedHour, if_neg hzero]
    simp only [Undone, hd, pure, Except.pure, Except.ok.injEq]
    constructor
    · intro heq
      exact .inl (by omega)
    · rintro (heq | ⟨-, habsurd, -⟩)
      · omega
      · cases habsurd
  | true =>
    have hone : tm.tmIsdst ≠ 0 := by simp [hdst, hd]
    by_cases hoff : a.gmtOffset = b.gmtOffset
    · have hc : findGmt data (t + a.gmtOffset - b.gmtOffset) = .ok a := by
        rw [hoff, add_sub_cancel_right]
        exact ha
      rw [repeatedHour_eq h hone hc, hd]
      simp [Undone, hoff]
    · have hlater : a.gmtOffset = b.gmtOffset + 3600 →
          t + a.gmtOffset - b.gmtOffset = t + 3600 := by
        intro heq
        omega
      constructor
      · intro heq
        cases hc : findGmt data (t + a.gmtOffset - b.gmtOffset) with
        | error e =>
          rw [repeatedHour, if_pos hone, toLocalTime_error hc] at heq
          cases heq
        | ok c =>
          rw [repeatedHour_eq h hone hc, Except.ok.injEq] at heq
          split at heq
          · next hclock =>
            obtain ⟨hcd, hch, hcm⟩ := hclock
            have hdiff : a.gmtOffset = b.gmtOffset + 3600 := by omega
            rw [hlater hdiff] at hc hch hcm
            exact .inr ⟨hdiff, hd, c, hc, hcd, hch.trans hhour, hcm.trans hmin⟩
          · omega
      · rintro (heq | ⟨hdiff, -, c, hc, hcd, hch, hcm⟩)
        · exact absurd heq hoff
        · rw [← hlater hdiff] at hc hch hcm
          rw [repeatedHour_eq h hone hc, if_pos ⟨hcd, hch.trans hhour.symm, hcm.trans hmin.symm⟩]
          congr 1
          omega

theorem roundTrip_eq_ok_iff (h : data.Legal) :
    roundTrip ⟨some data⟩ t = .ok t ↔
      ∃ a b, findGmt data t = .ok a ∧ findLocal data (t + a.gmtOffset) = .ok b ∧
        Undone data t a b := by
  cases ha : findGmt data t with
  | error e => simp [roundTrip, toLocalTime_error ha, bind, Except.bind]
  | ok a =>
    cases hb : findLocal data (t + a.gmtOffset) with
    | error e =>
      obtain ⟨zone, hz⟩ := toLocalTime_ok h ha
      unfold findLocal at hb
      simp [roundTrip, hz, fromLocalTime, getData, bind, Except.bind, timegm_gmtimeR, hb, findLocal]
    | ok b =>
      obtain ⟨tm, hdst, hhour, hmin, hrt⟩ := roundTrip_eq h ha hb
      have hback : roundTrip ⟨some data⟩ t = .ok t ↔
          repeatedHour ⟨some data⟩ tm (t + a.gmtOffset) b.gmtOffset =
            .ok (a.gmtOffset - b.gmtOffset) := by
        rw [hrt]
        cases repeatedHour ⟨some data⟩ tm (t + a.gmtOffset) b.gmtOffset with
        | error e => simp [Except.map]
        | ok back =>
          simp only [Except.map, Except.ok.injEq]
          constructor <;> intro heq <;> omega
      rw [hback, repeatedHour_iff h ha hdst hhour hmin]
      simp [hb]

def Returns (data : ZoneData) (t : ℤ) : Prop :=
  ∃ a b, findGmt data t = .ok a ∧ findLocal data (t + a.gmtOffset) = .ok b ∧ Undone data t a b

theorem returns_iff (ha : findGmt data t = .ok a) (hb : findLocal data (t + a.gmtOffset) = .ok b) :
    Returns data t ↔ Undone data t a b := by
  simp [Returns, ha, hb]

theorem not_returns_of_local (ha : findGmt data t = .ok a) {e : Fault}
    (hb : findLocal data (t + a.gmtOffset) = .error e) : ¬ Returns data t := by
  simp [Returns, ha, hb]

theorem not_returns_of_gmt {e : Fault} (ha : findGmt data t = .error e) : ¬ Returns data t := by
  simp [Returns, ha]

theorem undone_iff_of_std (hd : a.isDst = false) :
    Undone data t a b ↔ a.gmtOffset = b.gmtOffset := by
  simp [Undone, hd]

theorem undone_iff_of_later (hd : a.isDst = true) (hc : findGmt data (t + 3600) = .ok b) :
    Undone data t a b ↔ a.gmtOffset = b.gmtOffset ∨
      a.gmtOffset = b.gmtOffset + 3600 ∧ b.isDst = false := by
  constructor
  · rintro (heq | ⟨hdiff, -, c, hc', hcd, -⟩)
    · exact .inl heq
    · cases hc.symm.trans hc'
      exact .inr ⟨hdiff, hcd⟩
  · rintro (heq | ⟨hdiff, hbd⟩)
    · exact .inl heq
    · have hs : t + 3600 + b.gmtOffset = t + a.gmtOffset := by omega
      exact .inr ⟨hdiff, hd, b, hc, hbd, by rw [hs], by rw [hs]⟩

section Places

variable {i : ℕ} (h : data.Legal)

include h

theorem findGmt_between (hi : i + 1 < data.size) (hlt : data.time i < t)
    (hgt : t < data.time (i + 1)) : findGmt data t = .ok (data.rule (i + 2)) :=
  ZoneData.findLocaltime_between h.indexed h.increasing_gmt hi hlt hgt

theorem findGmt_at (hi : i < data.size) :
    findGmt data (data.time i) =
      if i = 0 then .error (.assertion .time_zone_cc 216) else .ok (data.rule i) :=
  ZoneData.findLocaltime_at h.indexed h.increasing_gmt hi rfl

theorem findGmt_first (hlt : t < data.time 0) : findGmt data t = .ok (data.rule 0) :=
  ZoneData.findLocaltime_first h.localtimes_ne fun _ => hlt

theorem findGmt_last (hlt : ∀ i < data.size, data.time i < t) :
    findGmt data t = .ok (data.rule data.size) :=
  ZoneData.findLocaltime_last h.indexed hlt

theorem findLocal_between (hi : i + 1 < data.size) (hlt : data.time i + data.offset (i + 1) < t)
    (hgt : t < data.time (i + 1) + data.offset (i + 2)) :
    findLocal data t = .ok (data.rule (i + 2)) := by
  rw [← h.key_local (by omega)] at hlt
  rw [← h.key_local hi] at hgt
  exact ZoneData.findLocaltime_between h.indexed h.increasing_local hi hlt hgt

theorem findLocal_at (hi : i < data.size) (heq : t = data.time i + data.offset (i + 1)) :
    findLocal data t =
      if i = 0 then .error (.assertion .time_zone_cc 216) else .ok (data.rule i) := by
  rw [← h.key_local hi] at heq
  exact ZoneData.findLocaltime_at h.indexed h.increasing_local hi heq

theorem findLocal_first (h₀ : 0 < data.size) (hlt : t < data.time 0 + data.offset 1) :
    findLocal data t = .ok (data.rule 0) := by
  rw [← h.key_local h₀] at hlt
  exact ZoneData.findLocaltime_first h.localtimes_ne fun _ => hlt

theorem findLocal_last (hlt : ∀ i < data.size, data.time i + data.offset (i + 1) < t) :
    findLocal data t = .ok (data.rule data.size) := by
  refine ZoneData.findLocaltime_last h.indexed fun i hi => ?_
  rw [h.key_local hi]
  exact hlt i hi

theorem findGmt_afterLast (hi : i + 1 = data.size) (hlt : data.time i < t) :
    findGmt data t = .ok (data.rule (i + 1)) :=
  ZoneData.findLocaltime_afterLast h.indexed h.increasing_gmt hi hlt

theorem findLocal_afterLast (hi : i + 1 = data.size)
    (hlt : data.time i + data.offset (i + 1) < t) :
    findLocal data t = .ok (data.rule (i + 1)) := by
  rw [← h.key_local (by omega)] at hlt
  exact ZoneData.findLocaltime_afterLast h.indexed h.increasing_local hi hlt

/-- In the hour before the clock is moved back, and when it is, the time is recovered if
nothing else happens in the hour that repeats. -/
theorem returns_fall (hi : i < data.size) (hback : data.offset (i + 1) < data.offset i)
    (ha : findGmt data t = .ok (data.rule i)) (hlt : data.time i < t + 3600)
    (hle : t ≤ data.time i) : Returns data t ↔ data.Resumes i := by
  obtain ⟨hhour, hdst, hstd⟩ := h.back i hi hback
  rcases Nat.lt_or_eq_of_le (Nat.succ_le_of_lt hi) with hnext | hend
  · have hgap := h.apart i hnext
    have hforward := h.not_back hnext hback
    have hb : findLocal data (t + data.offset i) = .ok (data.rule (i + 2)) :=
      findLocal_between h hnext (by omega) (by omega)
    have hc : findGmt data (t + 3600) = .ok (data.rule (i + 2)) :=
      findGmt_between h hnext hlt (by omega)
    have hlast : i + 1 ≠ data.size := by omega
    have hoffsets : data.offset i = data.offset (i + 2) ∨
        data.offset i = data.offset (i + 2) + 3600 ∧ data.isDst (i + 2) = false ↔
        data.Resumes i := by
      simp only [ZoneData.Resumes, hlast, false_or]
      constructor
      · rintro (heq | ⟨heq, hnext⟩)
        · exact .inl heq.symm
        · exact .inr ⟨by omega, hnext⟩
      · rintro (heq | ⟨heq, hnext⟩)
        · exact .inl heq.symm
        · exact .inr ⟨by omega, hnext⟩
    rw [returns_iff ha hb, undone_iff_of_later hdst hc]
    exact hoffsets
  · have hb : findLocal data (t + data.offset i) = .ok (data.rule (i + 1)) :=
      findLocal_afterLast h hend (by omega)
    have hc : findGmt data (t + 3600) = .ok (data.rule (i + 1)) := findGmt_afterLast h hend hlt
    rw [returns_iff ha hb, undone_iff_of_later hdst hc]
    exact iff_of_true (.inr ⟨hhour, hstd⟩) (.inl hend)

theorem returns_before (h₀ : 0 < data.size) (hlt : t < data.time 0) :
    Returns data t ↔
      t + data.offset 0 < data.time 0 + data.offset 1 ∨
      data.time 0 + data.offset 1 < t + data.offset 0 ∧ data.Resumes 0 := by
  have ha := findGmt_first h hlt
  rcases lt_trichotomy (t + data.offset 0) (data.time 0 + data.offset 1) with hs | hs | hs
  · have hb := findLocal_first h h₀ hs
    rw [returns_iff ha hb]
    exact iff_of_true (.inl rfl) (.inl hs)
  · have hb := findLocal_at h h₀ hs
    rw [if_pos rfl] at hb
    refine iff_of_false (not_returns_of_local ha hb) ?_
    rintro (hlt' | ⟨hgt, -⟩)
    · exact hlt'.ne hs
    · exact hgt.ne' hs
  · have hback : data.offset 1 < data.offset 0 := by omega
    have hhour : data.offset 0 = data.offset 1 + 3600 := (h.back 0 h₀ hback).1
    rw [returns_fall h h₀ hback ha (by omega) hlt.le]
    constructor
    · intro hres
      exact .inr ⟨hs, hres⟩
    · rintro (hlt' | ⟨-, hres⟩)
      · exact absurd hs hlt'.not_gt
      · exact hres

theorem returns_at (hi : i < data.size) :
    Returns data (data.time i) ↔
      0 < i ∧ (data.offset (i + 1) = data.offset i ∨
        data.offset (i + 1) < data.offset i ∧ data.Resumes i) := by
  have ha := findGmt_at h hi
  cases i with
  | zero => exact iff_of_false (not_returns_of_gmt ha) fun habsurd => lt_irrefl 0 habsurd.1
  | succ i =>
    rw [if_neg (Nat.succ_ne_zero i)] at ha
    have hgap := h.apart i hi
    rcases lt_trichotomy (data.offset (i + 2)) (data.offset (i + 1)) with hδ | hδ | hδ
    · rw [returns_fall h hi hδ ha (by omega) le_rfl]
      constructor
      · intro hres
        exact ⟨i.succ_pos, .inr ⟨hδ, hres⟩⟩
      · rintro ⟨-, heq | ⟨-, hres⟩⟩
        · exact absurd heq hδ.ne
        · exact hres
    · have hb := findLocal_at (t := data.time (i + 1) + data.offset (i + 1)) h hi
        (by rw [hδ])
      rw [if_neg (Nat.succ_ne_zero i)] at hb
      rw [returns_iff ha hb]
      exact iff_of_true (.inl rfl) ⟨i.succ_pos, .inl hδ⟩
    · have hb : findLocal data (data.time (i + 1) + data.offset (i + 1)) =
          .ok (data.rule (i + 2)) :=
        findLocal_between h hi (by omega) (by omega)
      rw [returns_iff ha hb]
      apply iff_of_false
      · rintro (heq | ⟨heq, -⟩)
        · exact hδ.ne heq
        · have heq' : data.offset (i + 1) = data.offset (i + 2) + 3600 := heq
          omega
      · rintro ⟨-, heq | ⟨hlt, -⟩⟩
        · exact hδ.ne' heq
        · exact hδ.not_gt hlt

theorem returns_between (hi : i + 1 < data.size) (hlt : data.time i < t)
    (hgt : t < data.time (i + 1)) :
    Returns data t ↔
      data.time i + data.offset (i + 1) < t + data.offset (i + 2) ∨
      t + data.offset (i + 2) = data.time i + data.offset (i + 1) ∧ 0 < i ∧
        data.offset (i + 2) = data.offset i ∨
      t + data.offset (i + 2) < data.time i + data.offset (i + 1) ∧ i = 0 ∧
        data.offset 2 = data.offset 0 := by
  have ha := findGmt_between h hi hlt hgt
  rcases lt_trichotomy (data.time i + data.offset (i + 1)) (t + data.offset (i + 2))
    with hs | hs | hs
  · have hb := findLocal_between h hi hs (show _ < data.time (i + 1) + _ by omega)
    rw [returns_iff ha hb]
    exact iff_of_true (.inl rfl) (.inl hs)
  · have hback : data.offset (i + 2) < data.offset (i + 1) := by omega
    have hstd := (h.back (i + 1) hi hback).2.2
    have hb := findLocal_at h (show i < data.size by omega) hs.symm
    cases i with
    | zero =>
      refine iff_of_false (not_returns_of_local ha hb) ?_
      rintro (hlt' | ⟨-, hpos, -⟩ | ⟨hlt', -⟩)
      · exact hlt'.ne hs
      · exact lt_irrefl 0 hpos
      · exact hlt'.ne' hs
    | succ i =>
      rw [if_neg (Nat.succ_ne_zero i)] at hb
      rw [returns_iff ha hb, undone_iff_of_std hstd]
      constructor
      · intro heq
        exact .inr (.inl ⟨hs.symm, i.succ_pos, heq⟩)
      · rintro (hlt' | ⟨-, -, heq⟩ | ⟨hlt', -⟩)
        · exact absurd hs hlt'.ne
        · exact heq
        · exact absurd hs hlt'.ne'
  · have hback : data.offset (i + 2) < data.offset (i + 1) := by omega
    obtain ⟨hhour, hdst, hstd⟩ := h.back (i + 1) hi hback
    cases i with
    | zero =>
      have hb := findLocal_first h (by omega) hs
      rw [returns_iff ha hb, undone_iff_of_std hstd]
      constructor
      · intro heq
        exact .inr (.inr ⟨hs, rfl, heq⟩)
      · rintro (hlt' | ⟨heq, -⟩ | ⟨-, -, heq⟩)
        · exact absurd hs hlt'.not_gt
        · exact absurd heq hs.ne
        · exact heq
    | succ i =>
      have hprev : data.offset (i + 1) ≤ data.offset (i + 2) := by
        by_contra hback'
        exact hback.not_ge (h.not_back (i := i + 1) hi (not_le.mp hback'))
      have hhour' : data.offset (i + 2) = data.offset (i + 3) + 3600 := hhour
      have hgap := h.apart i (by omega)
      have hb : findLocal data (t + data.offset (i + 3)) = .ok (data.rule (i + 2)) :=
        findLocal_between h (by omega) (by omega) hs
      rw [returns_iff ha hb, undone_iff_of_std hstd]
      apply iff_of_false
      · intro heq
        exact hback.ne heq
      · rintro (hlt' | ⟨heq, -⟩ | ⟨-, hzero, -⟩)
        · exact hs.not_gt hlt'
        · exact hs.ne heq
        · exact Nat.succ_ne_zero i hzero

theorem returns_iff_recoverable : Returns data t ↔ data.Recoverable t := by
  constructor
  · intro hret
    refine ⟨?_, ?_, ?_⟩
    · intro h₀ hlt
      exact (returns_before h h₀ hlt).mp hret
    · rintro i hi rfl
      exact (returns_at h hi).mp hret
    · intro i hi hlt hgt
      exact (returns_between h hi hlt hgt).mp hret
  · intro hrec
    rcases data.exists_place ⟨true⟩ t with hlast | ⟨h₀, hlt⟩ | ⟨i, hi, rfl⟩ | ⟨i, hi, hlt, hgt⟩
    · have ha := findGmt_last h hlast
      have hb : findLocal data (t + data.offset data.size) = .ok (data.rule data.size) := by
        rcases Nat.eq_zero_or_pos data.size with h₀ | h₀
        · exact findLocal_last h fun i hi => absurd hi (by omega)
        · obtain ⟨n, hn⟩ := Nat.exists_eq_succ_of_ne_zero h₀.ne'
          have htime : data.time n < t := hlast n (by omega)
          rw [hn]
          exact findLocal_afterLast h hn.symm (add_lt_add_left htime _)
      exact (returns_iff ha hb).mpr (.inl rfl)
    · exact (returns_before h h₀ hlt).mpr (hrec.beforeFirst h₀ hlt)
    · exact (returns_at h hi).mpr (hrec.atTransition i hi rfl)
    · exact (returns_between h hi hlt hgt).mpr (hrec.between i hi hlt hgt)

end Places

end TimeZone

/-- The conversion to local time is undone by the conversion back for the times listed, and for
no others. -/
theorem local_time_recovered_iff (data : ZoneData) (h : data.Legal) (t : ℤ) :
    TimeZone.roundTrip ⟨some data⟩ t = .ok t ↔ data.Recoverable t :=
  (TimeZone.roundTrip_eq_ok_iff h).trans (TimeZone.returns_iff_recoverable h)

/-- New York from the end of the daylight saving time of 2014 to its beginning in 2015. -/
def newYork : ZoneData where
  transitions := [⟨1414908000, 1414890000, 1⟩, ⟨1425798000, 1425783600, 0⟩]
  localtimes := [⟨-14400, true, 0⟩, ⟨-18000, false, 4⟩]
  abbreviation := ['E', 'D', 'T', '\x00', 'E', 'S', 'T', '\x00']

theorem newYork_legal : newYork.Legal where
  localtimes_ne := by decide
  index_lt := by decide
  arrb_le := by decide
  localtime_eq := by decide
  apart := by
    intro i hi
    obtain rfl : i = 0 := by
      have hsize : newYork.size = 2 := rfl
      omega
    decide
  back := by decide

theorem local_time_recovered_winter :
    TimeZone.roundTrip ⟨some newYork⟩ 1420000000 = .ok 1420000000 := by
  refine (local_time_recovered_iff newYork newYork_legal 1420000000).mpr ⟨?_, ?_, ?_⟩
  · intro _ habsurd
    exact absurd habsurd (by decide)
  · intro i hi heq
    have hne : ∀ i < newYork.size, 1420000000 ≠ newYork.time i := by decide
    exact absurd heq (hne i hi)
  · intro i hi _ _
    obtain rfl : i = 0 := by
      have hsize : newYork.size = 2 := rfl
      omega
    exact .inl (by decide)

/-- The instant at which the daylight saving time begins comes back an hour early. -/
theorem local_time_lost_in_spring :
    newYork.Legal ∧ TimeZone.roundTrip ⟨some newYork⟩ 1425798000 = .ok 1425794400 ∧
      TimeZone.roundTrip ⟨some newYork⟩ 1425798000 ≠ .ok 1425798000 := by
  refine ⟨newYork_legal, ?_, ?_⟩
  · decide +kernel
  · decide +kernel

end Dwater
