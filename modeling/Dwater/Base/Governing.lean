import Dwater.Base.LocalTime

/-! # The governing transition

The rule in force at a time is that of the last transition which is not later. `FindLocaltime`
compares with `<` where it means to compare for equality, and so it takes the rule before the
transition for the time of the transition itself, and the rule of the next one for the times after
it. It returns the rule in force exactly where that makes no difference.
-/

set_option autoImplicit false
namespace Dwater

namespace ZoneData

/-- The rule of the last transition whose key is at most `x`, and the first rule if there is
none. -/
def governing (data : ZoneData) (comp : Comp) (x : ℤ) : Localtime :=
  match (data.transitions.filter fun transition => comp.key transition ≤ x).getLast? with
  | none => data.localtimes.getD 0 default
  | some transition => data.localtimes.getD (toSizeT transition.localtimeIndex) default

/-- The time is not that of the first transition. The rule does not change at its transition if it
is the time of one, and it does not change at the next transition if it is between two. -/
structure Steady (data : ZoneData) (comp : Comp) (x : ℤ) : Prop where
  atTransition : ∀ i < data.size, x = comp.key (data.transition i) →
    0 < i ∧ data.rule i = data.rule (i + 1)
  between : ∀ i, i + 1 < data.size → comp.key (data.transition i) < x →
    x < comp.key (data.transition (i + 1)) → data.rule (i + 2) = data.rule (i + 1)

variable {data : ZoneData} {comp : Comp} {x : ℤ} {i : ℕ}

theorem lt_size_of_getElem? {found : Transition} (h : data.transitions[i]? = some found) :
    i < data.size ∧ found = data.transition i := by
  have hi := (List.getElem?_eq_some_iff.mp h).1
  exact ⟨hi, Option.some.inj (h.symm.trans (getElem?_eq hi))⟩

theorem governing_eq (hi : i ≤ data.size) (hle : ∀ j < i, comp.key (data.transition j) ≤ x)
    (hlt : ∀ j, i ≤ j → j < data.size → x < comp.key (data.transition j)) :
    data.governing comp x = data.rule i := by
  have hfilter : (data.transitions.filter fun transition => comp.key transition ≤ x) =
      data.transitions.take i := by
    apply Search.filter_eq_take
    · intro j found hj hfound
      obtain ⟨-, rfl⟩ := lt_size_of_getElem? hfound
      exact decide_eq_true (hle j hj)
    · intro j found hj hfound
      obtain ⟨hsize, rfl⟩ := lt_size_of_getElem? hfound
      exact decide_eq_false (not_le.mpr (hlt j hj hsize))
  rw [governing, hfilter]
  cases i with
  | zero => rfl
  | succ i =>
    have hlast : (data.transitions.take (i + 1)).getLast? = some (data.transition i) := by
      rw [List.getLast?_eq_getElem?, List.length_take, Nat.min_eq_left hi, Nat.add_sub_cancel,
        List.getElem?_take, if_pos (Nat.lt_succ_self i), getElem?_eq hi]
    rw [hlast]
    rfl

section Increasing

variable (hs : data.Increasing comp)

include hs

theorem governing_at (hi : i < data.size) (hx : x = comp.key (data.transition i)) :
    data.governing comp x = data.rule (i + 1) := by
  subst hx
  refine governing_eq hi (fun j hj => hs.mono (Nat.lt_succ_iff.mp hj) hi) fun j hj hj' => ?_
  exact hs i j hj hj'

theorem governing_between (hi : i + 1 < data.size) (hlt : comp.key (data.transition i) < x)
    (hgt : x < comp.key (data.transition (i + 1))) :
    data.governing comp x = data.rule (i + 1) := by
  refine governing_eq hi.le (fun j hj => ?_) fun j hj hj' => ?_
  · exact (hs.mono (Nat.lt_succ_iff.mp hj) (by omega)).trans hlt.le
  · exact hgt.trans_le (hs.mono hj hj')

theorem Increasing.lt_of_key {j : ℕ} (hi : i < data.size)
    (h : comp.key (data.transition i) < comp.key (data.transition j)) : i < j := by
  by_contra hle
  exact absurd (hs.mono (not_lt.mp hle) hi) (not_le.mpr h)

theorem Increasing.eq_of_key {j : ℕ} (hi : i < data.size) (hj : j < data.size)
    (h : comp.key (data.transition i) = comp.key (data.transition j)) : i = j := by
  rcases Nat.lt_trichotomy i j with hij | rfl | hij
  · exact absurd h (hs i j hij hj).ne
  · rfl
  · exact absurd h (hs j i hij hi).ne'

theorem steady_at (hi : i < data.size) (hx : x = comp.key (data.transition i)) :
    data.Steady comp x ↔ 0 < i ∧ data.rule i = data.rule (i + 1) := by
  constructor
  · exact fun h => h.atTransition i hi hx
  · intro h
    constructor
    · intro j hj hxj
      obtain rfl := hs.eq_of_key hi hj (hx.symm.trans hxj)
      exact h
    · intro j hj hlt hgt
      subst hx
      have hji := hs.lt_of_key (by omega) hlt
      have hij := hs.lt_of_key hi hgt
      omega

theorem steady_between (hi : i + 1 < data.size) (hlt : comp.key (data.transition i) < x)
    (hgt : x < comp.key (data.transition (i + 1))) :
    data.Steady comp x ↔ data.rule (i + 2) = data.rule (i + 1) := by
  constructor
  · exact fun h => h.between i hi hlt hgt
  · intro h
    constructor
    · rintro j hj rfl
      have hij := hs.lt_of_key (by omega) hlt
      have hji := hs.lt_of_key hj hgt
      omega
    · intro j hj hltj hgtj
      have hij := hs.lt_of_key (by omega) (hlt.trans hgtj)
      have hji := hs.lt_of_key (by omega) (hltj.trans hgt)
      obtain rfl : i = j := by omega
      exact h

theorem steady_first (hx : x < comp.key (data.transition 0)) :
    data.Steady comp x := by
  have hbefore {j : ℕ} (hj : j < data.size) : x < comp.key (data.transition j) :=
    hx.trans_le (hs.mono (Nat.zero_le j) hj)
  refine ⟨fun j hj hxj => absurd hxj (hbefore hj).ne, fun j hj hlt _ => ?_⟩
  exact absurd hlt (hbefore (by omega)).not_gt

end Increasing

theorem steady_last (hx : ∀ j < data.size, comp.key (data.transition j) < x) :
    data.Steady comp x := by
  refine ⟨fun j hj hxj => absurd hxj (hx j hj).ne', fun j hj _ hgt => ?_⟩
  exact absurd hgt (hx (j + 1) hj).not_gt

/-- `FindLocaltime` returns the rule in force exactly at the times at which its comparison makes
no difference. -/
theorem findLocaltime_governs_iff (h : data.Indexed) (hs : data.Increasing comp)
    (sentry : Transition) :
    findLocaltime data sentry comp = .ok (data.governing comp (comp.key sentry)) ↔
      data.Steady comp (comp.key sentry) := by
  rcases exists_place data comp (comp.key sentry) with
    hlast | ⟨-, hfirst⟩ | ⟨i, hi, heq⟩ | ⟨i, hi, hlt, hgt⟩
  · have hgov := governing_eq le_rfl (fun j hj => (hlast j hj).le)
      fun j hj hj' => absurd hj' (not_lt.mpr hj)
    rw [findLocaltime_last h hlast, hgov]
    exact iff_of_true rfl (steady_last hlast)
  · have hgov := governing_eq (Nat.zero_le data.size) (fun j hj => absurd hj j.not_lt_zero)
      fun j _ hj' => hfirst.trans_le (hs.mono (Nat.zero_le j) hj')
    rw [findLocaltime_first h.localtimes_ne fun _ => hfirst, hgov]
    exact iff_of_true rfl (steady_first hs hfirst)
  · rw [findLocaltime_at h hs hi heq, governing_at hs hi heq, steady_at hs hi heq]
    rcases Nat.eq_zero_or_pos i with rfl | hpos
    · simp
    · simp [hpos, hpos.ne']
  · rw [findLocaltime_between h hs hi hlt hgt, governing_between hs hi hlt hgt,
      steady_between hs hi hlt hgt, Except.ok.injEq]

def oneSummer : ZoneData where
  transitions := [⟨1000, 8200, 1⟩, ⟨2000, 5600, 0⟩]
  localtimes := [⟨3600, false, 0⟩, ⟨7200, true, 0⟩]
  abbreviation := []

theorem oneSummer_indexed : oneSummer.Indexed := ⟨by decide, by decide⟩

theorem oneSummer_increasing : oneSummer.Increasing ⟨true⟩ := by
  apply increasing_of_step
  intro i hi
  have hsize : oneSummer.size = 2 := rfl
  obtain rfl : i = 0 := by omega
  decide

theorem findLocaltime_governs_iff_before :
    findLocaltime oneSummer ⟨999, 0, 0⟩ ⟨true⟩ = .ok (oneSummer.governing ⟨true⟩ 999) ↔
      oneSummer.Steady ⟨true⟩ 999 :=
  findLocaltime_governs_iff oneSummer_indexed oneSummer_increasing ⟨999, 0, 0⟩

/-- In the middle of the summer the standard time is taken, and when it begins the assertion
fails. -/
theorem summer_not_found :
    (oneSummer.Indexed ∧ oneSummer.Increasing ⟨true⟩) ∧
      oneSummer.governing ⟨true⟩ 1500 = ⟨7200, true, 0⟩ ∧
      findLocaltime oneSummer ⟨1500, 0, 0⟩ ⟨true⟩ = .ok ⟨3600, false, 0⟩ ∧
      findLocaltime oneSummer ⟨1000, 0, 0⟩ ⟨true⟩ = .error (.assertion .time_zone_cc 216) ∧
      ¬ findLocaltime oneSummer ⟨1500, 0, 0⟩ ⟨true⟩ = .ok (oneSummer.governing ⟨true⟩ 1500) :=
  ⟨⟨oneSummer_indexed, oneSummer_increasing⟩, by decide, by decide, by decide, by decide⟩

end ZoneData

end Dwater
