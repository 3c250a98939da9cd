import Dwater.Base.ZoneFile

/-! # Valid time zones

A time zone that has been read from a file counts as valid whatever happened while the file
was read. What it promises, that its indices stay inside its tables, holds for the complete
files whose indices are in range, and for no others.
-/

set_option autoImplicit false
namespace Dwater

open Fallible

def Fault.IsOutOfBounds : Fault → Prop
  | .outOfBounds _ _ => True
  | _ => False

/-- There is a rule, and the indices of the data are in range. -/
structure ZoneData.WellFormed (data : ZoneData) : Prop where
  localtimes_ne : data.localtimes ≠ []
  index_mem : ∀ transition ∈ data.transitions,
    0 ≤ transition.localtimeIndex ∧ transition.localtimeIndex < data.localtimes.length
  arrb_mem : ∀ found ∈ data.localtimes,
    0 ≤ found.arrbIndex ∧ found.arrbIndex ≤ data.abbreviation.length

/-- A valid zone is well formed, and converting times does not read outside of its tables. -/
structure TimeZone.Sound (zone : TimeZone) : Prop where
  wellFormed : ∀ data, zone.data = some data → data.WellFormed
  toLocalTime : zone.valid = true →
    ∀ seconds, Avoids Fault.IsOutOfBounds (zone.toLocalTime seconds) fun _ => True
  fromLocalTime : zone.valid = true →
    ∀ localtime, Avoids Fault.IsOutOfBounds (zone.fromLocalTime localtime) fun _ => True

def ReadingRaises (order : ByteOrder) (zoneFile : Option (List Byte)) : Prop :=
  ∃ bytes e s, zoneFile = some bytes ∧
    (ZoneReader.readZone order).run.run ⟨bytes, TimeZone.emptyData⟩ = .ok (.error e, s)

/-- The constructor returns a sound zone, and an invalid one if reading the file raised an
error. -/
def Validated (order : ByteOrder) (zoneFile : Option (List Byte)) : Prop :=
  Yields (TimeZone.new order zoneFile) fun zone =>
    zone.Sound ∧ (ReadingRaises order zoneFile → zone.valid = false)

/-- A complete image with a rule, whose indices are in range. -/
structure ZoneImage.Good (image : ZoneImage) : Prop where
  complete : image.Complete
  indexed : image.Indexed
  rules_ne : image.rules ≠ []
  abbrind_le : ∀ r ∈ image.rules, r.abbrind.toNat ≤ image.chars.length

namespace ZoneData

variable {data : ZoneData}

theorem toSizeT_le {n : ℤ} (h : 0 ≤ n) : (toSizeT n : ℤ) ≤ n := by
  simp only [toSizeT]
  omega

theorem localtimeAt_avoids {index : ℤ} (h : 0 ≤ index) (hlt : index < data.localtimes.length)
    (line : ℕ) :
    Avoids Fault.IsOutOfBounds (data.localtimeAt index line) (· ∈ data.localtimes) := by
  have hle := toSizeT_le h
  have hin : toSizeT index < data.localtimes.length := by omega
  rw [localtimeAt, List.getElem?_eq_getElem hin]
  exact avoids_ok.mpr (List.getElem_mem hin)

theorem WellFormed.findLocaltime_avoids (h : data.WellFormed) (sentry : Transition) (comp : Comp) :
    Avoids Fault.IsOutOfBounds (findLocaltime data sentry comp) (· ∈ data.localtimes) := by
  have hzero (line : ℕ) :
      Avoids Fault.IsOutOfBounds (data.localtimeAt 0 line) (· ∈ data.localtimes) := by
    have hpos := List.length_pos_of_ne_nil h.localtimes_ne
    exact localtimeAt_avoids le_rfl (by omega) line
  have hrule {found : Transition} (hfound : found ∈ data.transitions) (line : ℕ) :
      Avoids Fault.IsOutOfBounds (data.localtimeAt found.localtimeIndex line)
        (· ∈ data.localtimes) := by
    obtain ⟨hnonneg, hlt⟩ := h.index_mem found hfound
    exact localtimeAt_avoids hnonneg hlt line
  unfold findLocaltime
  split
  · exact hzero 210
  · next front rest heq =>
    have hfront : front ∈ data.transitions := heq ▸ List.mem_cons_self
    apply avoids_ite
    · exact fun _ => hzero 210
    intro _
    dsimp only
    split
    · next found hfound =>
      have hmem := List.mem_of_getElem? hfound
      apply avoids_ite
      · exact fun _ => hrule hmem 219
      intro _
      apply avoids_check
      · exact id
      intro _
      refine hrule ?_ 219
      rw [List.getD_eq_getElem?_getD]
      cases hprev : data.transitions[lowerBound data.transitions sentry comp - 1]? with
      | none => exact hmem
      | some prev => exact List.mem_of_getElem? hprev
    · refine hrule ?_ 221
      rw [List.getLastD_eq_getLast?]
      cases hlast : data.transitions.getLast? with
      | none => exact hfront
      | some last => exact List.mem_of_getLast? hlast

end ZoneData

namespace TimeZone

variable {data : ZoneData}

theorem abbreviationAt_avoids {index : ℤ} (h : 0 ≤ index)
    (hle : index ≤ data.abbreviation.length) :
    Avoids Fault.IsOutOfBounds (abbreviationAt data index) fun _ => True := by
  have hsize := ZoneData.toSizeT_le h
  rw [abbreviationAt, if_pos (by omega)]
  exact avoids_ok.mpr trivial

theorem toLocalTime_avoids (h : data.WellFormed) (seconds : ℤ) :
    Avoids Fault.IsOutOfBounds (toLocalTime ⟨some data⟩ seconds) fun _ => True := by
  refine avoids_bind (P := (· = data)) (avoids_ok.mpr rfl) ?_
  rintro _ rfl
  refine avoids_bind (h.findLocaltime_avoids _ _) fun found hfound => ?_
  obtain ⟨hnonneg, hle⟩ := h.arrb_mem found hfound
  exact avoids_bind (abbreviationAt_avoids hnonneg hle) fun _ _ => avoids_pure.mpr trivial

theorem repeatedHour_avoids (h : data.WellFormed) (localtime : Tm) (seconds offset : ℤ) :
    Avoids Fault.IsOutOfBounds (repeatedHour ⟨some data⟩ localtime seconds offset)
      fun _ => True := by
  apply avoids_ite
  · intro _
    exact avoids_bind (toLocalTime_avoids h _) fun _ _ => avoids_pure.mpr trivial
  · exact fun _ => avoids_pure.mpr trivial

theorem fromLocalTime_avoids (h : data.WellFormed) (localtime : Tm) :
    Avoids Fault.IsOutOfBounds (fromLocalTime ⟨some data⟩ localtime) fun _ => True := by
  refine avoids_bind (P := (· = data)) (avoids_ok.mpr rfl) ?_
  rintro _ rfl
  refine avoids_bind (h.findLocaltime_avoids _ _) fun found _ => ?_
  exact avoids_bind (repeatedHour_avoids h localtime _ _) fun _ _ => avoids_pure.mpr trivial

theorem sound_of_wellFormed (h : data.WellFormed) : Sound ⟨some data⟩ := by
  refine ⟨?_, fun _ => toLocalTime_avoids h, fun _ => fromLocalTime_avoids h⟩
  rintro _ ⟨⟩
  exact h

end TimeZone

/-- The data of an image whose indices are in range is well formed exactly when the image has a
rule and the rules point into its characters. -/
theorem ZoneImage.wellFormed_iff {image : ZoneImage} (h : image.Indexed) :
    image.data.WellFormed ↔
      image.rules ≠ [] ∧ ∀ r ∈ image.rules, r.abbrind.toNat ≤ image.chars.length := by
  have hlocal : image.data.localtimes = image.rules.map ZoneRule.localtime := rfl
  have habbr : image.data.abbreviation.length = image.chars.length := List.length_map _
  constructor
  · intro hw
    constructor
    · rintro hnil
      refine hw.localtimes_ne ?_
      rw [hlocal, hnil, List.map_nil]
    · intro r hr
      have hmem : r.localtime ∈ image.data.localtimes := hlocal ▸ List.mem_map_of_mem hr
      have hle := (hw.arrb_mem _ hmem).2
      rw [habbr] at hle
      exact Int.ofNat_le.mp hle
  · rintro ⟨hne, hle⟩
    constructor
    · rw [hlocal]
      exact fun hnil => hne (List.map_eq_nil_iff.mp hnil)
    · rintro transition hmem
      obtain ⟨item, hitem, rfl⟩ := List.mem_map.mp hmem
      rw [hlocal, List.length_map]
      exact ⟨Int.natCast_nonneg _, Int.ofNat_lt.mpr (h item hitem)⟩
    · rintro found hmem
      obtain ⟨r, hr, rfl⟩ := List.mem_map.mp (hlocal ▸ hmem)
      rw [habbr]
      exact ⟨Int.natCast_nonneg _, Int.ofNat_le.mpr (hle r hr)⟩

/-- What the constructor promises holds for the files that begin with a good image. -/
theorem zone_validated_iff (order : ByteOrder) (zoneFile : Option (List Byte)) :
    Validated order zoneFile ↔ ∃ image : ZoneImage, zoneFile = some image.text ∧ image.Good := by
  constructor
  · rintro ⟨zone, hnew, hsound, hraises⟩
    cases zoneFile with
    | none =>
      cases hnew
      exact absurd rfl (hsound.wellFormed _ rfl).localtimes_ne
    | some bytes =>
      cases hrun : (ZoneReader.readZone order).run.run ⟨bytes, TimeZone.emptyData⟩ with
      | error e =>
        simp [TimeZone.new, TimeZone.readTimeZoneFile, hrun, bind, Except.bind] at hnew
      | ok r =>
        obtain ⟨thrown, s⟩ := r
        have hzone : zone = ⟨some s.data⟩ := by
          simp only [TimeZone.new, TimeZone.readTimeZoneFile, hrun] at hnew
          cases hnew
          rfl
        subst hzone
        cases thrown with
        | error e =>
          have hinvalid := hraises ⟨bytes, e, s, rfl, hrun⟩
          cases hinvalid
        | ok u =>
          obtain ⟨image, hcomplete, hindexed, rfl, rfl⟩ := ZoneReader.reads_readZone.mp hrun
          obtain ⟨hne, hle⟩ := (ZoneImage.wellFormed_iff hindexed).mp (hsound.wellFormed _ rfl)
          exact ⟨image, rfl, hcomplete, hindexed, hne, hle⟩
  · rintro ⟨image, rfl, hgood⟩
    have hrun : (ZoneReader.readZone order).run.run ⟨image.text, TimeZone.emptyData⟩ =
        .ok (.ok (), ⟨image.rest, image.data⟩) :=
      ZoneReader.reads_readZone.mpr ⟨image, hgood.complete, hgood.indexed, rfl, rfl⟩
    have hnew : TimeZone.new order (some image.text) = .ok ⟨some image.data⟩ := by
      simp only [TimeZone.new, TimeZone.readTimeZoneFile, hrun]
      rfl
    refine ⟨_, hnew, TimeZone.sound_of_wellFormed ?_, ?_⟩
    · exact (ZoneImage.wellFormed_iff hgood.indexed).mpr ⟨hgood.rules_ne, hgood.abbrind_le⟩
    · rintro ⟨bytes, e, s, hbytes, hthrown⟩
      cases hbytes
      rw [hrun] at hthrown
      cases hthrown

/-- A file that is not there gives a valid zone without rules, and so does a file that ends after
its first bytes. -/
theorem absent_file_valid :
    (∃ zone, TimeZone.new .little none = .ok zone ∧ zone.valid = true ∧
      zone.toLocalTime 0 = .error (.outOfBounds .time_zone_cc 210)) ∧
    (∃ zone, TimeZone.new .little (some (ascii ['T', 'Z', 'i', 'f'])) = .ok zone ∧
      ReadingRaises .little (some (ascii ['T', 'Z', 'i', 'f'])) ∧ zone.valid = true) ∧
    ¬ Validated .little none := by
  refine ⟨⟨_, rfl, rfl, rfl⟩, ⟨_, rfl, ⟨_, _, _, rfl, rfl⟩, rfl⟩, ?_⟩
  rintro ⟨zone, hnew, hsound, -⟩
  cases hnew
  exact (hsound.wellFormed _ rfl).localtimes_ne rfl

end Dwater
