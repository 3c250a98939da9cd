import Mathlib.Data.Set.Card
import Dwater.Net.Poller.Agreement

/-! # The array of the poll poller

`poll` writes the events that occurred into the entries of `pollfds_`, and
`FillActiveChannels` lists the channels of the entries that have some. The channels
follow a discipline: the first update of a channel asks for events, a channel is removed
after an update that asks for none, and it is not used again. The index of every
registered channel then stays the position of its own entry.
-/

set_option autoImplicit false
namespace Dwater

open Fallible

variable {κ : Type}

theorem Channel.Plain.signExtend {ch : Channel} (h : ch.Plain) :
    (ch.events.setWidth 16).signExtend 32 = ch.events := by
  have hlt : (ch.events.setWidth 16).toNat < 8 := h.setWidth.symm ▸ h
  have hmsb : (ch.events.setWidth 16).msb = false :=
    BitVec.msb_eq_false_iff_two_mul_lt.mpr (by omega)
  rw [BitVec.signExtend_eq_setWidth_of_msb_false hmsb]
  apply BitVec.eq_of_toNat_eq
  rw [BitVec.toNat_setWidth, h.setWidth]
  exact Nat.mod_eq_of_lt ch.events.isLt

namespace PollPoller

/-- `active_channels`, and `revents_` of every channel. -/
structure Active (κ : Type) where
  channels : List κ
  revents : κ → BitVec 32

def answer (p : PollPoller κ) (revents : ℕ → BitVec 16) : PollPoller κ :=
  { p with impl := p.pollfds.mapIdx fun i pfd => { pfd with revents := revents i } }

def numEvents (p : PollPoller κ) : ℕ := p.pollfds.countP (·.revents ≠ 0)

/-- A negated entry is passed over, and no event is the sign bit of a `short`. -/
def Answered (p : PollPoller κ) : Prop :=
  ∀ pfd ∈ p.pollfds, (pfd.fd < 0 → pfd.revents = 0) ∧ 0 ≤ pfd.revents.toInt

instance decidableAnswered (p : PollPoller κ) : Decidable p.Answered :=
  inferInstanceAs (Decidable (∀ pfd ∈ p.pollfds, _ ∧ _))

variable [DecidableEq κ]

def Active.push (a : Active κ) (c : κ) (revents : BitVec 32) : Active κ :=
  ⟨a.channels ++ [c], Function.update a.revents c revents⟩

/-- The loop of `FillActiveChannels` over the entries that are left. -/
def fillFrom (p : PollPoller κ) : List PollFd → ℤ → Active κ → Except Fault (Active κ)
  | [], _, a => return a
  | pfd :: pollfds, num_events, a =>
    if num_events > 0 then
      if pfd.revents.toInt > 0 then
        match p.channels pfd.fd with
        | none => throw (.assertion .poll_poller_cc 51)
        | some c => do
          check (p.fd c = pfd.fd) (.assertion .poll_poller_cc 53)
          fillFrom p pollfds (num_events - 1) (a.push c (pfd.revents.signExtend 32))
      else fillFrom p pollfds num_events a
    else return a

def fillActiveChannels (p : PollPoller κ) (num_events : ℤ) (a : Active κ) :
    Except Fault (Active κ) :=
  fillFrom p p.pollfds num_events a

def poll (p : PollPoller κ) (revents : ℕ → BitVec 16) (a : Active κ) :
    Except Fault (PollPoller κ × Active κ) := do
  let p := p.answer revents
  if p.numEvents > 0 then
    let a ← p.fillActiveChannels p.numEvents a
    return (p, a)
  else return (p, a)

/-- The registered channels and the entries correspond, and an entry is negated exactly when its
channel has no interest. -/
structure Indexed (p : PollPoller κ) : Prop where
  size : { key | p.channels key ≠ none }.encard = p.pollfds.length
  index : ∀ {c}, p.hasChannel c = true → 0 ≤ p.index c ∧ p.index c < p.pollfds.length
  entry : ∀ {c}, p.hasChannel c = true → ∃ pfd, p.slot c = some pfd ∧
    pfd.events.signExtend 32 = (p.channel c).events ∧
    pfd.fd = if (p.channel c).isNoneEvent then -p.fd c - 1 else p.fd c
  distinct : ∀ {c d}, p.hasChannel c = true → p.hasChannel d = true → p.index c = p.index d → c = d

/-- The channels of the entries with events are appended, each once, with their events set. -/
structure Fills (p : PollPoller κ) (a b : Active κ) (listed : List κ) : Prop where
  appended : b.channels = a.channels ++ listed
  once : listed.Nodup
  mem_iff : ∀ c, c ∈ listed ↔
    p.hasChannel c = true ∧ ∃ pfd, p.slot c = some pfd ∧ pfd.revents ≠ 0
  revents : ∀ {c pfd}, c ∈ listed → p.slot c = some pfd → b.revents c = pfd.revents.signExtend 32
  others : ∀ {c}, c ∉ listed → b.revents c = a.revents c

def wipe (pfd : PollFd) : PollFd := { pfd with revents := 0 }

def blank (p : PollPoller κ) : PollPoller κ := { p with impl := p.pollfds.map wipe }

variable {p : PollPoller κ} {c : κ}

section Blank

section

omit [DecidableEq κ]

theorem blank_fields (p : PollPoller κ) : p.blank.channel = p.channel ∧ p.blank.index = p.index ∧
    p.blank.channels = p.channels ∧ p.blank.pollfds = p.pollfds.map wipe ∧ p.blank.fd = p.fd :=
  ⟨rfl, rfl, rfl, rfl, rfl⟩

theorem slot_blank : p.blank.slot c = (p.slot c).map wipe := List.getElem?_map ..

@[simp] theorem wipe_entry (ch : Channel) (fd : ℤ) : wipe (entry ch fd) = entry ch fd := rfl

theorem answer_blank (revents : ℕ → BitVec 16) : (p.answer revents).blank = p.blank := by
  have hmap : (p.answer revents).pollfds.map wipe = p.pollfds.map wipe := by
    apply List.ext_getElem?
    intro i
    rw [List.getElem?_map, List.getElem?_map, answer, List.getElem?_mapIdx, Option.map_map]
    rfl
  rw [blank, hmap]
  rfl

end

theorem updateChannel_blank : updateChannel p.blank c = blank <$> updateChannel p c := by
  obtain ⟨hch, hi, hchs, hpfds, hfd⟩ := p.blank_fields
  unfold updateChannel
  rw [hch, hi, hchs, hpfds, hfd]
  dsimp only
  split
  · simp only [map_bind]
    refine bind_congr fun _ => ?_
    simp [blank, pollfds]
  · rw [List.length_map, List.getElem?_map]
    cases p.pollfds[(p.index c).toNat]? with
    | none =>
      simp only [map_bind]
      rfl
    | some pfd =>
      simp only [Option.map_some, map_bind]
      refine bind_congr fun _ => bind_congr fun _ => bind_congr fun _ => bind_congr fun _ => ?_
      simp [blank, pollfds, List.map_set, apply_ite wipe]

theorem removeChannel_blank : removeChannel p.blank c = blank <$> removeChannel p c := by
  obtain ⟨hch, hi, hchs, hpfds, hfd⟩ := p.blank_fields
  unfold removeChannel
  rw [hch, hi, hchs, hpfds, hfd]
  dsimp only
  rw [List.length_map, List.getElem?_map, List.getLast?_map]
  cases p.pollfds[(p.index c).toNat]? with
  | none =>
    simp only [map_bind]
    rfl
  | some pfd =>
    cases p.pollfds.getLast? with
    | none =>
      simp only [map_bind]
      rfl
    | some back =>
      simp only [Option.map_some, map_bind]
      refine bind_congr fun _ => bind_congr fun _ => bind_congr fun _ => bind_congr fun _ =>
        bind_congr fun _ => bind_congr fun _ => ?_
      have hlen : p.blank.impl.length = p.impl.length := List.length_map ..
      dsimp only [pollfds]
      rw [hlen]
      split
      · simp [blank, pollfds, List.map_dropLast]
      · have hback : (wipe back).fd = back.fd := rfl
        rw [hback]
        split
        · rfl
        · simp [blank, pollfds, Poller.setIndex, List.map_dropLast, List.map_set]

theorem step_blank (x : PollerLabel κ) : p.blank.step x = blank <$> p.step x := by
  cases x with
  | change c op => exact updateChannel_blank (p := p.setChannel c (op.apply (p.channel c)))
  | remove c =>
    have hhas : p.blank.hasChannel c = p.hasChannel c := rfl
    have hch : p.blank.channel = p.channel := rfl
    simp only [step, Poller.step]
    rw [hhas, hch]
    split
    · rw [map_bind]
      exact bind_congr fun ch => removeChannel_blank (p := p.setChannel c ch)
    · rfl

end Blank

section Index

variable {q : PollPoller κ} {d : κ}

theorem Stepped.of_remove (hs : p.Stepped (.remove c) q) (hc : p.hasChannel c = true)
    (hz : (p.channel c).isNoneEvent = true) :
    q.channel = Function.update p.channel c { p.channel c with addedToLoop := false } ∧
      q.channels = Function.update p.channels (p.fd c) none ∧
      ∀ d, d ≠ c → p.hasChannel d = true → q.slot d = p.slot d := by
  cases hs with
  | removed _ _ hch hchs _ hslot => exact ⟨hch, hchs, hslot⟩
  | notRemoved hnot => exact absurd ⟨hc, hz⟩ hnot

omit [DecidableEq κ] in
theorem eq_some_of_update_none {f : ℤ → Option κ} {i j : ℤ}
    (h : Function.update f i none j = some d) : f j = some d := by
  rw [Function.update_apply] at h
  split at h
  · cases h
  · exact h

theorem updateChannel_index (h : updateChannel p c = .ok q) (hne : d ≠ c) :
    q.index d = p.index d := by
  unfold updateChannel at h
  dsimp only at h
  split at h
  · obtain ⟨_, h⟩ := check_bind_eq_ok h
    cases h
    exact Function.update_of_ne hne ..
  · obtain ⟨_, h⟩ := check_bind_eq_ok h
    obtain ⟨_, h⟩ := check_bind_eq_ok h
    obtain ⟨_, h⟩ := check_bind_eq_ok h
    split at h
    · cases h
    · obtain ⟨_, h⟩ := check_bind_eq_ok h
      cases h
      rfl

/-- Besides the removed channel only the channel of the last entry is touched, and it is
registered. -/
theorem removeChannel_index (h : removeChannel p c = .ok q) (hd : ∀ key, p.channels key ≠ some d) :
    q.index d = p.index d := by
  unfold removeChannel at h
  dsimp only at h
  obtain ⟨_, h⟩ := check_bind_eq_ok h
  obtain ⟨_, h⟩ := check_bind_eq_ok h
  obtain ⟨_, h⟩ := check_bind_eq_ok h
  obtain ⟨_, h⟩ := check_bind_eq_ok h
  split at h
  · obtain ⟨_, h⟩ := check_bind_eq_ok h
    obtain ⟨_, h⟩ := check_bind_eq_ok h
    split at h
    · cases h
      rfl
    · split at h
      · cases h
      · next e he =>
        cases h
        refine Function.update_of_ne ?_ ..
        rintro rfl
        exact hd _ (eq_some_of_update_none he)
  · cases h

theorem step_index (h : p.blank.Inv) {x : PollerLabel κ} (hs : p.step x = .ok q)
    (hd : p.hasChannel d = false) (hx : ∀ op, x ≠ .change d op) : q.index d = p.index d := by
  cases x with
  | change c op =>
    have hne : d ≠ c := by
      rintro rfl
      exact hx op rfl
    exact updateChannel_index (p := p.setChannel c (op.apply (p.channel c))) hs hne
  | remove c =>
    simp only [step, Poller.step] at hs
    split at hs
    · obtain ⟨ch, _, hs⟩ := bind_eq_ok hs
      refine removeChannel_index (p := p.setChannel c ch) hs fun key hkey => ?_
      have hfd : p.fd d = key := h.channels_fd hkey
      have hreg : p.hasChannel d = true := Poller.hasChannel_iff.mpr (hfd ▸ hkey)
      exact absurd hreg (by simp [hd])
    · cases hs
      rfl

end Index

section Fill

def ready (p : PollPoller κ) (pfd : PollFd) : Option κ :=
  if pfd.revents = 0 then none else p.channels pfd.fd

/-- The entries have distinct file descriptors, and those with events belong to channels. -/
structure Fillable (p : PollPoller κ) (pollfds : List PollFd) : Prop where
  owned : ∀ pfd ∈ pollfds, 0 ≤ pfd.revents.toInt ∧
    (pfd.revents ≠ 0 → ∃ c, p.channels pfd.fd = some c ∧ p.fd c = pfd.fd)
  nodup : (pollfds.filterMap p.ready).Nodup

/-- What the loop does to the entries that are left. -/
structure Filled (p : PollPoller κ) (pollfds : List PollFd) (a b : Active κ) : Prop where
  appended : b.channels = a.channels ++ pollfds.filterMap p.ready
  revents : ∀ {pfd c}, pfd ∈ pollfds → p.ready pfd = some c →
    b.revents c = pfd.revents.signExtend 32
  others : ∀ {c}, c ∉ pollfds.filterMap p.ready → b.revents c = a.revents c

omit [DecidableEq κ] in
theorem toInt_pos_iff {x : BitVec 16} (h : 0 ≤ x.toInt) : x.toInt > 0 ↔ x ≠ 0 := by
  constructor
  · rintro hpos rfl
    exact absurd hpos (by decide)
  · intro hne
    refine lt_of_le_of_ne h fun hz => hne ?_
    exact BitVec.toInt_inj.mp hz.symm

theorem fillFrom_zero (pollfds : List PollFd) (a : Active κ) :
    p.fillFrom pollfds 0 a = .ok a := by
  cases pollfds <;> rfl

omit [DecidableEq κ] in
theorem Fillable.tail {pfd : PollFd} {pollfds : List PollFd} (h : p.Fillable (pfd :: pollfds)) :
    p.Fillable pollfds where
  owned x hx := h.owned x (List.mem_cons_of_mem pfd hx)
  nodup := h.nodup.sublist ((List.sublist_cons_self pfd pollfds).filterMap _)

section Entry

variable {pfd : PollFd} {pollfds : List PollFd} {a : Active κ}

theorem fillFrom_skip (hr : pfd.revents = 0) {n : ℤ} (hn : 0 ≤ n) :
    p.fillFrom (pfd :: pollfds) n a = p.fillFrom pollfds n a := by
  rcases hn.eq_or_lt with rfl | hn
  · rw [fillFrom_zero, fillFrom_zero]
  · rw [fillFrom, if_pos hn, if_neg (by rw [hr]; decide)]

theorem fillFrom_push (hr : pfd.revents.toInt > 0) (hc : p.channels pfd.fd = some c)
    (hfd : p.fd c = pfd.fd) (n : ℕ) :
    p.fillFrom (pfd :: pollfds) (n + 1 : ℕ) a =
      p.fillFrom pollfds n (a.push c (pfd.revents.signExtend 32)) := by
  have hn : ((n + 1 : ℕ) : ℤ) - 1 = n := by omega
  rw [fillFrom, if_pos (by omega), if_pos hr, hc]
  dsimp only
  rw [check_bind_of_true hfd, hn]

end Entry

/-- By induction on the entries that are left, of which `num_events` have events. -/
theorem fillFrom_filled {pollfds : List PollFd} (h : p.Fillable pollfds) (a : Active κ) :
    Yields (p.fillFrom pollfds (pollfds.countP (·.revents ≠ 0)) a) (p.Filled pollfds a) := by
  induction pollfds generalizing a with
  | nil => exact ⟨a, rfl, by simp, by simp, fun _ => rfl⟩
  | cons pfd pollfds ih =>
    obtain ⟨hpos, hown⟩ := h.owned pfd List.mem_cons_self
    by_cases hr : pfd.revents = 0
    · have hready : p.ready pfd = none := if_pos hr
      rw [List.countP_cons_of_neg (by simpa using hr), fillFrom_skip hr (Int.natCast_nonneg _)]
      refine (ih h.tail a).mono fun b hb => ⟨?_, ?_, ?_⟩
      · rw [List.filterMap_cons_none hready]
        exact hb.appended
      · intro x c hx hc
        rcases List.mem_cons.mp hx with rfl | hx
        · rw [hready] at hc
          cases hc
        · exact hb.revents hx hc
      · intro c hc
        rw [List.filterMap_cons_none hready] at hc
        exact hb.others hc
    · obtain ⟨c, hc, hfd⟩ := hown hr
      have hready : p.ready pfd = some c := (if_neg hr).trans hc
      have hnodup := h.nodup
      rw [List.filterMap_cons_some hready] at hnodup
      have hnot := (List.nodup_cons.mp hnodup).1
      rw [List.countP_cons_of_pos (by simpa using hr),
        fillFrom_push ((toInt_pos_iff hpos).mpr hr) hc hfd]
      refine (ih h.tail _).mono fun b hb => ⟨?_, ?_, ?_⟩
      · rw [List.filterMap_cons_some hready, hb.appended, Active.push, List.append_assoc]
        rfl
      · intro x d hx hd
        rcases List.mem_cons.mp hx with rfl | hx
        · obtain rfl : c = d := Option.some.inj (hready.symm.trans hd)
          exact (hb.others hnot).trans (Function.update_self ..)
        · exact hb.revents hx hd
      · intro d hd
        rw [List.filterMap_cons_some hready, List.mem_cons, not_or] at hd
        exact (hb.others hd.2).trans (Function.update_of_ne hd.1 ..)

end Fill

def ownFd (pfd : PollFd) : ℤ := if pfd.fd < 0 then -pfd.fd - 1 else pfd.fd

section Owners

omit [DecidableEq κ] in
theorem exists_of_slot_blank {e : PollFd} (h : p.blank.slot c = some e) :
    ∃ pfd, p.slot c = some pfd ∧ pfd.fd = e.fd ∧ pfd.events = e.events := by
  rw [slot_blank, Option.map_eq_some_iff] at h
  obtain ⟨pfd, hs, rfl⟩ := h
  exact ⟨pfd, hs, rfl, rfl⟩

variable (h : p.blank.Inv)

include h

theorem exists_entry (hc : p.hasChannel c = true) :
    ∃ pfd, p.slot c = some pfd ∧ pfd ∈ p.pollfds ∧ ownFd pfd = p.fd c := by
  obtain ⟨x, hx, hex⟩ := h.entries hc
  obtain ⟨pfd, hs, hfd, _⟩ := exists_of_slot_blank hx
  refine ⟨pfd, hs, List.mem_of_getElem? hs, ?_⟩
  rw [ownFd, hfd]
  exact hex.restore

theorem exists_owner {i : ℕ} {pfd : PollFd} (hi : p.pollfds[i]? = some pfd) :
    ∃ c, p.hasChannel c = true ∧ p.index c = i ∧ p.slot c = some pfd ∧ ownFd pfd = p.fd c := by
  have hlt : i < p.blank.pollfds.length := by
    rw [show p.blank.pollfds.length = p.pollfds.length from List.length_map ..]
    exact (List.getElem?_eq_some_iff.mp hi).1
  obtain ⟨c, hc, hp⟩ := h.slotted.pos_surj hlt
  have hs : p.slot c = some pfd := by
    rw [slot, Slotted.slot, show p.index c = i from hp, Int.toNat_natCast, hi]
  obtain ⟨pfd', hs', _, hown⟩ := exists_entry h hc
  obtain rfl : pfd' = pfd := Option.some.inj (hs'.symm.trans hs)
  exact ⟨c, hc, hp, hs, hown⟩

theorem ownFd_nodup : (p.pollfds.map ownFd).Nodup := by
  refine List.pairwise_iff_getElem.mpr fun i j hi hj hij he => ?_
  rw [List.getElem_map, List.getElem_map] at he
  rw [List.length_map] at hi hj
  obtain ⟨c, hc, hpc, _, hown⟩ := exists_owner h (List.getElem?_eq_getElem hi)
  obtain ⟨d, hd, hpd, _, hown'⟩ := exists_owner h (List.getElem?_eq_getElem hj)
  rw [hown, hown'] at he
  obtain rfl := Poller.hasChannel_inj hd hc he
  omega

theorem mem_ownFd {key : ℤ} : key ∈ p.pollfds.map ownFd ↔ p.channels key ≠ none := by
  rw [List.mem_map, Option.ne_none_iff_exists']
  constructor
  · rintro ⟨pfd, hmem, rfl⟩
    obtain ⟨i, hi, rfl⟩ := List.getElem_of_mem hmem
    obtain ⟨c, hc, _, _, hown⟩ := exists_owner h (List.getElem?_eq_getElem hi)
    exact ⟨c, hown ▸ Poller.hasChannel_iff.mp hc⟩
  · rintro ⟨c, hc⟩
    have hfd : p.fd c = key := h.channels_fd hc
    obtain ⟨pfd, _, hmem, hown⟩ := exists_entry h (Poller.hasChannel_iff.mpr (hfd ▸ hc))
    exact ⟨pfd, hmem, hown.trans hfd⟩

theorem encard_channels : { key | p.channels key ≠ none }.encard = p.pollfds.length := by
  have hset : { key | p.channels key ≠ none } = (p.pollfds.map ownFd).toFinset := by
    ext key
    rw [Set.mem_ofPred_eq, ← mem_ownFd h, List.coe_toFinset, Set.mem_ofPred_eq]
  rw [hset, Set.encard_coe_eq_coe_finsetCard, List.toFinset_card_of_nodup (ownFd_nodup h),
    List.length_map]

theorem ready_owned {pfd : PollFd} (hr : p.ready pfd = some c) :
    pfd.revents ≠ 0 ∧ p.channels pfd.fd = some c ∧ ownFd pfd = p.fd c := by
  unfold ready at hr
  split at hr
  · cases hr
  · next hne =>
    have hfd : p.fd c = pfd.fd := h.channels_fd hr
    have hpos : 0 ≤ p.fd c := Int.natCast_nonneg _
    refine ⟨hne, hr, ?_⟩
    rw [ownFd, if_neg (by omega), hfd]

variable (ha : p.Answered)

include ha

/-- An entry is listed for a channel exactly when it is the channel's own and has events. -/
theorem ready_iff {pfd : PollFd} (hmem : pfd ∈ p.pollfds) :
    p.ready pfd = some c ↔ p.hasChannel c = true ∧ p.slot c = some pfd ∧ pfd.revents ≠ 0 := by
  obtain ⟨i, hi, rfl⟩ := List.getElem_of_mem hmem
  obtain ⟨d, hd, _, hs, hown⟩ := exists_owner h (List.getElem?_eq_getElem hi)
  constructor
  · intro hr
    obtain ⟨hne, hc, hown'⟩ := ready_owned h hr
    have hfd : p.fd c = p.pollfds[i].fd := h.channels_fd hc
    have hreg : p.hasChannel c = true := Poller.hasChannel_iff.mpr (hfd ▸ hc)
    obtain rfl := Poller.hasChannel_inj hreg hd (hown.symm.trans hown')
    exact ⟨hreg, hs, hne⟩
  · rintro ⟨hc, hs', hne⟩
    obtain ⟨pfd, hs'', _, hown'⟩ := exists_entry h hc
    obtain rfl := Option.some.inj (hs''.symm.trans hs')
    have hpos : ¬ p.pollfds[i].fd < 0 := fun hneg => hne ((ha _ hmem).1 hneg)
    rw [ownFd, if_neg hpos] at hown'
    rw [ready, if_neg hne, hown']
    exact Poller.hasChannel_iff.mp hc

theorem fillable : p.Fillable p.pollfds where
  owned pfd hmem := by
    refine ⟨(ha pfd hmem).2, fun hne => ?_⟩
    obtain ⟨i, hi, rfl⟩ := List.getElem_of_mem hmem
    obtain ⟨c, hc, _, hs, _⟩ := exists_owner h (List.getElem?_eq_getElem hi)
    have hr := (ready_iff h ha hmem).mpr ⟨hc, hs, hne⟩
    have hreg := (ready_owned h hr).2.1
    exact ⟨c, hreg, h.channels_fd hreg⟩
  nodup := by
    refine (List.pairwise_map.mp (ownFd_nodup h)).filterMap _ fun x y hne c hc d hd => ?_
    rintro rfl
    exact hne ((ready_owned h hc).2.2.trans (ready_owned h hd).2.2.symm)

theorem fillActiveChannels_fills (a : Active κ) :
    Yields (p.fillActiveChannels p.numEvents a) fun b => ∃ listed, p.Fills a b listed := by
  have hfill := fillable h ha
  refine (fillFrom_filled hfill a).mono fun b hb => ⟨_, hb.appended, hfill.nodup, ?_, ?_, hb.others⟩
  · intro c
    rw [List.mem_filterMap]
    constructor
    · rintro ⟨pfd, hmem, hr⟩
      obtain ⟨hc, hs, hne⟩ := (ready_iff h ha hmem).mp hr
      exact ⟨hc, pfd, hs, hne⟩
    · rintro ⟨hc, pfd, hs, hne⟩
      have hmem : pfd ∈ p.pollfds := List.mem_of_getElem? hs
      exact ⟨pfd, hmem, (ready_iff h ha hmem).mpr ⟨hc, hs, hne⟩⟩
  · intro c pfd hc hs
    obtain ⟨pfd', hmem, hr⟩ := List.mem_filterMap.mp hc
    obtain ⟨_, hs', _⟩ := (ready_iff h ha hmem).mp hr
    obtain rfl : pfd' = pfd := Option.some.inj (hs'.symm.trans hs)
    exact hb.revents hmem hr

end Owners

end PollPoller

inductive ChannelStage
  | unused
  | registered
  | removed
  deriving DecidableEq, Repr

/-- The poll poller with what was called for every channel so far. -/
structure PollRun (κ : Type) where
  poller : PollPoller κ
  stage : κ → ChannelStage
  active : PollPoller.Active κ

inductive PollLabel (κ : Type)
  | call (x : PollerLabel κ)
  | poll (revents : ℕ → BitVec 16)

namespace PollRun

def new (fd : κ → ℕ) : PollRun κ := ⟨.new fd, fun _ => .unused, ⟨[], fun _ => 0⟩⟩

variable [DecidableEq κ]

def stageAfter (s : PollRun κ) : PollerLabel κ → κ → ChannelStage
  | .change c _ => Function.update s.stage c .registered
  | .remove c => Function.update s.stage c .removed

/-- The loop clears its active channels before every call of `Poll`. -/
def step (s : PollRun κ) : PollLabel κ → Except Fault (PollRun κ)
  | .call x => do
    let p ← s.poller.step x
    return { s with poller := p, stage := s.stageAfter x }
  | .poll revents => do
    let (p, a) ← s.poller.poll revents { s.active with channels := [] }
    return { s with poller := p, active := a }

/-- The first update of a channel asks for events, a channel is removed when its last update asked
for none, and it is not used again. -/
def Disciplined (s : PollRun κ) : PollLabel κ → Prop
  | .call (.change c op) => s.stage c ≠ .removed ∧
      (s.stage c = .unused → (op.apply (s.poller.channel c)).isNoneEvent = false)
  | .call (.remove c) => s.stage c = .registered ∧ (s.poller.channel c).isNoneEvent = true
  | .poll revents => (s.poller.answer revents).Answered

structure Inv (fd : κ → ℕ) (s : PollRun κ) : Prop where
  poller : s.poller.blank.Inv
  fd_eq : ∀ c, (s.poller.channel c).fd = fd c
  plain : ∀ c, (s.poller.channel c).Plain
  unused : ∀ {c}, s.stage c = .unused → s.poller.index c < 0
  registered : ∀ {c}, s.stage c = .registered ↔ s.poller.hasChannel c = true
  parked : ∀ {c}, s.poller.hasChannel c = true → (s.poller.channel c).isNoneEvent = true →
    s.poller.blank.parked c = true

variable {fd : κ ↪ ℕ} {s : PollRun κ}

theorem Inv.owns (h : s.Inv fd) {c d : κ} (he : s.poller.fd d = s.poller.fd c) : d = c := by
  simp only [Poller.fd, h.fd_eq] at he
  exact fd.injective (Int.ofNat_inj.mp he)

theorem Inv.stage_unused (h : s.Inv fd) {c : κ} (hc : s.poller.hasChannel c = false)
    (hr : s.stage c ≠ .removed) : s.stage c = .unused := by
  cases hst : s.stage c with
  | unused => rfl
  | registered => exact absurd (h.registered.mp hst) (by simp [hc])
  | removed => exact absurd hst hr

theorem Inv.stepped (h : s.Inv fd) {x : PollerLabel κ} (hd : s.Disciplined (.call x)) :
    Yields (s.poller.step x) fun q => s.poller.blank.Stepped x q.blank := by
  have hblank : Yields (s.poller.blank.step x) (s.poller.blank.Stepped x) := by
    cases x with
    | change c op =>
      cases hc : s.poller.hasChannel c with
      | true => exact PollPoller.step_change_registered h.poller hc
      | false =>
        have hi := h.unused (h.stage_unused hc hd.1)
        exact PollPoller.step_change_new h.poller hc (fun d _ he => h.owns he) hi
    | remove c =>
      have hc := h.registered.mp hd.1
      exact PollPoller.step_remove h.poller hc hd.2 (h.parked hc hd.2)
  obtain ⟨q', hq', hst⟩ := hblank
  rw [PollPoller.step_blank] at hq'
  obtain ⟨q, hq, rfl⟩ := map_eq_ok hq'
  exact ⟨q, hq, hst⟩

section Call

variable (h : s.Inv fd) {q : PollPoller κ} {c : κ}

include h

theorem Inv.unused_index {x : PollerLabel κ} (hq : s.poller.step x = .ok q) {d : κ}
    (hd : s.stage d = .unused) (hx : ∀ op, x ≠ .change d op) : q.index d < 0 := by
  have hnot : s.poller.hasChannel d = false := by
    rw [← Bool.not_eq_true, ← h.registered, hd]
    decide
  rw [PollPoller.step_index h.poller hq hnot hx]
  exact h.unused hd

theorem Inv.parked_other {d : κ} (hd : s.poller.hasChannel d = true)
    (hq : q.hasChannel d = true) (hch : q.channel d = s.poller.channel d)
    (hslot : q.blank.slot d = s.poller.blank.slot d) (hz : (q.channel d).isNoneEvent = true) :
    q.blank.parked d = true := by
  have hpark := h.parked hd (hch ▸ hz)
  unfold PollPoller.parked at hpark ⊢
  rw [Bool.and_eq_true] at hpark ⊢
  exact ⟨hq, hslot ▸ hpark.2⟩

theorem Inv.updated {ch : Channel} {stage : ChannelStage} (hinv : q.blank.Inv)
    (hch : q.channel = Function.update s.poller.channel c ch)
    (hfd : ch.fd = (s.poller.channel c).fd) (hplain : ch.Plain) (hstage : stage ≠ .unused)
    (hunused : ∀ d, d ≠ c → s.stage d = .unused → q.index d < 0)
    (hself : stage = .registered ↔ q.hasChannel c = true)
    (hother : ∀ d, d ≠ c → q.hasChannel d = s.poller.hasChannel d)
    (hslot : ∀ d, d ≠ c → s.poller.hasChannel d = true →
      q.blank.slot d = s.poller.blank.slot d)
    (hpark : q.hasChannel c = true → ch.isNoneEvent = true → q.blank.parked c = true) :
    Inv fd { s with poller := q, stage := Function.update s.stage c stage } where
  poller := hinv
  fd_eq d := (Int.ofNat_inj.mp (Poller.fd_of_update hch hfd d)).trans (h.fd_eq d)
  plain := by
    dsimp only
    rw [hch]
    exact Channel.plain_update h.plain hplain
  unused {d} hd := by
    dsimp only at hd
    by_cases hdc : d = c
    · subst hdc
      rw [Function.update_self] at hd
      exact absurd hd hstage
    · rw [Function.update_of_ne hdc] at hd
      exact hunused d hdc hd
  registered {d} := by
    dsimp only
    by_cases hdc : d = c
    · subst hdc
      rw [Function.update_self]
      exact hself
    · rw [Function.update_of_ne hdc, hother d hdc]
      exact h.registered
  parked {d} hd hz := by
    by_cases hdc : d = c
    · subst hdc
      refine hpark hd ?_
      rwa [hch, Function.update_self] at hz
    · have hreg : s.poller.hasChannel d = true := (hother d hdc).symm.trans hd
      refine h.parked_other hreg hd ?_ (hslot d hdc hreg) hz
      rw [hch, Function.update_of_ne hdc]

theorem Inv.change {op : ChannelOp} (hd : s.Disciplined (.call (.change c op)))
    (hq : s.poller.step (.change c op) = .ok q)
    (hst : s.poller.blank.Stepped (.change c op) q.blank) :
    Inv fd { s with poller := q, stage := s.stageAfter (.change c op) } := by
  have hinv : q.blank.Inv := hst.inv (x := .change c op) h.poller fun d _ he => h.owns he
  cases hst with
  | @placed _ _ _ y hch hchs _ hslot hself hy =>
    have hqch : q.channel =
      Function.update s.poller.channel c (op.apply (s.poller.channel c)) := hch
    have hfd (d : κ) : q.fd d = s.poller.fd d := Poller.fd_of_update hqch (op.apply_fd _) d
    have hlive (d : κ) : q.hasChannel d = true ↔ s.poller.hasChannel d = true ∨ d = c :=
      Poller.hasChannel_register hfd hchs (fun d _ he => h.owns he) d
    have hreg : q.hasChannel c = true := (hlive c).mpr (.inr rfl)
    refine h.updated hinv hqch (op.apply_fd _) (op.apply_plain (h.plain c)) (by decide) ?_
      (iff_of_true rfl hreg) ?_ hslot fun _ hz => ?_
    · intro d hdc hun
      refine h.unused_index hq hun fun op' he => hdc ?_
      cases he
      rfl
    · intro d hdc
      rw [Bool.eq_iff_iff, hlive, or_iff_left hdc]
    · have hself' : q.blank.slot c = some (PollPoller.entry (q.channel c) y) := by
        rw [hqch, Function.update_self]
        exact hself
      refine (hinv.parked_iff hreg hself').mpr ?_
      rcases hy with ⟨_, hnot⟩ | ⟨hy, _⟩
      · exact absurd (hd.2 (h.stage_unused (hnot hz) hd.1)) (by simp [hz])
      · exact hy.trans (congrArg (fun x => -x - 1) (hfd c).symm)

theorem Inv.remove (hd : s.Disciplined (.call (.remove c)))
    (hq : s.poller.step (.remove c) = .ok q)
    (hst : s.poller.blank.Stepped (.remove c) q.blank) :
    Inv fd { s with poller := q, stage := s.stageAfter (.remove c) } := by
  have hinv : q.blank.Inv := hst.inv (x := .remove c) h.poller trivial
  obtain ⟨hch, hchs, hslot⟩ := hst.of_remove (h.registered.mp hd.1) hd.2
  have hqch : q.channel = Function.update s.poller.channel c
    { s.poller.channel c with addedToLoop := false } := hch
  have hfd (d : κ) : q.fd d = s.poller.fd d := Poller.fd_of_update hqch (by rfl) d
  have hlive (d : κ) : q.hasChannel d = true ↔ s.poller.hasChannel d = true ∧ d ≠ c :=
    Poller.hasChannel_unregister hfd hchs (h.registered.mp hd.1) d
  have hnot : ¬ q.hasChannel c = true := fun hc => ((hlive c).mp hc).2 rfl
  refine h.updated hinv hqch (by rfl) (h.plain c) (by decide) ?_
    (iff_of_false (by decide) hnot) ?_ hslot fun hc => absurd hc hnot
  · intro d _ hun
    refine h.unused_index hq hun fun op he => ?_
    cases he
  · intro d hdc
    rw [Bool.eq_iff_iff, hlive, and_iff_left hdc]

end Call

theorem Inv.indexed (h : s.Inv fd) : s.poller.Indexed where
  size := PollPoller.encard_channels h.poller
  index hc := by
    have hlt := h.poller.slotted.pos_lt hc
    rw [show s.poller.blank.pollfds.length = s.poller.pollfds.length from List.length_map ..] at hlt
    exact ⟨h.poller.slotted.pos_nonneg hc, hlt⟩
  entry {c} hc := by
    obtain ⟨x, hx, hex⟩ := h.poller.entries hc
    obtain ⟨pfd, hs, hfd, hev⟩ := PollPoller.exists_of_slot_blank hx
    refine ⟨pfd, hs, ?_, ?_⟩
    · rw [hev]
      exact (h.plain c).signExtend
    · rw [hfd]
      cases hz : (s.poller.channel c).isNoneEvent with
      | true => exact (h.poller.parked_iff hc hx).mp (h.parked hc hz)
      | false =>
        refine hex.resolve_right fun hneg => ?_
        exact absurd (hz.symm.trans hneg.2) (by decide)
  distinct := h.poller.slotted.pos_inj

theorem Inv.answer (h : s.Inv fd) (revents : ℕ → BitVec 16) (a : PollPoller.Active κ) :
    Inv fd { s with poller := s.poller.answer revents, active := a } where
  poller := s.poller.answer_blank revents ▸ h.poller
  fd_eq := h.fd_eq
  plain := h.plain
  unused := h.unused
  registered := h.registered
  parked hc hz := s.poller.answer_blank revents ▸ h.parked hc hz

theorem Inv.step (h : s.Inv fd) {x : PollLabel κ} (hd : s.Disciplined x) :
    Yields (s.step x) (Inv fd) := by
  cases x with
  | call x =>
    obtain ⟨q, hq, hst⟩ := h.stepped hd
    refine ⟨_, by rw [PollRun.step, hq]; rfl, ?_⟩
    cases x with
    | change c op => exact h.change hd hq hst
    | remove c => exact h.remove hd hq hst
  | poll revents =>
    obtain ⟨b, hb, _⟩ := PollPoller.fillActiveChannels_fills
      (s.poller.answer_blank revents ▸ h.poller) hd { s.active with channels := [] }
    simp only [PollRun.step, PollPoller.poll]
    split
    · refine ⟨_, by rw [hb]; rfl, ?_⟩
      exact h.answer revents b
    · exact ⟨_, rfl, h.answer revents _⟩

theorem new_inv : (new fd).Inv fd where
  poller := PollPoller.new_inv fd
  fd_eq _ := rfl
  plain _ := show (0#32).toNat < 8 by decide
  unused _ := show (-1 : ℤ) < 0 by decide
  registered := by simp [new, Poller.hasChannel, PollPoller.new, Poller.new]
  parked hc := by simp [new, Poller.hasChannel, PollPoller.new, Poller.new] at hc

end PollRun

end Dwater
