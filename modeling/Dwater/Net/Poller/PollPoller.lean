import Dwater.Lib.Slots
import Dwater.Net.Poller.Poller

/-! # The poll poller

The index of a channel is the position of its entry in `pollfds_`. A channel without
interest is kept there with its file descriptor negated, so that `poll` passes over it.
A removed channel gives its position to the last entry.
-/

set_option autoImplicit false
namespace Dwater

open Fallible

variable {κ : Type}

structure PollFd where
  fd : ℤ
  events : BitVec 16
  revents : BitVec 16
  deriving DecidableEq, Repr

abbrev PollPoller (κ : Type) := Poller κ (List PollFd)

namespace PollPoller

def new (fd : κ → ℕ) : PollPoller κ := Poller.new fd []

abbrev pollfds (p : PollPoller κ) : List PollFd := p.impl

def entry (ch : Channel) (fd : ℤ) : PollFd := ⟨fd, ch.events.setWidth 16, 0⟩

variable [DecidableEq κ]

def updateChannel (p : PollPoller κ) (c : κ) : Except Fault (PollPoller κ) := do
  let ch := p.channel c
  let fd := p.fd c
  if p.index c < 0 then
    check (p.channels fd = none) (.assertion .poll_poller_cc 65)
    let pollfds := p.pollfds ++ [entry ch fd]
    let index : ℤ := pollfds.length - 1
    return { p with
      impl := pollfds
      index := Function.update p.index c index
      channels := Function.update p.channels fd (some c) }
  else
    check (p.channels fd ≠ none) (.assertion .poll_poller_cc 75)
    check (p.channels fd = some c) (.assertion .poll_poller_cc 76)
    let index := p.index c
    check (0 ≤ index ∧ index < p.pollfds.length) (.assertion .poll_poller_cc 78)
    match p.pollfds[index.toNat]? with
    | none => throw (.outOfBounds .poll_poller_cc 79)
    | some pfd =>
      check (pfd.fd = fd ∨ pfd.fd = -fd - 1) (.assertion .poll_poller_cc 80)
      let pfd := if ch.isNoneEvent then entry ch (-fd - 1) else entry ch fd
      return { p with impl := p.pollfds.set index.toNat pfd }

def removeChannel (p : PollPoller κ) (c : κ) : Except Fault (PollPoller κ) := do
  let ch := p.channel c
  let fd := p.fd c
  check (p.channels fd ≠ none) (.assertion .poll_poller_cc 93)
  check (p.channels fd = some c) (.assertion .poll_poller_cc 94)
  check (ch.isNoneEvent = true) (.assertion .poll_poller_cc 95)
  let index := p.index c
  check (0 ≤ index ∧ index < p.pollfds.length) (.assertion .poll_poller_cc 97)
  match p.pollfds[index.toNat]?, p.pollfds.getLast? with
  | some pfd, some back =>
    check (pfd.fd = -fd - 1 ∧ pfd.events.signExtend 32 = ch.events)
      (.assertion .poll_poller_cc 100)
    let n := if (p.channels fd).isSome then 1 else 0
    let p : PollPoller κ := { p with channels := Function.update p.channels fd none }
    check (n = 1) (.assertion .poll_poller_cc 102)
    if index = p.pollfds.length - 1 then
      return { p with impl := p.pollfds.dropLast }
    else
      -- the two entries are swapped and the last one is dropped
      let channelAtEnd := if back.fd < 0 then -back.fd - 1 else back.fd
      match p.channels channelAtEnd with
      | none => throw (.nullPointer .poll_poller_cc 111)
      | some d =>
        return { p.setIndex d index with impl := (p.pollfds.set index.toNat back).dropLast }
  | _, _ => throw (.outOfBounds .poll_poller_cc 98)

def step : PollPoller κ → PollerLabel κ → Except Fault (PollPoller κ) :=
  Poller.step updateChannel removeChannel

def slot (p : PollPoller κ) (c : κ) : Option PollFd := Slotted.slot p.pollfds (p.index c)

/-- The channel is registered and `poll` passes over it. -/
def parked (p : PollPoller κ) (c : κ) : Bool :=
  p.hasChannel c && (p.slot c).any (·.fd < 0)

/--
A change is not made to a channel that was removed, and it leaves the interest empty only when the
channel's entry is not negated already. A channel is removed only when its entry is negated.
-/
def KeepsParking (p : PollPoller κ) : PollerLabel κ → Prop
  | .change c op => (0 ≤ p.index c → p.hasChannel c = true) ∧
      ((op.apply (p.channel c)).isNoneEvent = true → p.parked c = false)
  | .remove c => p.hasChannel c = true → (p.channel c).isNoneEvent = true → p.parked c = true

/-- The file descriptor in the entry of a channel: negated only when there is no interest. -/
def EntryFd (ch : Channel) (fd x : ℤ) : Prop := x = fd ∨ x = -fd - 1 ∧ ch.isNoneEvent = true

structure Inv (p : PollPoller κ) : Prop where
  slotted : Slotted p.pollfds p.index fun c => p.hasChannel c = true
  entries : ∀ {c}, p.hasChannel c = true →
    ∃ x, p.slot c = some (entry (p.channel c) x) ∧ EntryFd (p.channel c) (p.fd c) x
  channels_fd : ∀ {key c}, p.channels key = some c → p.fd c = key

inductive Stepped (p : PollPoller κ) : PollerLabel κ → PollPoller κ → Prop

  | placed {c : κ} {op : ChannelOp} {q : PollPoller κ} {x : ℤ} :
      q.channel = Function.update p.channel c (op.apply (p.channel c)) →
      q.channels = Function.update p.channels (p.fd c) (some c) →
      Slotted q.pollfds q.index (fun d => q.hasChannel d = true) →
      (∀ d, d ≠ c → p.hasChannel d = true → q.slot d = p.slot d) →
      q.slot c = some (entry (op.apply (p.channel c)) x) →
      (x = p.fd c ∧ ((op.apply (p.channel c)).isNoneEvent = true → p.hasChannel c = false) ∨
        x = -p.fd c - 1 ∧ p.hasChannel c = true ∧
          (op.apply (p.channel c)).isNoneEvent = true) →
      Stepped p (.change c op) q

  | removed {c : κ} {q : PollPoller κ} : p.hasChannel c = true →
      (p.channel c).isNoneEvent = true →
      q.channel = Function.update p.channel c { p.channel c with addedToLoop := false } →
      q.channels = Function.update p.channels (p.fd c) none →
      Slotted q.pollfds q.index (fun d => q.hasChannel d = true) →
      (∀ d, d ≠ c → p.hasChannel d = true → q.slot d = p.slot d) →
      Stepped p (.remove c) q

  | notRemoved {c : κ} : ¬ (p.hasChannel c = true ∧ (p.channel c).isNoneEvent = true) →
      Stepped p (.remove c) p

variable {p : PollPoller κ} {c : κ}

theorem Inv.channels_none (h : p.Inv) (hc : p.hasChannel c = false)
    (ho : ∀ d, p.hasChannel d = true → p.fd d = p.fd c → d = c) :
    p.channels (p.fd c) = none := by
  cases hd : p.channels (p.fd c) with
  | none => rfl
  | some d =>
    have hfd := h.channels_fd hd
    have hh : p.hasChannel d = true := by rw [Poller.hasChannel_iff, hfd, hd]
    obtain rfl := ho d hh hfd
    exact absurd hh (by simp [hc])

theorem updateChannel_new (hi : p.index c < 0) (hc : p.channels (p.fd c) = none) :
    updateChannel p c = .ok { p with
      impl := p.pollfds ++ [entry (p.channel c) (p.fd c)]
      index := Function.update p.index c p.pollfds.length
      channels := Function.update p.channels (p.fd c) (some c) } := by
  have hlen : ((p.pollfds ++ [entry (p.channel c) (p.fd c)]).length : ℤ) - 1 =
      p.pollfds.length := by
    simp
  unfold updateChannel
  dsimp only
  rw [if_pos hi, check_bind_of_true hc, hlen]
  rfl

theorem updateChannel_registered (h : Slotted p.pollfds p.index fun c => p.hasChannel c = true)
    (hc : p.hasChannel c = true) {pfd : PollFd} (hs : p.slot c = some pfd)
    (hfd : pfd.fd = p.fd c ∨ pfd.fd = -p.fd c - 1) :
    updateChannel p c = .ok { p with
      impl := p.pollfds.set (p.index c).toNat
        (entry (p.channel c) (if (p.channel c).isNoneEvent then -p.fd c - 1 else p.fd c)) } := by
  have hreg := Poller.hasChannel_iff.mp hc
  have hreg' : p.channels (p.fd c) ≠ none := by rw [hreg]; exact Option.some_ne_none c
  have hi : ¬ p.index c < 0 := not_lt.mpr (h.pos_nonneg hc)
  have hslot : p.pollfds[(p.index c).toNat]? = some pfd := hs
  unfold updateChannel
  dsimp only
  rw [if_neg hi, check_bind_of_true hreg', check_bind_of_true hreg,
    check_bind_of_true ⟨h.pos_nonneg hc, h.pos_lt hc⟩, hslot]
  dsimp only
  rw [check_bind_of_true hfd]
  split <;> rfl

section Change

variable {op : ChannelOp}

theorem setChannel_hasChannel {ch : Channel} (hfd : ch.fd = (p.channel c).fd) (d : κ) :
    (p.setChannel c ch).hasChannel d = p.hasChannel d := by
  simp only [Poller.hasChannel, Poller.setChannel_fd hfd]
  rfl

theorem step_change_new (h : p.Inv) (hc : p.hasChannel c = false)
    (ho : ∀ d, p.hasChannel d = true → p.fd d = p.fd c → d = c) (hi : p.index c < 0) :
    Yields (p.step (.change c op)) (p.Stepped (.change c op)) := by
  set ch := op.apply (p.channel c)
  set q : PollPoller κ := p.setChannel c ch
  have hfd (d : κ) : q.fd d = p.fd d := Poller.setChannel_fd (op.apply_fd _) d
  have hqc : q.channel c = ch := Poller.setChannel_channel_self _
  have hnone : q.channels (q.fd c) = none := by
    rw [hfd]
    exact h.channels_none hc ho
  refine ⟨_, updateChannel_new hi hnone, ?_⟩
  rw [hqc, hfd]
  have hnot : ¬ p.hasChannel c = true := by simp [hc]
  have hlive := Poller.hasChannel_register (p := p) (c := c) (q := { q with
    impl := q.pollfds ++ [entry ch (p.fd c)]
    index := Function.update q.index c q.pollfds.length
    channels := Function.update q.channels (p.fd c) (some c) }) hfd rfl ho
  refine .placed (x := p.fd c) rfl rfl ?_ ?_ ?_ (.inl ⟨rfl, fun _ => hc⟩)
  · exact h.slotted.push hnot hlive (Function.update_self ..)
      (fun d hd => Function.update_of_ne hd ..) _
  · intro d _ hd
    exact h.slotted.slot_push_other hnot (fun d hd => Function.update_of_ne hd ..) hd _
  · exact Slotted.slot_push_self (Function.update_self ..) _

theorem step_change_registered (h : p.Inv) (hc : p.hasChannel c = true) :
    Yields (p.step (.change c op)) (p.Stepped (.change c op)) := by
  set ch := op.apply (p.channel c)
  set q : PollPoller κ := p.setChannel c ch
  have hfd (d : κ) : q.fd d = p.fd d := Poller.setChannel_fd (op.apply_fd _) d
  have hqc : q.channel c = ch := Poller.setChannel_channel_self _
  have hhas (d : κ) : q.hasChannel d = p.hasChannel d := setChannel_hasChannel (op.apply_fd _) d
  have hslotted : Slotted q.pollfds q.index fun d => q.hasChannel d = true := by
    simp only [hhas]
    exact h.slotted
  obtain ⟨x, hx, hex⟩ := h.entries hc
  have hentry : (entry (p.channel c) x).fd = q.fd c ∨ (entry (p.channel c) x).fd = -q.fd c - 1 := by
    rw [hfd]
    exact hex.imp id And.left
  refine ⟨_, updateChannel_registered hslotted (by rw [hhas]; exact hc) hx hentry, ?_⟩
  rw [hqc, hfd]
  have hsame : Function.update p.channels (p.fd c) (some c) = p.channels :=
    Function.update_eq_self_iff.mpr (Poller.hasChannel_iff.mp hc).symm
  refine .placed (x := if ch.isNoneEvent then -p.fd c - 1 else p.fd c) rfl hsame.symm
    (hslotted.set _ _) ?_ (h.slotted.slot_set_self hc _) ?_
  · intro d hne hd
    exact h.slotted.slot_set_other hc hd hne _
  · cases hz : ch.isNoneEvent with
    | true => exact .inr ⟨if_pos rfl, hc, rfl⟩
    | false => exact .inl ⟨if_neg (by decide), fun hz => absurd hz (by decide)⟩

end Change

theorem Inv.parked_slot (h : p.Inv) (hc : p.parked c = true) :
    p.slot c = some (entry (p.channel c) (-p.fd c - 1)) := by
  simp only [parked, Bool.and_eq_true] at hc
  obtain ⟨x, hx, hex⟩ := h.entries hc.1
  have hneg : x < 0 := by simpa [hx, entry] using hc.2
  rcases hex with rfl | ⟨rfl, _⟩
  · have hfd : 0 ≤ p.fd c := Int.natCast_nonneg _
    omega
  · exact hx

theorem signExtend_of_isNoneEvent {ch : Channel} (hz : ch.isNoneEvent = true) :
    (ch.events.setWidth 16).signExtend 32 = ch.events := by
  have he : ch.events = Channel.knoneEvent := by simpa [Channel.isNoneEvent] using hz
  rw [he]
  decide

theorem step_remove_eq (hc : p.hasChannel c = true) (hz : (p.channel c).isNoneEvent = true) :
    p.step (.remove c) =
      removeChannel (p.setChannel c { p.channel c with addedToLoop := false }) c := by
  simp only [step, Poller.step]
  rw [if_pos ⟨hc, hz⟩, Channel.remove, check_bind_of_true hz]
  rfl

section Remove

variable (h : Slotted p.pollfds p.index fun c => p.hasChannel c = true)
  (hc : p.hasChannel c = true) (hz : (p.channel c).isNoneEvent = true)

include h hc hz

theorem removeChannel_eq {pfd back : PollFd} (hs : p.slot c = some pfd)
    (hb : p.pollfds.getLast? = some back) :
    removeChannel p c = do
      check (pfd.fd = -p.fd c - 1 ∧ pfd.events.signExtend 32 = (p.channel c).events)
        (.assertion .poll_poller_cc 100)
      let channels := Function.update p.channels (p.fd c) none
      if p.index c = p.pollfds.length - 1 then
        return { p with channels := channels, impl := p.pollfds.dropLast }
      else
        match channels (if back.fd < 0 then -back.fd - 1 else back.fd) with
        | none => throw (.nullPointer .poll_poller_cc 111)
        | some d => return { p with
            channels := channels
            index := Function.update p.index d (p.index c)
            impl := (p.pollfds.set (p.index c).toNat back).dropLast } := by
  have hreg := Poller.hasChannel_iff.mp hc
  have hreg' : p.channels (p.fd c) ≠ none := by rw [hreg]; exact Option.some_ne_none c
  have hn : (if (p.channels (p.fd c)).isSome then 1 else 0) = 1 := by rw [hreg]; rfl
  have hslot : p.pollfds[(p.index c).toNat]? = some pfd := hs
  unfold removeChannel
  dsimp only
  rw [check_bind_of_true hreg', check_bind_of_true hreg, check_bind_of_true hz,
    check_bind_of_true ⟨h.pos_nonneg hc, h.pos_lt hc⟩, hslot, hb]
  dsimp only
  rw [check_bind_of_true hn]
  rfl

variable (hs : p.slot c = some (entry (p.channel c) (-p.fd c - 1))) {back : PollFd}
  (hb : p.pollfds.getLast? = some back)

include hs hb

theorem removeChannel_last (hlast : p.index c = p.pollfds.length - 1) :
    removeChannel p c = .ok { p with
      channels := Function.update p.channels (p.fd c) none
      impl := p.pollfds.dropLast } := by
  rw [removeChannel_eq h hc hz hs hb, check_bind_of_true ⟨rfl, signExtend_of_isNoneEvent hz⟩]
  exact if_pos hlast

theorem removeChannel_swap (hlast : p.index c ≠ p.pollfds.length - 1) {d : κ}
    (hd : Function.update p.channels (p.fd c) none
      (if back.fd < 0 then -back.fd - 1 else back.fd) = some d) :
    removeChannel p c = .ok { p with
      channels := Function.update p.channels (p.fd c) none
      index := Function.update p.index d (p.index c)
      impl := (p.pollfds.set (p.index c).toNat back).dropLast } := by
  rw [removeChannel_eq h hc hz hs hb, check_bind_of_true ⟨rfl, signExtend_of_isNoneEvent hz⟩]
  dsimp only
  rw [if_neg hlast, hd]
  rfl

end Remove

theorem EntryFd.restore {ch : Channel} {n : ℕ} {x : ℤ} (h : EntryFd ch n x) :
    (if x < 0 then -x - 1 else x) = n := by
  rcases h with rfl | ⟨rfl, _⟩
  · rw [if_neg (by omega)]
  · rw [if_pos (by omega)]
    omega

theorem Inv.exists_last (h : p.Inv) (hc : p.hasChannel c = true) :
    ∃ d back, p.hasChannel d = true ∧ p.index d = p.pollfds.length - 1 ∧
      p.slot d = some back ∧ p.pollfds.getLast? = some back ∧
      (if back.fd < 0 then -back.fd - 1 else back.fd) = p.fd d := by
  have h₀ := h.slotted.pos_nonneg hc
  have h₁ := h.slotted.pos_lt hc
  obtain ⟨d, hd, hp⟩ := h.slotted.pos_surj (show p.pollfds.length - 1 < p.pollfds.length by omega)
  obtain ⟨x, hx, hex⟩ := h.entries hd
  have hlast : p.pollfds.getLast? = p.slot d := by
    rw [List.getLast?_eq_getElem?, slot, Slotted.slot, hp, Int.toNat_natCast]
  exact ⟨d, _, hd, by omega, hx, hlast.trans hx, hex.restore⟩

/-- A channel without interest whose entry is negated is removed, its position given to the last
entry's channel. -/
theorem step_remove (h : p.Inv) (hc : p.hasChannel c = true)
    (hz : (p.channel c).isNoneEvent = true) (hp : p.parked c = true) :
    Yields (p.step (.remove c)) (p.Stepped (.remove c)) := by
  set ch : Channel := { p.channel c with addedToLoop := false } with hch
  set q : PollPoller κ := p.setChannel c ch with hq
  have hfd (d : κ) : q.fd d = p.fd d := Poller.setChannel_fd (p := p) (by rfl) d
  have hqc : q.channel c = ch := Poller.setChannel_channel_self _
  have hhas (d : κ) : q.hasChannel d = p.hasChannel d := setChannel_hasChannel (by rfl) d
  have hslotted : Slotted q.pollfds q.index fun d => q.hasChannel d = true := by
    simp only [hhas]
    exact h.slotted
  have hcq : q.hasChannel c = true := by rw [hhas]; exact hc
  have hzq : (q.channel c).isNoneEvent = true := by rw [hqc]; exact hz
  have hsq : q.slot c = some (entry (q.channel c) (-q.fd c - 1)) := by
    rw [hqc, hfd]
    exact h.parked_slot hp
  obtain ⟨d, back, hd, hi, hs, hb, hback⟩ := h.exists_last hc
  rw [step_remove_eq hc hz]
  by_cases hdc : d = c
  · subst hdc
    have hlive := Poller.hasChannel_unregister (p := p) (c := d) (q := { q with
      channels := Function.update q.channels (q.fd d) none
      impl := q.pollfds.dropLast }) hfd (by rw [hfd]; rfl) hc
    refine ⟨_, removeChannel_last hslotted hcq hzq hsq hb hi, .removed hc hz rfl ?_ ?_ ?_⟩
    · rw [hfd]
      rfl
    · exact h.slotted.pop hc hlive hi
    · intro e he hreg
      exact h.slotted.slot_pop hc hi hreg he
  · have hlast : q.index c ≠ q.pollfds.length - 1 := by
      intro hlast
      exact hdc (h.slotted.pos_inj hd hc (hi.trans hlast.symm))
    have hne : p.fd d ≠ p.fd c := fun he => hdc (Poller.hasChannel_inj hc hd he)
    have hdq : Function.update q.channels (q.fd c) none
        (if back.fd < 0 then -back.fd - 1 else back.fd) = some d := by
      rw [hback, hfd, Function.update_of_ne hne]
      exact Poller.hasChannel_iff.mp hd
    have hlive := Poller.hasChannel_unregister (p := p) (c := c) (q := { q with
      channels := Function.update q.channels (q.fd c) none
      index := Function.update q.index d (q.index c)
      impl := (q.pollfds.set (q.index c).toNat back).dropLast }) hfd (by rw [hfd]; rfl) hc
    refine ⟨_, removeChannel_swap hslotted hcq hzq hsq hb hlast hdq, .removed hc hz rfl ?_ ?_ ?_⟩
    · rw [hfd]
      rfl
    · exact h.slotted.swapPop hc hd hdc hlive hi (Function.update_self ..)
        (fun e he => Function.update_of_ne he ..)
    · intro e he hreg
      exact h.slotted.slot_swapPop hc hd hdc hi (Function.update_self ..)
        (fun e he => Function.update_of_ne he ..) hs hreg he

/-- A removed channel keeps its index, so a later change looks for its registration. -/
theorem step_change_removed {op : ChannelOp} (h : p.Inv) (hi : 0 ≤ p.index c)
    (hc : p.hasChannel c = false) (ho : ∀ d, p.hasChannel d = true → p.fd d = p.fd c → d = c) :
    p.step (.change c op) = .error (.assertion .poll_poller_cc 75) := by
  set q : PollPoller κ := p.setChannel c (op.apply (p.channel c))
  have hfd : q.fd c = p.fd c := Poller.setChannel_fd (op.apply_fd _) c
  have hnone : ¬ q.channels (q.fd c) ≠ none := by
    rw [hfd, not_not]
    exact h.channels_none hc ho
  have hi' : ¬ q.index c < 0 := not_lt.mpr hi
  change updateChannel q c = _
  unfold updateChannel
  dsimp only
  rw [if_neg hi', check_bind_of_false hnone]

/-- The entry of a channel removed right after its first change is not negated. -/
theorem step_remove_unparked (h : p.Inv) (hc : p.hasChannel c = true)
    (hz : (p.channel c).isNoneEvent = true) (hpark : p.parked c = false) :
    p.step (.remove c) = .error (.assertion .poll_poller_cc 100) := by
  set q : PollPoller κ := p.setChannel c { p.channel c with addedToLoop := false } with hq
  have hfd : q.fd c = p.fd c := Poller.setChannel_fd (p := p) (by rfl) c
  have hhas (d : κ) : q.hasChannel d = p.hasChannel d := setChannel_hasChannel (by rfl) d
  have hslotted : Slotted q.pollfds q.index fun d => q.hasChannel d = true := by
    simp only [hhas]
    exact h.slotted
  have hzq : (q.channel c).isNoneEvent = true := by
    rw [hq, Poller.setChannel_channel_self]
    exact hz
  obtain ⟨x, hx, hex⟩ := h.entries hc
  have hpos : 0 ≤ p.fd c := Int.natCast_nonneg _
  have hneg : ¬ ((entry (p.channel c) x).fd = -q.fd c - 1 ∧
      (entry (p.channel c) x).events.signExtend 32 = (q.channel c).events) := by
    rintro ⟨hneg, _⟩
    rw [hfd] at hneg
    simp only [parked, hc, hx, Option.any_some, hneg, Bool.true_and,
      decide_eq_false_iff_not] at hpark
    omega
  obtain ⟨_, back, _, _, _, hb, _⟩ := h.exists_last hc
  rw [step_remove_eq hc hz, removeChannel_eq hslotted (by rw [hhas]; exact hc) hzq hx hb,
    check_bind_of_false hneg]

theorem step_stepped (h : p.Inv) {x : PollerLabel κ} (ho : p.OwnsFd x) (hk : p.KeepsParking x) :
    Yields (p.step x) (p.Stepped x) := by
  cases x with
  | change c op =>
    cases hc : p.hasChannel c with
    | true => exact step_change_registered h hc
    | false =>
      refine step_change_new h hc ho (not_le.mp ?_)
      intro hi
      exact absurd (hk.1 hi) (by simp [hc])
  | remove c =>
    by_cases hg : p.hasChannel c = true ∧ (p.channel c).isNoneEvent = true
    · exact step_remove h hg.1 hg.2 (hk hg.1 hg.2)
    · refine ⟨p, ?_, .notRemoved hg⟩
      simp only [step, Poller.step]
      rw [if_neg hg]
      rfl

theorem Stepped.inv {x : PollerLabel κ} {q : PollPoller κ} (h : p.Inv) (ho : p.OwnsFd x)
    (hs : p.Stepped x q) : q.Inv := by
  cases hs with
  | @placed c op _ x hch hchs hsl hother hself hx =>
    have hfd := Poller.fd_of_update hch (op.apply_fd _)
    have hlive := Poller.hasChannel_register hfd hchs ho
    refine ⟨hsl, ?_, ?_⟩
    · intro d hd
      rw [hfd, hch]
      by_cases hdc : d = c
      · subst hdc
        refine ⟨x, by rw [Function.update_self]; exact hself, ?_⟩
        rw [Function.update_self]
        exact hx.imp And.left fun hx => ⟨hx.1, hx.2.2⟩
      · have hreg : p.hasChannel d = true := ((hlive d).mp hd).resolve_right hdc
        rw [Function.update_of_ne hdc, hother d hdc hreg]
        exact h.entries hreg
    · intro key d hk
      rw [hfd]
      by_cases hkey : key = p.fd c
      · subst hkey
        rw [hchs, Function.update_self] at hk
        rw [Option.some.inj hk]
      · rw [hchs, Function.update_of_ne hkey] at hk
        exact h.channels_fd hk
  | @removed c _ hc hz hch hchs hsl hother =>
    have hfd := Poller.fd_of_update hch (by rfl)
    have hlive := Poller.hasChannel_unregister hfd hchs hc
    refine ⟨hsl, ?_, ?_⟩
    · intro d hd
      obtain ⟨hreg, hdc⟩ := (hlive d).mp hd
      rw [hfd, hch, Function.update_of_ne hdc, hother d hdc hreg]
      exact h.entries hreg
    · intro key d hk
      rw [hfd]
      by_cases hkey : key = p.fd c
      · subst hkey
        rw [hchs, Function.update_self] at hk
        cases hk
      · rw [hchs, Function.update_of_ne hkey] at hk
        exact h.channels_fd hk
  | notRemoved _ => exact h

theorem new_inv (fd : κ → ℕ) : (new fd).Inv where
  slotted := by
    simp only [Poller.hasChannel, new, Poller.new]
    simpa using Slotted.nil
  entries hc := by simp [Poller.hasChannel, new, Poller.new] at hc
  channels_fd := by simp [new, Poller.new]

end PollPoller

end Dwater
