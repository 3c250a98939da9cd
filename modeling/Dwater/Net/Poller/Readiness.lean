import Dwater.Net.HandleEvent
import Dwater.Net.Poller.PollArray

/-! # What the two pollers report

The epoll poller hands the kernel a list of bounded size and doubles it when it comes back full;
the poll poller walks its array. Both are run on the same operations and asked about the same
descriptors: each reports registered channels only, none twice, and a channel that both report has
the same events. The epoll poller leaves out no more than its list has no room for.
-/

set_option autoImplicit false
namespace Dwater

open Fallible

variable {κ : Type}

/-- What the kernel reports for a descriptor with these events submitted: errors and hang-ups are
reported in any case. -/
def occurred (ready events : BitVec 32) : BitVec 32 := ready &&& (events ||| pollerr ||| pollhup)

theorem occurred_lt {ch : Channel} (h : ch.Plain) (ready : BitVec 32) :
    (occurred ready ch.events).toNat < 32 := by
  have hmask : (ch.events ||| pollerr ||| pollhup).toNat < 2 ^ 5 := by
    rw [BitVec.toNat_or, BitVec.toNat_or]
    refine Nat.or_lt_two_pow (Nat.or_lt_two_pow ?_ (by decide)) (by decide)
    exact Nat.lt_trans h (by decide)
  rw [occurred, BitVec.toNat_and]
  exact Nat.lt_of_le_of_lt Nat.and_le_right hmask

section Short

variable {x : BitVec 32}

/-- Such events pass through the `short` of a `pollfd` unchanged. -/
theorem toNat_short (h : x.toNat < 32) : (x.setWidth 16).toNat = x.toNat := by
  rw [BitVec.toNat_setWidth]
  exact Nat.mod_eq_of_lt (Nat.lt_trans h (by decide))

theorem msb_short (h : x.toNat < 32) : (x.setWidth 16).msb = false := by
  refine BitVec.msb_eq_false_iff_two_mul_lt.mpr ?_
  rw [toNat_short h]
  omega

theorem signExtend_short (h : x.toNat < 32) : (x.setWidth 16).signExtend 32 = x := by
  rw [BitVec.signExtend_eq_setWidth_of_msb_false (msb_short h)]
  apply BitVec.eq_of_toNat_eq
  rw [BitVec.toNat_setWidth, toNat_short h]
  exact Nat.mod_eq_of_lt x.isLt

theorem toInt_short (h : x.toNat < 32) : 0 ≤ (x.setWidth 16).toInt := by
  rw [BitVec.toInt_eq_toNat_of_msb (msb_short h)]
  exact Int.natCast_nonneg _

theorem short_eq_zero_iff (h : x.toNat < 32) : x.setWidth 16 = 0 ↔ x = 0 := by
  constructor
  · intro hz
    rw [← signExtend_short h, hz]
    rfl
  · rintro rfl
    rfl

end Short

namespace PollPoller

/-- What `poll` writes into the entries: a negated one is passed over. -/
def reports (p : PollPoller κ) (ready : ℤ → BitVec 32) (i : ℕ) : BitVec 16 :=
  match p.pollfds[i]? with
  | some pfd =>
    if pfd.fd < 0 then 0
    else (occurred (ready pfd.fd) (pfd.events.signExtend 32)).setWidth 16
  | none => 0

end PollPoller

namespace EpollPoller

open PollPoller (Active)

def kinitEventListSize : ℕ := 16

variable [DecidableEq κ]

def fillFrom (p : EpollPoller κ) : List (EpollEvent κ) → Active κ → Except Fault (Active κ)
  | [], a => return a
  | event :: events, a => do
    let fd := p.fd event.ptr
    check (p.channels fd ≠ none) (.assertion .epoll_poller_cc 78)
    check (p.channels fd = some event.ptr) (.assertion .epoll_poller_cc 79)
    fillFrom p events (a.push event.ptr event.events)

/-- `FillActiveChannels` with the first events of `events_`, which has the given size. -/
def fillActiveChannels (p : EpollPoller κ) (size : ℕ) (events : List (EpollEvent κ))
    (a : Active κ) : Except Fault (Active κ) := do
  check (events.length ≤ size) (.assertion .epoll_poller_cc 72)
  p.fillFrom events a

/-- `Poll` with what `epoll_wait` has written into `events_`. It returns the size of `events_`. -/
def poll (p : EpollPoller κ) (size : ℕ) (events : List (EpollEvent κ)) (a : Active κ) :
    Except Fault (ℕ × Active κ) := do
  if events.length > 0 then
    let a ← p.fillActiveChannels size events a
    return (if events.length = size then size * 2 else size, a)
  else return (size, a)

omit [DecidableEq κ] in
/-- What `epoll_wait` may write into a list of the given size: entries of the interest list for
which something occurred, each once, and all of them unless the list is full. -/
structure Reports (p : EpollPoller κ) (ready : ℤ → BitVec 32) (size : ℕ)
    (events : List (EpollEvent κ)) : Prop where
  size_le : events.length ≤ size
  once : (events.map EpollEvent.ptr).Nodup
  occurs : ∀ x ∈ events, x.events ≠ 0 ∧ ∃ fd event, p.impl.interest fd = some event ∧
    event.ptr = x.ptr ∧ x.events = occurred (ready fd) event.events
  all : events.length < size → ∀ fd event, p.impl.interest fd = some event →
    occurred (ready fd) event.events ≠ 0 → event.ptr ∈ events.map EpollEvent.ptr

variable {p : EpollPoller κ}

/-- What the loop does to the events that are left. -/
structure Filled (events : List (EpollEvent κ)) (a b : Active κ) : Prop where
  appended : b.channels = a.channels ++ events.map EpollEvent.ptr
  revents : ∀ x ∈ events, b.revents x.ptr = x.events
  others : ∀ c, c ∉ events.map EpollEvent.ptr → b.revents c = a.revents c

theorem fillFrom_filled {events : List (EpollEvent κ)}
    (h : ∀ x ∈ events, p.hasChannel x.ptr = true) (hnodup : (events.map EpollEvent.ptr).Nodup)
    (a : Active κ) : Yields (p.fillFrom events a) (Filled events a) := by
  induction events generalizing a with
  | nil => exact ⟨a, rfl, by simp, by simp, fun _ _ => rfl⟩
  | cons x events ih =>
    obtain ⟨hx, h⟩ := List.forall_mem_cons.mp h
    obtain ⟨hnot, hnodup⟩ := List.nodup_cons.mp hnodup
    have hreg := Poller.hasChannel_iff.mp hx
    have hne : p.channels (p.fd x.ptr) ≠ none := by
      rw [hreg]
      exact Option.some_ne_none _
    rw [fillFrom, check_bind_of_true hne, check_bind_of_true hreg]
    refine (ih h hnodup _).mono fun b hb => ⟨?_, ?_, fun c hc => ?_⟩
    · rw [hb.appended, Active.push, List.map_cons, List.append_assoc]
      rfl
    · intro y hy
      rcases List.mem_cons.mp hy with rfl | hy
      · rw [hb.others _ hnot]
        exact Function.update_self ..
      · exact hb.revents y hy
    · rw [List.map_cons, List.mem_cons, not_or] at hc
      rw [hb.others c hc.2]
      exact Function.update_of_ne hc.1 ..

/-- `Poll` lists what the kernel reported and doubles a list that came back full. -/
theorem poll_lists {events : List (EpollEvent κ)} {size : ℕ} {a : Active κ}
    (h : ∀ x ∈ events, p.hasChannel x.ptr = true) (hnodup : (events.map EpollEvent.ptr).Nodup)
    (hle : events.length ≤ size) (hpos : 0 < size) (ha : a.channels = []) :
    Yields (p.poll size events a) fun r => r.1 = (if events.length = size then size * 2 else size) ∧
      r.2.channels = events.map EpollEvent.ptr ∧ ∀ x ∈ events, r.2.revents x.ptr = x.events := by
  unfold poll
  split
  · refine yields_bind (P := Filled events a) ?_ fun b hb => ?_
    · rw [fillActiveChannels, check_bind_of_true hle]
      exact fillFrom_filled h hnodup a
    · refine yields_pure.mpr ⟨rfl, ?_, hb.revents⟩
      rw [hb.appended, ha, List.nil_append]
  · next hnone =>
    obtain rfl : events = [] := List.eq_nil_of_length_eq_zero (by omega)
    refine yields_pure.mpr ⟨?_, ha, fun x hx => absurd hx List.not_mem_nil⟩
    rw [if_neg]
    rw [List.length_nil]
    omega

end EpollPoller

namespace PollPoller

variable [DecidableEq κ] {p : PollPoller κ} {c : κ} (ready : ℤ → BitVec 32)

theorem exists_slot (h : p.blank.Inv) (hc : p.hasChannel c = true) :
    ∃ pfd, p.slot c = some pfd ∧ pfd.events = (p.channel c).events.setWidth 16 ∧
      (p.blank.parked c = true ↔ pfd.fd < 0) ∧ (0 ≤ pfd.fd → pfd.fd = p.fd c) := by
  obtain ⟨x, hx, hex⟩ := h.entries hc
  obtain ⟨pfd, hs, hfd, hevents⟩ := exists_of_slot_blank hx
  have hpos : 0 ≤ p.blank.fd c := Int.natCast_nonneg _
  have hown : pfd.fd = x := hfd
  refine ⟨pfd, hs, hevents, ?_, fun hle => ?_⟩
  · rw [h.parked_iff hc hx, hown]
    rcases hex with rfl | ⟨rfl, -⟩
    · constructor <;> intro <;> omega
    · constructor <;> intro <;> omega
  · rcases hex with hex | ⟨hex, -⟩
    · exact hown.trans hex
    · omega

omit [DecidableEq κ] in
theorem slot_answer (revents : ℕ → BitVec 16) :
    (p.answer revents).slot c =
      (p.slot c).map fun pfd => { pfd with revents := revents (p.index c).toNat } := by
  rw [slot, Slotted.slot, answer, pollfds, List.getElem?_mapIdx]
  rfl

theorem slot_reports (h : p.blank.Inv) (hplain : (p.channel c).Plain) (hc : p.hasChannel c = true) :
    ∃ pfd, (p.answer (p.reports ready)).slot c = some pfd ∧
      pfd.revents.signExtend 32 =
        (if p.blank.parked c then 0 else occurred (ready (p.fd c)) (p.channel c).events) ∧
      (pfd.revents = 0 ↔ pfd.revents.signExtend 32 = 0) ∧ 0 ≤ pfd.revents.toInt ∧
      (pfd.fd < 0 → pfd.revents = 0) := by
  obtain ⟨pfd, hs, hevents, hparked, hfd⟩ := exists_slot h hc
  have hget : p.pollfds[(p.index c).toNat]? = some pfd := hs
  refine ⟨_, by rw [slot_answer, hs, Option.map_some], ?_⟩
  dsimp only
  unfold reports
  rw [hget]
  dsimp only
  by_cases hneg : pfd.fd < 0
  · simp [hneg, hparked]
  · have hmask : pfd.events.signExtend 32 = (p.channel c).events := by
      rw [hevents]
      exact hplain.signExtend
    have hlt := occurred_lt hplain (ready (p.fd c))
    rw [if_neg hneg, hmask, hfd (by omega), if_neg (by rwa [hparked]), signExtend_short hlt]
    refine ⟨rfl, short_eq_zero_iff hlt, toInt_short hlt, fun hn => ?_⟩
    exact absurd hn (not_lt.mpr (Int.natCast_nonneg _))

theorem answered_reports (h : p.blank.Inv) (hplain : ∀ c, (p.channel c).Plain) :
    (p.answer (p.reports ready)).Answered := by
  have h' : (p.answer (p.reports ready)).blank.Inv := by
    rw [answer_blank]
    exact h
  intro pfd hmem
  obtain ⟨i, hi, rfl⟩ := List.getElem_of_mem hmem
  obtain ⟨c, hc, -, hs, -⟩ := exists_owner h' (List.getElem?_eq_getElem hi)
  obtain ⟨pfd, hs', -, -, hpos, hneg⟩ := slot_reports ready h (hplain c) hc
  rw [hs] at hs'
  cases hs'
  exact ⟨hneg, hpos⟩

/-- The channels that `Poll` lists, with the events that it sets. -/
structure Listing (p : PollPoller κ) (ready : ℤ → BitVec 32) (a : Active κ) : Prop where
  once : a.channels.Nodup
  mem_iff : ∀ c, c ∈ a.channels ↔ p.hasChannel c = true ∧ p.blank.parked c = false ∧
    occurred (ready (p.fd c)) (p.channel c).events ≠ 0
  revents : ∀ c ∈ a.channels, a.revents c = occurred (ready (p.fd c)) (p.channel c).events

theorem poll_lists (h : p.blank.Inv) (hplain : ∀ c, (p.channel c).Plain) (a : Active κ)
    (ha : a.channels = []) :
    Yields (p.poll (p.reports ready) a) fun r =>
      r.1 = p.answer (p.reports ready) ∧ p.Listing ready r.2 := by
  have h' : (p.answer (p.reports ready)).blank.Inv := by
    rw [answer_blank]
    exact h
  have hanswered := answered_reports ready h hplain
  have hlisting : ∀ b listed, (p.answer (p.reports ready)).Fills a b listed →
      p.Listing ready b := by
    intro b listed hb
    have hchannels : b.channels = listed := by rw [hb.appended, ha, List.nil_append]
    have hmem : ∀ c, c ∈ b.channels ↔ p.hasChannel c = true ∧ p.blank.parked c = false ∧
        occurred (ready (p.fd c)) (p.channel c).events ≠ 0 := by
      intro c
      rw [hchannels, hb.mem_iff]
      refine and_congr_right fun hc => ?_
      obtain ⟨pfd, hs, hrev, hzero, -⟩ := slot_reports ready h (hplain c) hc
      rw [hs]
      simp only [Option.some.injEq, exists_eq_left', ne_eq, hzero, hrev]
      cases p.blank.parked c <;> simp
    refine ⟨hchannels ▸ hb.once, hmem, fun c hc => ?_⟩
    obtain ⟨hreg, hparked, -⟩ := (hmem c).mp hc
    obtain ⟨pfd, hs, hrev, -⟩ := slot_reports ready h (hplain c) hreg
    rw [hb.revents (hchannels ▸ hc) hs, hrev, hparked]
    rfl
  unfold poll
  dsimp only
  split
  · refine yields_bind (fillActiveChannels_fills h' hanswered a) fun b hb => ?_
    obtain ⟨listed, hfills⟩ := hb
    exact yields_pure.mpr ⟨rfl, hlisting b listed hfills⟩
  · next hnone =>
    refine yields_pure.mpr ⟨rfl, hlisting a [] ⟨by simp, List.nodup_nil,
      fun c => ?_, ?_, fun _ => rfl⟩⟩
    · have hzero : ∀ pfd ∈ (p.answer (p.reports ready)).pollfds, pfd.revents = 0 := by
        have hcount : (p.answer (p.reports ready)).numEvents = 0 := by omega
        rw [numEvents, List.countP_eq_zero] at hcount
        intro pfd hmem
        simpa using hcount pfd hmem
      constructor
      · intro hc
        cases hc
      · rintro ⟨-, pfd, hs, hne⟩
        exact absurd (hzero pfd (List.mem_of_getElem? hs)) hne
    · intro c pfd hc
      cases hc

end PollPoller

/-- What the epoll poller lists when its list has the given size, beside what the poll poller
lists. -/
structure SameReport (size : ℕ) (a b : PollPoller.Active κ) : Prop where
  once : a.channels.Nodup ∧ b.channels.Nodup
  sub : a.channels ⊆ b.channels
  revents : ∀ c ∈ a.channels, a.revents c = b.revents c ∧ a.revents c ≠ 0
  count : a.channels.length = min size b.channels.length

/-- Both pollers with the channels they listed last, and the size of `events_`. The polls that
filled `events_` are counted, and the most events that a poll returned. -/
structure PollerPair (κ : Type) where
  epoll : EpollPoller κ
  poll : PollPoller κ
  size : ℕ
  epollActive : PollPoller.Active κ
  pollActive : PollPoller.Active κ
  full : ℕ
  most : ℕ

/-- An operation of a channel, or `Poll` when the descriptors are ready and the kernel writes these
events into `events_`. -/
inductive PairLabel (κ : Type)
  | call (x : PollerLabel κ)
  | poll (ready : ℤ → BitVec 32) (events : List (EpollEvent κ))

namespace PollerPair

def new (fd : κ → ℕ) : PollerPair κ :=
  { epoll := .new fd, poll := .new fd, size := EpollPoller.kinitEventListSize
    epollActive := ⟨[], fun _ => 0⟩, pollActive := ⟨[], fun _ => 0⟩, full := 0, most := 0 }

variable [DecidableEq κ]

/-- The loop clears its active channels before every call of `Poll`. -/
def step (s : PollerPair κ) : PairLabel κ → Except Fault (PollerPair κ)
  | .call x => do
    let epoll ← s.epoll.step x
    let poll ← s.poll.step x
    return { s with epoll := epoll, poll := poll }
  | .poll ready events => do
    let (size, epollActive) ← s.epoll.poll s.size events { s.epollActive with channels := [] }
    let (poll, pollActive) ←
      s.poll.poll (s.poll.reports ready) { s.pollActive with channels := [] }
    return { s with
      poll := poll
      size := size
      epollActive := epollActive
      pollActive := pollActive
      full := if size = s.size then s.full else s.full + 1
      most := max s.most events.length }

/-- The operations are those for which the pollers watch the same descriptors, and the kernel
answers the epoll poller. -/
def Allowed (s : PollerPair κ) : PairLabel κ → Prop
  | .call x => s.poll.KeepsParking x
  | .poll ready events => s.epoll.Reports ready s.size events

structure Inv (fd : κ → ℕ) (s : PollerPair κ) : Prop where
  related : Poller.Related fd s.epoll s.poll.blank
  size_eq : s.size = EpollPoller.kinitEventListSize * 2 ^ s.full
  size_le : 0 < s.full → s.size ≤ 2 * s.most

variable {fd : κ → ℕ} {s : PollerPair κ}

theorem parked_blank (p : PollPoller κ) (c : κ) : p.blank.parked c = p.parked c := by
  simp only [PollPoller.parked, PollPoller.slot_blank, Option.any_map]
  rfl

theorem keepsParking_blank (p : PollPoller κ) (x : PollerLabel κ) :
    p.blank.KeepsParking x ↔ p.KeepsParking x := by
  cases x with
  | change c op =>
    simp only [PollPoller.KeepsParking, parked_blank]
    rfl
  | remove c =>
    simp only [PollPoller.KeepsParking, parked_blank]
    rfl

theorem call_inv (hfd : Function.Injective fd) (h : s.Inv fd) {x : PollerLabel κ}
    (hx : s.poll.KeepsParking x) : Yields (s.step (.call x)) (Inv fd) := by
  obtain ⟨e, q, he, hq, hrelated⟩ := h.related.step hfd ((keepsParking_blank _ _).mpr hx)
  rw [PollPoller.step_blank] at hq
  obtain ⟨p, hp, rfl⟩ := map_eq_ok hq
  refine ⟨{ s with epoll := e, poll := p }, ?_, hrelated, h.size_eq, h.size_le⟩
  rw [step, he, ok_bind, hp, ok_bind]
  rfl

theorem Inv.reported (h : s.Inv fd) {ready : ℤ → BitVec 32} {events : List (EpollEvent κ)}
    (hr : s.epoll.Reports ready s.size events) {x : EpollEvent κ} (hx : x ∈ events) :
    s.poll.hasChannel x.ptr = true ∧ s.poll.blank.parked x.ptr = false ∧
      x.events = occurred (ready (s.poll.fd x.ptr)) (s.poll.channel x.ptr).events ∧
      x.events ≠ 0 := by
  obtain ⟨hne, key, event, hinterest, hptr, hevents⟩ := hr.occurs x hx
  obtain ⟨hkey, hadded⟩ := h.related.epoll_inv.interest_ptr hinterest
  have hlisted := (h.related.epoll_inv.indexTells.kadded_iff event.ptr).mp hadded
  rw [EpollPoller.Listed, hkey, hinterest, Option.some.injEq] at hlisted
  rw [hptr] at hkey hadded hlisted
  have hreg : s.epoll.hasChannel x.ptr = true := by
    cases h.related.epoll_inv.tag x.ptr with
    | new hi _ => exact absurd (hi.symm.trans hadded) (by decide)
    | added _ hc _ => exact hc
    | deleted hi _ _ _ => exact absurd (hi.symm.trans hadded) (by decide)
  have hreg' : s.poll.hasChannel x.ptr = true := h.related.has_same x.ptr ▸ hreg
  have hfd : s.epoll.fd x.ptr = s.poll.fd x.ptr := h.related.fd_same x.ptr
  have hch : s.epoll.channel = s.poll.channel := h.related.channel_eq
  refine ⟨hreg', ?_, ?_, hne⟩
  · rcases h.related.index_cases hreg' with ⟨-, hp⟩ | ⟨hi, -⟩
    · exact hp
    · exact absurd (hi.symm.trans hadded) (by decide)
  · rw [hevents, hlisted, ← hkey, hfd, hch]

theorem Inv.reports_all (h : s.Inv fd) {ready : ℤ → BitVec 32} {events : List (EpollEvent κ)}
    (hr : s.epoll.Reports ready s.size events) (hlt : events.length < s.size) {c : κ}
    (hc : s.poll.hasChannel c = true) (hparked : s.poll.blank.parked c = false)
    (hne : occurred (ready (s.poll.fd c)) (s.poll.channel c).events ≠ 0) :
    c ∈ events.map EpollEvent.ptr := by
  have hfd : s.epoll.fd c = s.poll.fd c := h.related.fd_same c
  have hch : s.epoll.channel = s.poll.channel := h.related.channel_eq
  have hadded : s.epoll.index c = EpollPoller.kadded := by
    rcases h.related.index_cases hc with ⟨hi, -⟩ | ⟨-, hp⟩
    · exact hi
    · rw [hparked] at hp
      cases hp
  have hlisted : s.epoll.Listed c := (h.related.epoll_inv.indexTells.kadded_iff c).mp hadded
  refine hr.all hlt (s.epoll.fd c) _ hlisted ?_
  rwa [hfd, hch]

theorem poll_same (h : s.Inv fd) {ready : ℤ → BitVec 32} {events : List (EpollEvent κ)}
    (hr : s.epoll.Reports ready s.size events) :
    Yields (s.step (.poll ready events)) fun t =>
      t.Inv fd ∧ SameReport s.size t.epollActive t.pollActive := by
  have hpos : 0 < s.size := by
    rw [h.size_eq]
    exact Nat.mul_pos (by decide) (Nat.two_pow_pos s.full)
  have hreg : ∀ x ∈ events, s.epoll.hasChannel x.ptr = true := by
    intro x hx
    rw [h.related.has_same]
    exact (h.reported hr hx).1
  obtain ⟨⟨size, a⟩, hepoll, hsize, hchannels, hrevents⟩ := EpollPoller.poll_lists
    (a := { s.epollActive with channels := [] }) hreg hr.once hr.size_le hpos rfl
  obtain ⟨⟨p, b⟩, hpoll, hp, hlist⟩ := PollPoller.poll_lists ready h.related.poll_inv
    h.related.plain { s.pollActive with channels := [] } rfl
  dsimp only at hsize hchannels hrevents hp hlist
  refine ⟨_, by rw [step, hepoll, ok_bind]; dsimp only; rw [hpoll, ok_bind]; rfl, ?_, ?_⟩
  · refine ⟨?_, ?_, ?_⟩
    · rw [hp, PollPoller.answer_blank]
      exact h.related
    · rw [hsize]
      split
      · next hfull =>
        rw [if_neg (by omega), h.size_eq, pow_succ, Nat.mul_assoc]
      · rw [if_pos rfl, h.size_eq]
    · dsimp only
      rw [hsize]
      split
      · next hfull =>
        intro _
        omega
      · rw [if_pos rfl]
        intro hfull
        have := h.size_le hfull
        omega
  · have hmem : ∀ c, c ∈ a.channels → c ∈ b.channels ∧
        a.revents c = occurred (ready (s.poll.fd c)) (s.poll.channel c).events ∧
          a.revents c ≠ 0 := by
      intro c hc
      rw [hchannels] at hc
      obtain ⟨x, hx, rfl⟩ := List.mem_map.mp hc
      obtain ⟨hc, hparked, hevents, hne⟩ := h.reported hr hx
      rw [hrevents x hx]
      exact ⟨(hlist.mem_iff _).mpr ⟨hc, hparked, hevents ▸ hne⟩, hevents, hne⟩
    have honce : a.channels.Nodup := hchannels ▸ hr.once
    have hlength : a.channels.length = events.length := by rw [hchannels, List.length_map]
    refine ⟨⟨honce, hlist.once⟩, fun c hc => (hmem c hc).1, fun c hc => ?_, ?_⟩
    · obtain ⟨hb, hevents, hne⟩ := hmem c hc
      exact ⟨hevents.trans (hlist.revents c hb).symm, hne⟩
    · have hsub : a.channels.length ≤ b.channels.length :=
        (honce.subperm fun c hc => (hmem c hc).1).length_le
      have hle := hr.size_le
      by_cases hlt : events.length < s.size
      · have hsup : b.channels.length ≤ a.channels.length := by
          refine (hlist.once.subperm fun c hc => ?_).length_le
          obtain ⟨hc, hparked, hne⟩ := (hlist.mem_iff c).mp hc
          rw [hchannels]
          exact h.reports_all hr hlt hc hparked hne
        dsimp only
        omega
      · dsimp only
        omega

theorem new_inv (fd : κ → ℕ) : (new fd).Inv fd :=
  ⟨Poller.new_related fd, rfl, fun h => absurd h (Nat.lt_irrefl 0)⟩

theorem step_inv (hfd : Function.Injective fd) (s : PollerPair κ) (x : PairLabel κ) (h : s.Inv fd)
    (hx : s.Allowed x) : Yields (s.step x) (Inv fd) := by
  cases x with
  | call x => exact call_inv hfd h hx
  | poll ready events => exact (poll_same h hx).mono fun t ht => ht.1

/--
In every run of the operations for which both pollers watch the same descriptors, no assertion of
either fails, and whatever occurs and whatever part of it the kernel reports to the epoll poller, it
lists as many of the channels of the poll poller as its list has room for, with the same events. Its
list has been doubled once for every poll that filled it, and is at most twice as long as the most
events that a poll has returned.
-/
theorem pollers_report_same (fd : κ → ℕ) (hfd : Function.Injective fd)
    (labels : List (PairLabel κ)) (h : Along step Allowed (new fd) labels) :
    Yields (run step (new fd) labels) fun s =>
      s.size = EpollPoller.kinitEventListSize * 2 ^ s.full ∧ (0 < s.full → s.size ≤ 2 * s.most) ∧
        ∀ ready events, s.epoll.Reports ready s.size events →
          Yields (s.step (.poll ready events)) fun t =>
            SameReport s.size t.epollActive t.pollActive :=
  (run_invariant (step_inv hfd) (new_inv fd) h).mono fun _ hs =>
    ⟨hs.size_eq, hs.size_le, fun _ _ hr => (poll_same hs hr).mono fun _ ht => ht.2⟩

/-- Two channels that read, both with data. -/
theorem pollers_report_same_two :
    Yields (run step (new fun b : Bool => if b then 7 else 5)
        [.call (.change false .enableReading), .call (.change true .enableReading),
          .poll (fun _ => pollin) [⟨pollin, true⟩, ⟨pollin, false⟩]]) fun s =>
      s.size = EpollPoller.kinitEventListSize * 2 ^ s.full ∧ (0 < s.full → s.size ≤ 2 * s.most) ∧
        ∀ ready events, s.epoll.Reports ready s.size events →
          Yields (s.step (.poll ready events)) fun t =>
            SameReport s.size t.epollActive t.pollActive := by
  refine pollers_report_same _ (by decide) _ ?_
  refine along_cons ⟨by decide, fun _ => rfl⟩ rfl ?_
  refine along_cons ⟨by decide, fun _ => rfl⟩ rfl ⟨?_, fun _ _ => trivial⟩
  refine ⟨by decide, by decide, ?_, fun _ _ event _ _ => ?_⟩
  · intro x hx
    rcases List.mem_cons.mp hx with rfl | hx
    · exact ⟨by decide, 7, ⟨Channel.kreadEvent, true⟩, rfl, rfl, by decide⟩
    · rw [List.mem_singleton.mp hx]
      exact ⟨by decide, 5, ⟨Channel.kreadEvent, false⟩, rfl, rfl, by decide⟩
  · cases event.ptr <;> decide

end PollerPair

end Dwater
