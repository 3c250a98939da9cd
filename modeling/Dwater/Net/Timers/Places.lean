import Dwater.Net.Timers.Sets

/-! # The places of a Timer

Every Timer is waiting to be added, scheduled, in the batch of expired timers, or deleted.
Each step of the loop thread moves Timers from one of these places to another; no
assertion fails, no deleted Timer is used, and none is deleted twice.
-/

set_option autoImplicit false
namespace Dwater

open Fallible

namespace TimerQueue

/-- The Timers alive, by where they are. -/
structure Owned (q : TimerQueue) (scheduled : Finset TimerPtr)
    (expired : List TimerPtr) : Prop where
  keyed : q.Keyed scheduled
  live_iff : ∀ p, (q.heap.get p).isSome ↔ p ∈ scheduled ∨ p ∈ q.waiting ∨ p ∈ expired
  waiting_not : ∀ p ∈ q.waiting, p ∉ scheduled ∧ p ∉ expired
  expired_not : ∀ p ∈ expired, p ∉ scheduled
  nodup : expired.Nodup
  free_max : q.heap.get uintptrMax = none

variable {q q' : TimerQueue} {scheduled : Finset TimerPtr} {expired : List TimerPtr}
  {p : TimerPtr} {t : Timer} {entries : List TimerEntry}

theorem Owned.of_eq (h : q.Owned scheduled expired) (hheap : q'.heap = q.heap)
    (htimers : q'.timers = q.timers) (hactive : q'.activeTimers = q.activeTimers)
    (hwaiting : q'.waiting = q.waiting) : q'.Owned scheduled expired := by
  constructor
  · exact h.keyed.congr htimers hactive fun p _ => by rw [hheap]
  · rw [hheap, hwaiting]
    exact h.live_iff
  · rw [hwaiting]
    exact h.waiting_not
  · exact h.expired_not
  · exact h.nodup
  · rw [hheap]
    exact h.free_max

theorem Owned.live (h : q.Owned scheduled expired) : ∀ p ∈ scheduled, (q.heap.get p).isSome :=
  fun p hp => (h.live_iff p).mpr (.inl hp)

theorem Owned.max_notMem (h : q.Owned scheduled expired) : uintptrMax ∉ scheduled := by
  intro hp
  have := h.live _ hp
  simp [h.free_max] at this

theorem Owned.get_waiting (h : q.Owned scheduled expired) (hp : p ∈ q.waiting) :
    ∃ t, q.heap.get p = some t :=
  Option.isSome_iff_exists.mp ((h.live_iff p).mpr (.inr (.inl hp)))

theorem Owned.get_expired (h : q.Owned scheduled expired) (hp : p ∈ expired) :
    ∃ t, q.heap.get p = some t :=
  Option.isSome_iff_exists.mp ((h.live_iff p).mpr (.inr (.inr hp)))

theorem Owned.newTimer (h : q.Owned scheduled expired) (hp : q.heap.get p = none)
    (hmax : p ≠ uintptrMax) (t : Timer) :
    Owned { q with heap := q.heap.new p t, waiting := Insert.insert p q.waiting }
      scheduled expired := by
  have hnot : ¬ (p ∈ scheduled ∨ p ∈ q.waiting ∨ p ∈ expired) := by
    rw [← h.live_iff, hp]
    simp
  constructor
  · refine h.keyed.congr rfl rfl fun r hr => ?_
    rw [Heap.get_new hp, Function.update_of_ne]
    rintro rfl
    exact hnot (.inl hr)
  · intro r
    rw [Heap.get_new hp]
    by_cases hr : r = p
    · simp [hr]
    · simp [hr, h.live_iff]
  · intro r hr
    rcases Finset.mem_insert.mp hr with rfl | hr
    · exact ⟨fun hs => hnot (.inl hs), fun hs => hnot (.inr (.inr hs))⟩
    · exact h.waiting_not r hr
  · exact h.expired_not
  · exact h.nodup
  · rw [Heap.get_new hp, Function.update_of_ne hmax.symm, h.free_max]

theorem Owned.add (h : q.Owned scheduled expired) (hp : p ∈ q.waiting)
    (ht : q.heap.get p = some t) :
    Owned ({ q with waiting := q.waiting.erase p }.put p t)
      (Insert.insert p scheduled) expired := by
  have hnot := h.waiting_not p hp
  constructor
  · exact Keyed.put (q := { q with waiting := q.waiting.erase p }) ⟨h.keyed.1, h.keyed.2⟩ ht
  · intro r
    refine (h.live_iff r).trans ?_
    change _ ↔ _ ∨ r ∈ q.waiting.erase p ∨ _
    by_cases hr : r = p
    · simp [hr, hp]
    · simp [hr]
  · intro r hr
    obtain ⟨hne, hr⟩ := Finset.mem_erase.mp hr
    exact ⟨by simp [hne, (h.waiting_not r hr).1], (h.waiting_not r hr).2⟩
  · intro r hr hs
    rcases Finset.mem_insert.mp hs with rfl | hs
    · exact hnot.2 hr
    · exact h.expired_not r hr hs
  · exact h.nodup
  · exact h.free_max

theorem Owned.cancel (h : q.Owned scheduled expired) (hp : p ∈ scheduled)
    (ht : q.heap.get p = some t) : (q.drop p t).Owned (scheduled.erase p) expired := by
  have hw : p ∉ q.waiting := fun hw => (h.waiting_not p hw).1 hp
  have he : p ∉ expired := fun he => h.expired_not p he hp
  constructor
  · exact h.keyed.drop ht
  · intro r
    change ((q.heap.delete p).get r).isSome ↔ _ ∨ r ∈ q.waiting ∨ _
    rw [Heap.get_delete]
    by_cases hr : r = p
    · simp [hr, hw, he]
    · simp [hr, h.live_iff]
  · exact fun r hr => ⟨fun hs => (h.waiting_not r hr).1 (Finset.mem_of_mem_erase hs),
      (h.waiting_not r hr).2⟩
  · exact fun r hr hs => h.expired_not r hr (Finset.mem_of_mem_erase hs)
  · exact h.nodup
  · change (q.heap.delete p).get uintptrMax = none
    rw [Heap.get_delete]
    by_cases hr : uintptrMax = p
    · simp [hr]
    · rw [Function.update_of_ne hr, h.free_max]

theorem Owned.takeDue (h : q.Owned scheduled []) (now : Timestamp) :
    (q.takeDue now scheduled).Owned (scheduled \ (pointers (q.dueEntries now)).toFinset)
      (pointers (q.dueEntries now)) := by
  have hsub : ∀ p ∈ pointers (q.dueEntries now), p ∈ scheduled :=
    fun p hp => (h.keyed.mem_pointers_due.mp hp).1
  constructor
  · exact h.keyed.takeDue now
  · intro r
    refine (h.live_iff r).trans ?_
    change _ ↔ _ ∨ r ∈ q.waiting ∨ _
    by_cases hr : r ∈ pointers (q.dueEntries now)
    · simp [hr, hsub r hr]
    · simp [hr]
  · intro r hr
    refine ⟨fun hs => (h.waiting_not r hr).1 (Finset.mem_sdiff.mp hs).1, fun hs => ?_⟩
    exact (h.waiting_not r hr).1 (hsub r hs)
  · intro r hr hs
    exact (Finset.mem_sdiff.mp hs).2 (List.mem_toFinset.mpr hr)
  · exact h.keyed.nodup_pointers_due now
  · exact h.free_max

theorem Owned.restart (h : q.Owned scheduled (p :: expired)) (ht : q.heap.get p = some t)
    (now : Timestamp) :
    Owned ({ q with heap := q.heap.set p (t.restart now) }.put p (t.restart now))
      (Insert.insert p scheduled) expired := by
  obtain ⟨hnew, hnd⟩ := List.nodup_cons.mp h.nodup
  have hs : p ∉ scheduled := h.expired_not p List.mem_cons_self
  have hget : (q.heap.set p (t.restart now)).get p = some (t.restart now) := by
    rw [Heap.get_set ht, Function.update_self]
  constructor
  · refine Keyed.put (q := { q with heap := q.heap.set p (t.restart now) }) ?_ hget
    refine h.keyed.congr rfl rfl fun r hr => ?_
    rw [Heap.get_set ht, Function.update_of_ne]
    rintro rfl
    exact hs hr
  · intro r
    change ((q.heap.set p (t.restart now)).get r).isSome ↔ _ ∨ r ∈ q.waiting ∨ _
    rw [Heap.get_set ht]
    by_cases hr : r = p
    · simp [hr]
    · simp [hr, h.live_iff]
  · intro r hr
    obtain ⟨hrs, hre⟩ := h.waiting_not r hr
    have hne : r ≠ p := fun heq => hre (heq ▸ List.mem_cons_self)
    exact ⟨by simp [hne, hrs], fun hm => hre (List.mem_cons_of_mem _ hm)⟩
  · intro r hr hm
    rcases Finset.mem_insert.mp hm with rfl | hm
    · exact hnew hr
    · exact h.expired_not r (List.mem_cons_of_mem _ hr) hm
  · exact hnd
  · change (q.heap.set p (t.restart now)).get uintptrMax = none
    rw [Heap.get_set ht, Function.update_of_ne, h.free_max]
    rintro rfl
    simp [h.free_max] at ht

theorem Owned.delete (h : q.Owned scheduled (p :: expired)) :
    Owned { q with heap := q.heap.delete p } scheduled expired := by
  obtain ⟨hnew, hnd⟩ := List.nodup_cons.mp h.nodup
  have hs : p ∉ scheduled := h.expired_not p List.mem_cons_self
  have hw : p ∉ q.waiting := fun hw => (h.waiting_not p hw).2 List.mem_cons_self
  constructor
  · refine h.keyed.congr rfl rfl fun r hr => ?_
    rw [Heap.get_delete, Function.update_of_ne]
    rintro rfl
    exact hs hr
  · intro r
    rw [Heap.get_delete]
    by_cases hr : r = p
    · simp [hr, hs, hw, hnew]
    · simp [hr, h.live_iff]
  · exact fun r hr => ⟨(h.waiting_not r hr).1,
      fun hm => (h.waiting_not r hr).2 (List.mem_cons_of_mem _ hm)⟩
  · exact fun r hr => h.expired_not r (List.mem_cons_of_mem _ hr)
  · exact hnd
  · rw [Heap.get_delete]
    by_cases hr : uintptrMax = p
    · simp [hr]
    · rw [Function.update_of_ne hr, h.free_max]

def Rearmed (q : TimerQueue) (p : TimerPtr) (t : Timer) : Prop :=
  q.heap.get p = some t ∧ t.repeats = true ∧ (p, t.sequence) ∉ q.cancelingTimers

/-- What the loop of `Reset` does to the queue. -/
structure Settled (now : Timestamp) (q : TimerQueue) (expired : List TimerPtr)
    (q' : TimerQueue) : Prop where
  clock_eq : q'.clock = q.clock
  timerfd_eq : q'.timerfd = q.timerfd
  calling_eq : q'.callingExpiredTimers = q.callingExpiredTimers
  canceling_eq : q'.cancelingTimers = q.cancelingTimers
  waiting_eq : q'.waiting = q.waiting
  mem_timers : ∀ e, e ∈ q'.timers ↔ e ∈ q.timers ∨
    ∃ p ∈ expired, ∃ t, q.Rearmed p t ∧ e = toLex (now.addTime t.interval, p)
  get_eq : ∀ p ∉ expired, q'.heap.get p = q.heap.get p

theorem Owned.resetOne (h : q.Owned scheduled (p :: expired)) (now : Timestamp) {it : TimerEntry}
    (hit : (ofLex it).2 = p) :
    Yields (resetOne now q it) fun q' =>
      (∃ scheduled', q'.Owned scheduled' expired) ∧ Settled now q [p] q' := by
  obtain ⟨t, ht⟩ := h.get_expired List.mem_cons_self
  simp only [TimerQueue.resetOne, hit, deref_eq ht]
  change Yields (if _ then _ else _) _
  split
  · next hr =>
    have hins : TimerQueue.insert { q with heap := q.heap.set p (t.restart now) } p =
        .ok ({ q with heap := q.heap.set p (t.restart now) }.put p (t.restart now),
          (t.restart now).expiration.precedes q.timers) := by
      refine Keyed.insert_eq (q := { q with heap := q.heap.set p (t.restart now) })
        (h.keyed.congr rfl rfl fun r hs => ?_) ?_ (h.expired_not p List.mem_cons_self)
      · rw [Heap.get_set ht, Function.update_of_ne]
        rintro rfl
        exact h.expired_not r List.mem_cons_self hs
      · rw [Heap.get_set ht, Function.update_self]
    rw [hins]
    refine yields_ok.mpr ⟨⟨_, h.restart ht now⟩, rfl, rfl, rfl, rfl, rfl, ?_, ?_⟩
    · intro e
      change e ∈ Insert.insert _ q.timers ↔ _
      rw [Finset.mem_insert, Timer.restart_expiration hr.1, or_comm]
      refine or_congr_right ⟨fun he => ⟨p, List.mem_singleton_self p, t, ⟨ht, hr⟩, he⟩, ?_⟩
      rintro ⟨r, hrp, u, ⟨hu, -⟩, rfl⟩
      cases List.mem_singleton.mp hrp
      rw [ht] at hu
      cases hu
      rfl
    · intro r hrp
      change (q.heap.set p (t.restart now)).get r = _
      rw [Heap.get_set ht, Function.update_of_ne (fun heq => hrp (List.mem_singleton.mpr heq))]
  · next hr =>
    rw [delete_eq ht]
    refine yields_ok.mpr ⟨⟨_, h.delete⟩, rfl, rfl, rfl, rfl, rfl, ?_, ?_⟩
    · intro e
      refine ⟨.inl, fun he => he.resolve_right ?_⟩
      rintro ⟨r, hrp, u, ⟨hu, hrep⟩, -⟩
      cases List.mem_singleton.mp hrp
      rw [ht] at hu
      cases hu
      exact hr hrep
    · intro r hrp
      change (q.heap.delete p).get r = _
      rw [Heap.get_delete, Function.update_of_ne (fun heq => hrp (List.mem_singleton.mpr heq))]

theorem Settled.cons {now : Timestamp} {q'' : TimerQueue} (hnew : p ∉ expired)
    (h : Settled now q [p] q') (h' : Settled now q' expired q'') :
    Settled now q (p :: expired) q'' := by
  have hget : ∀ r ∈ expired, q'.heap.get r = q.heap.get r := by
    refine fun r hr => h.get_eq r fun hm => ?_
    cases List.mem_singleton.mp hm
    exact hnew hr
  refine ⟨h'.clock_eq.trans h.clock_eq, h'.timerfd_eq.trans h.timerfd_eq,
    h'.calling_eq.trans h.calling_eq, h'.canceling_eq.trans h.canceling_eq,
    h'.waiting_eq.trans h.waiting_eq, fun e => ?_, fun r hr => ?_⟩
  · rw [h'.mem_timers, h.mem_timers]
    constructor
    · rintro ((he | ⟨r, hr, u, hu, rfl⟩) | ⟨r, hr, u, hu, rfl⟩)
      · exact .inl he
      · exact .inr ⟨r, List.mem_cons.mpr (.inl (List.mem_singleton.mp hr)), u, hu, rfl⟩
      · refine .inr ⟨r, List.mem_cons_of_mem _ hr, u, ?_, rfl⟩
        rwa [Rearmed, hget r hr, h.canceling_eq] at hu
    · rintro (he | ⟨r, hr, u, hu, rfl⟩)
      · exact .inl (.inl he)
      · rcases List.mem_cons.mp hr with rfl | hr
        · exact .inl (.inr ⟨r, List.mem_singleton_self r, u, hu, rfl⟩)
        · refine .inr ⟨r, hr, u, ?_, rfl⟩
          rwa [Rearmed, hget r hr, h.canceling_eq]
  · rw [h'.get_eq r fun hm => hr (List.mem_cons_of_mem _ hm),
      h.get_eq r fun hm => hr (List.mem_cons.mpr (.inl (List.mem_singleton.mp hm)))]

theorem Owned.run_resetOne (now : Timestamp) {entries : List TimerEntry} :
    ∀ {q : TimerQueue} {scheduled : Finset TimerPtr}, q.Owned scheduled (pointers entries) →
      Yields (run (TimerQueue.resetOne now) q entries) fun q' =>
        (∃ scheduled', q'.Owned scheduled' []) ∧ Settled now q (pointers entries) q' := by
  induction entries with
  | nil =>
    intro q scheduled h
    refine yields_ok.mpr ⟨⟨scheduled, h⟩, rfl, rfl, rfl, rfl, rfl, fun e => ?_, fun _ _ => rfl⟩
    simp [pointers]
  | cons it entries ih =>
    intro q scheduled h
    obtain ⟨q', hq', ⟨scheduled', h'⟩, hs⟩ := Owned.resetOne h now rfl
    rw [run_cons_of_ok hq']
    refine (ih h').mono fun q'' hq'' => ⟨hq''.1, ?_⟩
    exact hs.cons (List.nodup_cons.mp h.nodup).1 hq''.2

theorem Owned.reset (h : q.Owned scheduled (pointers entries)) (now : Timestamp) :
    Yields (q.reset entries now) fun q' =>
      ∃ q₁, Settled now q (pointers entries) q₁ ∧ (∃ scheduled', q₁.Owned scheduled' []) ∧
        ((∃ e : TimerEntry, q₁.timers.min = ↑e ∧ (ofLex e).1.valid = true ∧
          q' = q₁.resetTimerfd (ofLex e).1) ∨
        ((∀ e : TimerEntry, q₁.timers.min = ↑e → (ofLex e).1.valid = false) ∧ q' = q₁)) := by
  refine yields_bind (h.run_resetOne now) fun q₁ hq₁ => ?_
  obtain ⟨⟨scheduled', h₁⟩, hs⟩ := hq₁
  cases hmin : q₁.timers.min with
  | top =>
    refine yields_pure.mpr ⟨q₁, hs, ⟨scheduled', h₁⟩, .inr ⟨?_, rfl⟩⟩
    rw [hmin]
    intro e he
    cases he
  | coe e =>
    obtain ⟨hp, hkey⟩ := h₁.keyed.scheduled_of_timer (Finset.mem_of_min hmin)
    obtain ⟨t, ht⟩ := Option.isSome_iff_exists.mp (h₁.live _ hp)
    have hexp : t.expiration = (ofLex e).1 := by
      rw [entryAt_eq ht] at hkey
      exact congrArg (fun e => (ofLex e).1) hkey
    simp only [deref_eq ht]
    change Yields (if t.expiration.valid = true then _ else _) _
    rw [hexp]
    split
    · next hv => exact yields_pure.mpr ⟨q₁, hs, ⟨scheduled', h₁⟩, .inl ⟨e, hmin, hv, rfl⟩⟩
    · next hv =>
      refine yields_pure.mpr ⟨q₁, hs, ⟨scheduled', h₁⟩, .inr ⟨fun f hf => ?_, rfl⟩⟩
      rw [hmin] at hf
      cases hf
      simpa using hv

def expiredTimers (q : TimerQueue) : List TimerPtr :=
  match q.batch with
  | some b => pointers b.expired
  | none => []

theorem expiredTimers_eq {b : ExpiredBatch} (hb : q.batch = some b) :
    q.expiredTimers = pointers b.expired := by
  simp [expiredTimers, hb]

structure Inv (q : TimerQueue) (scheduled : Finset TimerPtr) : Prop where
  owned : q.Owned scheduled q.expiredTimers
  upcoming : ∀ b, q.batch = some b → ∀ e ∈ b.upcoming, e ∈ b.expired

theorem new_inv (now : Timestamp) : (new now).Inv ∅ := by
  refine ⟨⟨⟨rfl, rfl⟩, ?_, ?_, ?_, List.nodup_nil, rfl⟩, ?_⟩
  · intro p
    simp [new, Heap.get, Heap.empty, expiredTimers]
  · exact fun p hp => absurd hp (Finset.notMem_empty p)
  · exact fun p hp => absurd hp List.not_mem_nil
  · intro b hb
    cases hb

theorem Owned.addTimerInLoop_eq (h : q.Owned scheduled expired) (hp : p ∈ q.waiting)
    (ht : q.heap.get p = some t) :
    { q with waiting := q.waiting.erase p }.addTimerInLoop p =
      .ok (if t.expiration.precedes q.timers then
          ({ q with waiting := q.waiting.erase p }.put p t).resetTimerfd t.expiration
        else { q with waiting := q.waiting.erase p }.put p t) := by
  have hins : TimerQueue.insert { q with waiting := q.waiting.erase p } p =
      .ok ({ q with waiting := q.waiting.erase p }.put p t, t.expiration.precedes q.timers) :=
    Keyed.insert_eq (q := { q with waiting := q.waiting.erase p })
      ⟨h.keyed.timers_eq, h.keyed.active_eq⟩ ht (h.waiting_not p hp).1
  have hd : ({ q with waiting := q.waiting.erase p }.put p t).deref p 121 = .ok t :=
    deref_eq ht 121
  rw [addTimerInLoop, hins]
  change (if _ then (_ >>= _) else _) = _
  rw [hd]
  split <;> rfl

theorem Inv.addTimerInLoop (h : q.Inv scheduled) (hp : p ∈ q.waiting) :
    Yields ({ q with waiting := q.waiting.erase p }.addTimerInLoop p)
      fun q' => ∃ scheduled', q'.Inv scheduled' := by
  obtain ⟨t, ht⟩ := h.owned.get_waiting hp
  rw [h.owned.addTimerInLoop_eq hp ht]
  have hadd := h.owned.add hp ht
  refine yields_ok.mpr ⟨Insert.insert p scheduled, ?_, ?_⟩
  · split
    · exact hadd.of_eq rfl rfl rfl rfl
    · exact hadd
  · split
    · exact h.upcoming
    · exact h.upcoming

theorem Inv.cancelInLoop (h : q.Inv scheduled) (timerId : TimerId) :
    Yields (q.cancelInLoop timerId) fun q' => ∃ scheduled', q'.Inv scheduled' := by
  obtain ⟨p, t, -, hp, ht, heq⟩ | ⟨-, -, heq⟩ | ⟨-, -, heq⟩ :=
    h.owned.keyed.cancelInLoop_cases h.owned.live timerId
  · rw [heq]
    exact yields_ok.mpr ⟨_, h.owned.cancel hp ht, h.upcoming⟩
  · rw [heq]
    exact yields_ok.mpr ⟨scheduled, h.owned.of_eq rfl rfl rfl rfl, h.upcoming⟩
  · rw [heq]
    exact yields_ok.mpr ⟨scheduled, h⟩

def entered (q : TimerQueue) (readAt : Timestamp) (scheduled : Finset TimerPtr) : TimerQueue :=
  { q.takeDue q.clock scheduled with
    clock := readAt
    timerfd := q.timerfd.read readAt
    callingExpiredTimers := true
    cancelingTimers := ∅
    batch := some ⟨q.clock, q.dueEntries q.clock, q.dueEntries q.clock⟩ }

theorem Owned.handleRead_eq (h : q.Owned scheduled expired) (readAt : Timestamp) :
    q.handleRead readAt = .ok (q.entered readAt scheduled) := by
  have hget := Keyed.getExpired_eq
    (q := { q with clock := readAt, timerfd := q.timerfd.read readAt })
    ⟨h.keyed.timers_eq, h.keyed.active_eq⟩ h.live h.max_notMem q.clock
  rw [handleRead, hget]
  rfl

theorem Inv.handleRead (h : q.Inv scheduled) (hb : q.batch = none) (readAt : Timestamp) :
    Yields (q.handleRead readAt) fun q' => ∃ scheduled', q'.Inv scheduled' := by
  have hnil : q.expiredTimers = [] := by simp [expiredTimers, hb]
  have howned := h.owned
  rw [hnil] at howned
  have htake := howned.takeDue q.clock
  rw [howned.handleRead_eq]
  refine yields_ok.mpr ⟨_, htake.of_eq rfl rfl rfl rfl, ?_⟩
  rintro b hb e he
  cases hb
  exact he

theorem Inv.runCallback_eq (h : q.Inv scheduled) {b : ExpiredBatch} (hb : q.batch = some b)
    {it : TimerEntry} {its : List TimerEntry} (hu : b.upcoming = it :: its) :
    q.runCallback b it its = .ok { q with batch := some { b with upcoming := its } } := by
  have hit : (ofLex it).2 ∈ q.expiredTimers := by
    rw [expiredTimers_eq hb]
    exact List.mem_map_of_mem (h.upcoming b hb it (hu ▸ List.mem_cons_self))
  obtain ⟨t, ht⟩ := h.owned.get_expired hit
  rw [TimerQueue.runCallback, deref_eq ht]
  rfl

theorem Inv.runCallback (h : q.Inv scheduled) {b : ExpiredBatch} (hb : q.batch = some b)
    {it : TimerEntry} {its : List TimerEntry} (hu : b.upcoming = it :: its) :
    Yields (q.runCallback b it its) fun q' => ∃ scheduled', q'.Inv scheduled' := by
  have howned := h.owned
  rw [expiredTimers_eq hb] at howned
  rw [h.runCallback_eq hb hu]
  refine yields_ok.mpr ⟨scheduled, howned.of_eq rfl rfl rfl rfl, ?_⟩
  rintro b' hb' e he
  cases hb'
  exact h.upcoming b hb e (hu ▸ List.mem_cons_of_mem _ he)

theorem Inv.step_runCallback (h : q.Inv scheduled) (hq : q.step .runCallback = .ok q') :
    q' = q ∨ ∃ b its, q.batch = some b ∧
      q' = { q with batch := some { b with upcoming := its } } := by
  simp only [step] at hq
  split at hq
  · next b hb =>
    split at hq
    · next it its hu =>
      rw [h.runCallback_eq hb hu] at hq
      cases hq
      exact .inr ⟨b, its, hb, rfl⟩
    · cases hq
      exact .inl rfl
  · cases hq
    exact .inl rfl

theorem Inv.finishRead_settled (h : q.Inv scheduled) {b : ExpiredBatch} (hb : q.batch = some b) :
    Yields (q.finishRead b) fun q' => ∃ q₁ q₂,
      Settled b.now { q with callingExpiredTimers := false } (pointers b.expired) q₁ ∧
      (∃ scheduled', q₁.Owned scheduled' []) ∧
      ((∃ e : TimerEntry, q₁.timers.min = ↑e ∧ (ofLex e).1.valid = true ∧
          q₂ = q₁.resetTimerfd (ofLex e).1) ∨
        ((∀ e : TimerEntry, q₁.timers.min = ↑e → (ofLex e).1.valid = false) ∧ q₂ = q₁)) ∧
      q' = { q₂ with batch := none } := by
  have howned : Owned { q with callingExpiredTimers := false } scheduled (pointers b.expired) := by
    rw [← expiredTimers_eq hb]
    exact h.owned.of_eq rfl rfl rfl rfl
  refine yields_bind (howned.reset b.now) fun q₂ hq₂ => ?_
  obtain ⟨q₁, hs, h₁, hfd⟩ := hq₂
  exact yields_pure.mpr ⟨q₁, q₂, hs, h₁, hfd, rfl⟩

theorem Inv.finishRead (h : q.Inv scheduled) {b : ExpiredBatch} (hb : q.batch = some b) :
    Yields (q.finishRead b) fun q' => ∃ scheduled', q'.Inv scheduled' := by
  refine (h.finishRead_settled hb).mono ?_
  rintro q' ⟨q₁, q₂, -, ⟨scheduled', h₁⟩, hfd, rfl⟩
  refine ⟨scheduled', ?_, fun _ hb' => by cases hb'⟩
  rcases hfd with ⟨e, -, -, rfl⟩ | ⟨-, rfl⟩
  · exact h₁.of_eq rfl rfl rfl rfl
  · exact h₁.of_eq rfl rfl rfl rfl

theorem step_inv (q : TimerQueue) (l : TimerLabel) (h : ∃ scheduled, q.Inv scheduled) :
    Yields (q.step l) fun q' => ∃ scheduled, q'.Inv scheduled := by
  obtain ⟨scheduled, h⟩ := h
  cases l with
  | tick now =>
    simp only [step]
    split
    · exact yields_pure.mpr ⟨scheduled, h.owned.of_eq rfl rfl rfl rfl, h.upcoming⟩
    · exact yields_pure.mpr ⟨scheduled, h⟩
  | newTimer p when interval =>
    simp only [step]
    split
    · next hp => exact yields_pure.mpr ⟨scheduled, h.owned.newTimer hp.1 hp.2 _, h.upcoming⟩
    · exact yields_pure.mpr ⟨scheduled, h⟩
  | addTimerInLoop p =>
    simp only [step]
    split
    · next hp => exact h.addTimerInLoop hp
    · exact yields_pure.mpr ⟨scheduled, h⟩
  | cancelInLoop timerId => exact h.cancelInLoop timerId
  | handleRead readAt =>
    simp only [step]
    split
    · next hb => exact h.handleRead hb.1 readAt
    · exact yields_pure.mpr ⟨scheduled, h⟩
  | runCallback =>
    simp only [step]
    split
    · next b hb =>
      split
      · next it its hu => exact h.runCallback hb hu
      · exact yields_pure.mpr ⟨scheduled, h⟩
    · exact yields_pure.mpr ⟨scheduled, h⟩
  | finishRead =>
    simp only [step]
    split
    · next b hb =>
      split
      · exact h.finishRead hb
      · exact yields_pure.mpr ⟨scheduled, h⟩
    · exact yields_pure.mpr ⟨scheduled, h⟩

/-- Where a Timer can be. -/
inductive Place
  | waiting | scheduled | expired | deleted
  deriving DecidableEq, Repr

def At (q : TimerQueue) (n : ℕ) : Place → Prop
  | .waiting => ∃ p t, q.heap.cell p = some (n, t) ∧ p ∈ q.waiting
  | .scheduled => ∃ p t, q.heap.cell p = some (n, t) ∧
      toLex (t.expiration, p) ∈ q.timers ∧ (p, t.sequence) ∈ q.activeTimers
  | .expired => ∃ p t, q.heap.cell p = some (n, t) ∧ p ∈ q.expiredTimers
  | .deleted => q.heap.deleted.count n = 1

/--
Both sets hold the same live Timers under their current keys, and every Timer created is waiting to
be added, in both sets, in the batch being processed, or deleted once.
-/
structure Consistent (q : TimerQueue) : Prop where
  same_size : q.timers.card = q.activeTimers.card
  same_timers : q.timers.image (fun e => (ofLex e).2) = q.activeTimers.image Prod.fst
  timers_keyed : ∀ e ∈ q.timers, ∃ t, q.heap.get (ofLex e).2 = some t ∧ t.expiration = (ofLex e).1
  active_keyed : ∀ a ∈ q.activeTimers, ∃ t, q.heap.get a.1 = some t ∧ t.sequence = a.2
  placed : ∀ n < q.heap.created, ∃! place, q.At n place

theorem Owned.at_iff (h : q.Owned scheduled q.expiredTimers) {n : ℕ}
    (hc : q.heap.cell p = some (n, t)) (place : Place) :
    q.At n place ↔ match place with
      | .waiting => p ∈ q.waiting
      | .scheduled => p ∈ scheduled
      | .expired => p ∈ q.expiredTimers
      | .deleted => False := by
  have hown : ∀ {r u}, q.heap.cell r = some (n, u) → r = p ∧ u = t := by
    intro r u hr
    cases q.heap.sound.cell_inj hr hc rfl
    rw [hc] at hr
    cases hr
    exact ⟨rfl, rfl⟩
  have ht : q.heap.get p = some t := Heap.get_eq_some.mpr ⟨n, hc⟩
  cases place with
  | waiting =>
    constructor
    · rintro ⟨r, u, hr, hw⟩
      exact (hown hr).1 ▸ hw
    · exact fun hw => ⟨p, t, hc, hw⟩
  | scheduled =>
    constructor
    · rintro ⟨r, u, hr, he, -⟩
      obtain ⟨rfl, rfl⟩ := hown hr
      exact (h.keyed.mem_timers ht).mp he
    · exact fun hs => ⟨p, t, hc, (h.keyed.mem_timers ht).mpr hs, (h.keyed.mem_active ht).mpr hs⟩
  | expired =>
    constructor
    · rintro ⟨r, u, hr, he⟩
      exact (hown hr).1 ▸ he
    · exact fun he => ⟨p, t, hc, he⟩
  | deleted =>
    have hd : q.heap.deleted.count n = 0 := List.count_eq_zero.mpr (q.heap.sound.dead hc)
    simp [At, hd]

theorem Owned.placed (h : q.Owned scheduled q.expiredTimers) {n : ℕ} (hn : n < q.heap.created) :
    ∃! place, q.At n place := by
  rcases q.heap.sound.live_or_deleted hn with ⟨p, t, hc⟩ | hd
  · have hlive := (h.live_iff p).mp (by simp [Heap.get_eq_some.mpr ⟨n, hc⟩])
    have hw := h.waiting_not p
    have he := h.expired_not p
    rcases hlive with hp | hp | hp
    · refine ⟨.scheduled, (h.at_iff hc _).mpr hp, fun place hplace => ?_⟩
      have := (h.at_iff hc place).mp hplace
      cases place <;> simp_all
    · refine ⟨.waiting, (h.at_iff hc _).mpr hp, fun place hplace => ?_⟩
      have := (h.at_iff hc place).mp hplace
      cases place <;> simp_all
    · refine ⟨.expired, (h.at_iff hc _).mpr hp, fun place hplace => ?_⟩
      have := (h.at_iff hc place).mp hplace
      cases place <;> simp_all
  · refine ⟨.deleted, List.count_eq_one_of_mem q.heap.sound.deleted_nodup hd, ?_⟩
    intro place hplace
    cases place with
    | deleted => rfl
    | waiting | scheduled | expired =>
      obtain ⟨p, t, hc, -⟩ := hplace
      exact absurd hd (q.heap.sound.dead hc)

theorem Inv.consistent (h : q.Inv scheduled) : q.Consistent where
  same_size := h.owned.keyed.sameSize
  same_timers := by
    rw [h.owned.keyed.timers_eq, h.owned.keyed.active_eq, Finset.image_image, Finset.image_image]
    rfl
  timers_keyed e he := by
    obtain ⟨hp, hkey⟩ := h.owned.keyed.scheduled_of_timer he
    obtain ⟨t, ht⟩ := Option.isSome_iff_exists.mp (h.owned.live _ hp)
    rw [entryAt_eq ht] at hkey
    exact ⟨t, ht, congrArg (fun e => (ofLex e).1) hkey⟩
  active_keyed a ha := by
    obtain ⟨hp, hkey⟩ := h.owned.keyed.scheduled_of_active ha
    obtain ⟨t, ht⟩ := Option.isSome_iff_exists.mp (h.owned.live _ hp)
    rw [activeAt_eq ht] at hkey
    exact ⟨t, ht, congrArg Prod.snd hkey⟩
  placed _ hn := h.owned.placed hn

/--
Whatever the loop thread, its callbacks and the other threads do, no assertion of the queue fails,
no deleted Timer is used, and the queue stays consistent.
-/
theorem queue_consistent (now : Timestamp) (labels : List TimerLabel) :
    Yields (run step (new now) labels) Consistent := by
  have hall : Along step (fun _ _ => True) (new now) labels :=
    along_of_forall (fun _ _ => trivial) _ labels
  refine (run_invariant (fun q l hq _ => step_inv q l hq) ⟨∅, new_inv now⟩ hall).mono ?_
  rintro q ⟨scheduled, h⟩
  exact h.consistent

end TimerQueue

end Dwater
